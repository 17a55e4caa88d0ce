import Libsysve.AccIo.Bodies
import Libsysve.AccIo.ReadInvariant

/-!
# The read pipeline keeps its invariant

One spec lemma for the head of the loop body, the system call with its DMA, the whole body,
and the drain loop.  `readTransfer_spec` composes them.
-/

set_option autoImplicit false

namespace Libsysve.AccIo.ReadJob

open Libsysve.ByteMemory Libsysve.ForLoop

variable {Cursor : Type} {job : ReadJob Cursor}

/-- The head of the body, and for `i ≥ 2` a successful wait with the copy: half `i` is free. -/
theorem Head.ready_first {i : Nat} {s : IoState Cursor} (h : job.Head i s)
    (lt : i < chunkNum job.total) (early : i < 2) :
    job.Ready i (s.prepare job.env job.call i) := by
  rw [prepare_eq job.sized lt h.io (h.transferSize lt)]
  have delivered : i - 2 = i - 1 := by omega
  constructor
  · rw [← delivered]
    exact h.base.locals rfl rfl rfl rfl
  · rw [← delivered]
    exact ⟨h.clean.exit, h.clean.errnoBak, h.clean.dataErr, h.clean.noFail, h.clean.errno⟩
  · exact h.full
  · rfl
  · exact h.ofs lt
  · rfl
  · intro one
    exact (h.inFlight (i - 1) (by omega) (by omega)).frame rfl rfl rfl rfl rfl
  · exact (h.vacant i (le_refl i) early).idle
  · intro zero
    exact (h.vacant 1 (by omega) (by omega)).frame rfl rfl

theorem Head.ready_deliver {i : Nat} {s : IoState Cursor} (h : job.Head i s)
    (lt : i < chunkNum job.total) (two : 2 ≤ i)
    (success : job.env.waitCode s.world.waitCount = 0) :
    job.Ready i (IoState.deliver job.call.plan (half i)
      { s.prepare job.env job.call i with world := (s.world.veDmaWait job.env (half i)).2 }) := by
  rw [prepare_eq job.sized lt h.io (h.transferSize lt)]
  have flying := h.inFlight (i - 2) (by omega) (by omega)
  have next := h.inFlight (i - 1) (by omega) (by omega)
  have sameHalf : half (i - 2) = half i := half_sub_two two
  have otherHalf : half (i - 1) ≠ half i := half_pred_ne (by omega)
  have count : i - 2 + 1 = i - 1 := by omega
  -- the state after the wait; chunk i - 2 is in the VE half now
  let waited : IoState Cursor := { s with
    io := job.io.atChunk job.env i
    transferSize := (chunkSize job.total i : Nat)
    world := (s.world.veDmaWait job.env (half i)).2 }
  have world : waited.world = (s.world.veDmaWait job.env (half (i - 2))).2 := by rw [sameHalf]
  have idle : outstanding waited.world.log (half i) = false := by
    rw [world, sameHalf, outstanding_wait, Function.update_self]
  have size : waited.halfSize (half i) = got job.env job.total (i - 2) := by
    rw [← sameHalf]
    exact flying.size
  have base : job.Base i (i - 2) waited := h.base.wait flying rfl world
  have arrived : ∀ b, b < got job.env job.total (i - 2) → waited.world.ve (half i) b =
      readStream job.env (parasSize * (i - 2) + b) := by
    rw [world, ← sameHalf]
    exact flying.arrived success
  have delivered : job.Base i (i - 2 + 1) (waited.deliver job.call.plan (half i)) :=
    base.deliver (by omega) (fun k klt => h.full k (by omega)) flying.pos size idle arrived
  have after : job.Clean i (i - 2) (s.wait job.env (half i)).2 := h.clean.wait success
  have clean : job.Clean i (i - 2) waited :=
    ⟨after.exit, after.errnoBak, after.dataErr, after.noFail, after.errno⟩
  rw [count] at delivered
  constructor
  · exact delivered
  · have counted := clean.deliver (j := half i) size
    rw [count] at counted
    exact counted
  · exact h.full
  · rfl
  · exact h.ofs lt
  · rfl
  · intro _
    have waiting : job.InFlight (i - 1) waited :=
      next.wait_other (by rw [sameHalf]; exact otherHalf) flying world rfl rfl
    exact waiting.frame rfl rfl rfl rfl (by rw [outstanding_deliver])
  · rw [outstanding_deliver]
    exact idle
  · omega

/-! ## The system call and the DMA of chunk `i` -/

variable (job) in
abbrev issued (i : Nat) (s : IoState Cursor) : IoState Cursor :=
  s.readSysCall job.env job.call (half i)

theorem Ready.size_issued {i : Nat} {s : IoState Cursor} (h : job.Ready i s) :
    (job.issued i s).halfSize (half i) = chunkRet job.env job.total i := by
  simp only [issued, IoState.readSysCall, Function.update_self, World.readChunk_fst,
    h.base.sysCount, h.transferSize, chunkRet]

theorem Ready.log_issued {i : Nat} {s : IoState Cursor} (h : job.Ready i s) :
    (job.issued i s).world.log = s.world.log ++ [.sysCall (job.chunkCall i)] := by
  simp only [issued, IoState.readSysCall, World.readChunk_log, h.base.sysCount, h.io,
    h.transferSize, h.ofs]
  rfl

theorem Ready.outstanding_issued {i : Nat} {s : IoState Cursor} (h : job.Ready i s) :
    outstanding (job.issued i s).world.log = outstanding s.world.log := by
  rw [h.log_issued, outstanding_snoc]
  rfl

theorem Ready.base_issued {i : Nat} {s : IoState Cursor} (h : job.Ready i s)
    (lt : i < chunkNum job.total) : job.Base (i + 1) (i - 1) (job.issued i s) where
  toCallLog := h.base.toCallLog.sysCall h.log_issued rfl lt h.full h.free rfl
  copied := by
    rw [h.log_issued, copiedBytes_snoc, h.base.copied, Int.add_zero]
  delivered := h.base.delivered

theorem Ready.noFail_issued {i : Nat} {s : IoState Cursor} (h : job.Ready i s) :
    dmaFailed (job.issued i s).world.log = false := by
  rw [h.log_issued, dmaFailed_snoc, h.clean.noFail]
  rfl

theorem Ready.inFlight_issued {i : Nat} {s : IoState Cursor} (h : job.Ready i s)
    (one : 1 ≤ i) : job.InFlight (i - 1) (job.issued i s) := by
  have other := half_pred_ne one
  refine InFlight.frame (h.inFlight one) rfl ?_ rfl ?_ ?_
  · exact Function.update_of_ne other _ _
  · exact Function.update_of_ne other _ _
  · rw [h.outstanding_issued]

/-- All chunks before `i` came in full, so the last errno is the one at entry. -/
theorem Ready.errno_entry {i : Nat} {s : IoState Cursor} (h : job.Ready i s)
    (lt : i < chunkNum job.total) : s.world.errno = job.errno := by
  rw [h.clean.errno]
  by_cases zero : i = 0
  · rw [errnoAfter, if_neg (by omega)]
  · apply errnoAfter_of_ne
    rw [chunkRet_of_full (by omega) (h.full (i - 1) (by omega))]
    omega

theorem Ready.began {i : Nat} {s : IoState Cursor} (h : job.Ready i s)
    (lt : i < chunkNum job.total) (ok : i = 0 → chunkRet job.env job.total 0 ≠ -1) :
    chunkRet job.env job.total 0 ≠ -1 := by
  by_cases zero : i = 0
  · exact ok zero
  · rw [chunkRet_of_full (by omega) (h.full 0 (by omega))]
    omega

theorem Ready.errno_issued {i : Nat} {s : IoState Cursor} (h : job.Ready i s)
    (lt : i < chunkNum job.total) :
    (job.issued i s).world.errno = (job.env.sys i).errno job.errno := by
  simp only [issued, IoState.readSysCall, World.readChunk_errno, h.base.sysCount,
    h.errno_entry lt]

theorem Ready.clean_issued {i : Nat} {s : IoState Cursor} (h : job.Ready i s)
    (lt : i < chunkNum job.total) (ok : chunkRet job.env job.total i ≠ -1) :
    job.Clean (i + 1) (i - 1) (job.issued i s) := by
  have answered : (job.env.sys i).errno job.errno = job.errno := by
    cases outcome : job.env.sys i with
    | fail e => simp [chunkRet, outcome, SysOutcome.ret] at ok
    | ok n data => rfl
  refine ⟨h.clean.exit, h.clean.errnoBak, h.clean.dataErr, h.noFail_issued, ?_⟩
  rw [h.errno_issued lt, answered, errnoAfter_of_ne ok]

theorem Ready.vacant_unpost {i : Nat} {s s' : IoState Cursor} (h : job.Ready i s)
    (log : outstanding s'.world.log = outstanding s.world.log) :
    Vacant (half i) (s'.unpost (half i)) := by
  refine ⟨IoState.unpost_self _ _, ?_⟩
  have same : (s'.unpost (half i)).world = s'.world := rfl
  rw [same, log]
  exact h.free

/-- The chunk system call moved nothing, and it is not the failure of the first chunk: the
chunks before it are left to the drain loop. -/
theorem Ready.exit_nothing {i : Nat} {s s' : IoState Cursor} (h : job.Ready i s)
    (lt : i < chunkNum job.total) (nothing : chunkRet job.env job.total i ≤ 0)
    (ok : i = 0 → chunkRet job.env job.total 0 ≠ -1)
    (base : job.Base (i + 1) (i - 1) s') (clean : job.Clean (i + 1) (i - 1) s')
    (log : outstanding s'.world.log = outstanding s.world.log)
    (flying : 1 ≤ i → job.InFlight (i - 1) s')
    (others : i = 0 → Vacant (half 1) s') : job.LoopExit (s'.unpost (half i)) := by
  have pos := chunkSize_pos lt
  refine .clean (i + 1) (i - 1) i (base.locals rfl rfl rfl rfl) ?_ (by omega) ?_ ?_ (by omega)
    (fun k klt => h.full k (by omega)) ?_ ?_
  · exact ⟨clean.exit, clean.errnoBak, clean.dataErr, clean.noFail, clean.errno⟩
  · refine ⟨h.began lt ok, .inr ?_⟩
    simp only [Nat.add_sub_cancel]
    omega
  · rw [gotSum_succ, got_eq_zero nothing, Nat.add_zero]
  · intro k ge klt
    have same : k = i - 1 := by omega
    subst same
    exact (flying (by omega)).frame (IoState.unpost_other _ (half_pred_ne (by omega)))
      rfl rfl rfl rfl
  · intro k ge klt
    by_cases same : k = i
    · subst same
      exact h.vacant_unpost log
    · have first : k = 1 ∧ i = 0 := by omega
      obtain ⟨rfl, rfl⟩ := first
      exact (others rfl).frame (IoState.unpost_other _ (half_succ_ne 0)) rfl

theorem Ready.exit_first {s : IoState Cursor} (h : job.Ready 0 s) (lt : 0 < chunkNum job.total)
    (failed : chunkRet job.env job.total 0 = -1) :
    job.LoopExit ((((job.issued 0 s).firstError true).clearErrno).unpost (half 0)) := by
  refine .first 1 0 ((h.base_issued lt).locals rfl rfl rfl rfl) ?_ ?_
  · refine ⟨rfl, rfl, failed, rfl, ?_, h.noFail_issued⟩
    exact h.errno_issued lt
  · intro j
    rcases half_cases 0 j with rfl | rfl
    · exact h.vacant_unpost h.outstanding_issued
    · exact (h.vacant rfl).frame (IoState.unpost_other _ (half_succ_ne 0))
        (congrFun h.outstanding_issued _)

/-! ## The DMA of chunk `i` -/

variable (job) in
abbrev dmaPosted (i : Nat) (s : IoState Cursor) : IoState Cursor :=
  ((job.issued i s).post job.env .vhToVe (half i) ((job.issued i s).halfSize (half i))).2

theorem Ready.base_dmaPosted {i : Nat} {s : IoState Cursor} (h : job.Ready i s)
    (lt : i < chunkNum job.total) : job.Base (i + 1) (i - 1) (job.dmaPosted i s) := by
  have le : chunkRet job.env job.total i ≤ parasSize := by
    have ret := chunkRet_le job.env job.total i
    have size := chunkSize_le job.total i
    omega
  refine Base.event (h.base_issued lt) (World.veDmaPost_log ..) rfl rfl rfl
    (fun _ => nofun) (fun _ _ _ => nofun) ?_
  rw [h.outstanding_issued, h.size_issued]
  exact ⟨h.free, getDmaSize_dvd _, le_getDmaSize _, getDmaSize_le le⟩

theorem dmaFailed_dmaPosted {i : Nat} {s : IoState Cursor} (h : job.Ready i s) :
    dmaFailed (job.dmaPosted i s).world.log =
      !job.env.postOk (job.issued i s).world.postCount := by
  simp only [dmaPosted, IoState.post, World.veDmaPost_log, dmaFailed_snoc, h.noFail_issued,
    IoEvent.dmaFails, Bool.false_or]

theorem outstanding_dmaPosted {i : Nat} {s : IoState Cursor} (h : job.Ready i s) :
    outstanding (job.dmaPosted i s).world.log =
      if job.env.postOk (job.issued i s).world.postCount then
        Function.update (outstanding s.world.log) (half i) true
      else outstanding s.world.log := by
  simp only [dmaPosted, IoState.post, World.veDmaPost_log, outstanding_snoc,
    h.outstanding_issued]
  cases job.env.postOk (job.issued i s).world.postCount <;> rfl

theorem Ready.inFlight_dmaPosted {i : Nat} {s : IoState Cursor} (h : job.Ready i s)
    (one : 1 ≤ i) : job.InFlight (i - 1) (job.dmaPosted i s) := by
  have other := half_pred_ne one
  refine InFlight.frame (h.inFlight_issued one) rfl rfl ?_ rfl ?_
  · simp only [dmaPosted, IoState.post, World.veDmaPost_dma]
    split
    · exact Function.update_of_ne other _ _
    · rfl
  · rw [outstanding_dmaPosted h, h.outstanding_issued]
    split
    · exact Function.update_of_ne other _ _
    · rfl

theorem Ready.exit_refused {i : Nat} {s : IoState Cursor} (h : job.Ready i s)
    (lt : i < chunkNum job.total)
    (refused : job.env.postOk (job.issued i s).world.postCount = false) :
    job.LoopExit ((job.dmaPosted i s).skipOfs.dmaError.unpost (half i)) := by
  have log : outstanding (job.dmaPosted i s).world.log = outstanding s.world.log := by
    rw [outstanding_dmaPosted h, refused]
    rfl
  refine .aborted (i + 1) (i - 1) ((h.base_dmaPosted lt).locals rfl rfl rfl rfl)
    ⟨rfl, rfl, rfl, ?_, _, .inl refused⟩ (by omega) ?_
  · exact (dmaFailed_dmaPosted h).trans (by rw [refused]; rfl)
  · intro j
    rcases half_cases i j with rfl | rfl
    · exact .inl (h.vacant_unpost log)
    · by_cases zero : i = 0
      · subst zero
        exact .inl ((h.vacant rfl).frame (IoState.unpost_other _ (half_succ_ne 0))
          (congrFun log _))
      · refine .inr ⟨i - 1, half_succ_eq_pred (by omega), ?_⟩
        exact (h.inFlight_dmaPosted (by omega)).frame
          (IoState.unpost_other _ (half_pred_ne (by omega))) rfl rfl rfl rfl

variable (job) in
abbrev recorded (i : Nat) (s : IoState Cursor) : IoState Cursor :=
  (job.dmaPosted i s).recordRead i

theorem Ready.inFlight_recorded {i : Nat} {s : IoState Cursor} (h : job.Ready i s)
    (pos : 0 < got job.env job.total i)
    (ret : (got job.env job.total i : Int) = chunkRet job.env job.total i)
    (accepted : job.env.postOk (job.issued i s).world.postCount = true) :
    job.InFlight i (job.recorded i s) where
  posted := Function.update_self _ _ _
  size := h.size_issued.trans ret.symm
  dma := by
    simp only [IoState.recordRead, dmaPosted, IoState.post, World.veDmaPost_dma, accepted,
      if_true, Function.update_self, h.size_issued, ret]
  data := by
    intro b lt
    have inside : b < chunkSize job.total i := lt_of_lt_of_le lt (got_le _ _ _)
    have small := chunkSize_le job.total i
    have stored := overlay_inside (s.world.vh (half i)) 0 (job.env.sys i).data lt
    have buffer : (job.recorded i s).world.vh (half i) =
        overlay (s.world.vh (half i)) 0 (job.env.sys i).data (got job.env job.total i) := by
      simp only [IoState.recordRead, dmaPosted, issued, IoState.post, World.veDmaPost_vh,
        IoState.readSysCall, World.readChunk, Function.update_self, h.base.sysCount,
        h.transferSize]
      rfl
    rw [buffer, readStream_chunk _ _ (by omega)]
    rwa [Nat.zero_add] at stored
  busy := by
    have log := outstanding_dmaPosted h
    rw [accepted, if_pos rfl] at log
    exact (congrFun log _).trans (Function.update_self _ _ _)
  pos := pos

theorem Ready.clean_dmaPosted {i : Nat} {s : IoState Cursor} (h : job.Ready i s)
    (lt : i < chunkNum job.total) (ok : chunkRet job.env job.total i ≠ -1)
    (accepted : job.env.postOk (job.issued i s).world.postCount = true) :
    job.Clean (i + 1) (i - 1) (job.dmaPosted i s) := by
  have clean := h.clean_issued lt ok
  refine ⟨clean.exit, clean.errnoBak, clean.dataErr, ?_, clean.errno⟩
  rw [dmaFailed_dmaPosted h, accepted]
  rfl

theorem Ready.inFlight_recorded_pred {i : Nat} {s : IoState Cursor} (h : job.Ready i s)
    (one : 1 ≤ i) : job.InFlight (i - 1) (job.recorded i s) :=
  InFlight.frame (h.inFlight_dmaPosted one)
    (Function.update_of_ne (half_pred_ne one) _ _) rfl rfl rfl rfl

theorem Ready.vacant_recorded {s : IoState Cursor} (h : job.Ready 0 s) :
    Vacant (half 1) (job.recorded 0 s) := by
  refine Vacant.frame (h.vacant rfl) ?_ ?_
  · exact Function.update_of_ne (half_succ_ne 0) (some 0) s.posted
  · show outstanding (job.dmaPosted 0 s).world.log (half 1) = _
    rw [outstanding_dmaPosted h]
    split
    · exact Function.update_of_ne (half_succ_ne 0) _ _
    · rfl

/-- A short chunk is the last one: it and its predecessor are left to the drain loop. -/
theorem Ready.exit_short {i : Nat} {s : IoState Cursor} (h : job.Ready i s)
    (lt : i < chunkNum job.total) (ok : chunkRet job.env job.total i ≠ -1)
    (ok0 : chunkRet job.env job.total i ≠ 0)
    (short : chunkRet job.env job.total i < chunkSize job.total i)
    (accepted : job.env.postOk (job.issued i s).world.postCount = true) :
    job.LoopExit (job.recorded i s) := by
  obtain ⟨pos, ret⟩ := got_of_ret_pos ok ok0
  have clean := h.clean_dmaPosted lt ok accepted
  refine .clean (i + 1) (i - 1) (i + 1) ((h.base_dmaPosted lt).locals rfl rfl rfl rfl)
    ⟨clean.exit, clean.errnoBak, clean.dataErr, clean.noFail, clean.errno⟩ (by omega)
    ⟨h.began lt (by rintro rfl; exact ok), .inr ⟨by omega, short⟩⟩ rfl (by omega)
      (fun k klt => h.full k (by omega)) ?_ ?_
  · intro k ge klt
    by_cases same : k = i
    · subst same
      exact h.inFlight_recorded pos ret accepted
    · have pred : k = i - 1 := by omega
      subst pred
      exact h.inFlight_recorded_pred (by omega)
  · intro k ge klt
    have first : k = 1 ∧ i = 0 := by omega
    obtain ⟨rfl, rfl⟩ := first
    exact h.vacant_recorded

theorem Ready.next {i : Nat} {s : IoState Cursor} (h : job.Ready i s)
    (lt : i < chunkNum job.total) (whole : chunkRet job.env job.total i = chunkSize job.total i)
    (accepted : job.env.postOk (job.issued i s).world.postCount = true) :
    job.Head (i + 1) (job.recorded i s) := by
  have size := chunkSize_pos lt
  have answered : chunkRet job.env job.total i ≠ -1 := by omega
  obtain ⟨pos, ret⟩ := got_of_ret_pos answered (by omega)
  have delivered : i + 1 - 2 = i - 1 := by omega
  have clean := h.clean_dmaPosted lt (by omega) accepted
  constructor
  · rw [delivered]
    exact (h.base_dmaPosted lt).locals rfl rfl rfl rfl
  · rw [delivered]
    exact ⟨clean.exit, clean.errnoBak, clean.dataErr, clean.noFail, clean.errno⟩
  · intro k klt
    by_cases same : k = i
    · subst same
      omega
    · exact h.full k (by omega)
  · exact h.io
  · intro more
    have read : (job.issued i s).halfSize (half i) = chunkRet job.env job.total i :=
      h.size_issued
    show int64 (s.ofs + (job.issued i s).halfSize (half i)) = _
    rw [read, whole, h.ofs, int64_add_int64, chunkSize_eq_parasSize more]
    congr 1
    simp only [Nat.cast_add, Nat.cast_one]
    ring
  · intro more
    show s.transferSize = parasSize
    rw [h.transferSize, chunkSize_eq_parasSize more]
  · intro k klt ge
    by_cases same : k = i
    · subst same
      exact h.inFlight_recorded pos ret accepted
    · have pred : k = i - 1 := by omega
      subst pred
      exact h.inFlight_recorded_pred (by omega)
  · intro k ge klt
    have first : k = 1 ∧ i = 0 := by omega
    obtain ⟨rfl, rfl⟩ := first
    exact h.vacant_recorded

/-! ## The loop -/

theorem Ready.exit_hidden {i : Nat} {s : IoState Cursor} (h : job.Ready i s)
    (lt : i < chunkNum job.total) (later : i ≠ 0) (failed : chunkRet job.env job.total i = -1) :
    job.LoopExit ((((job.issued i s).firstError (i = 0)).clearErrno).unpost (half i)) := by
  have hidden : (job.issued i s).firstError (i = 0) = job.issued i s := by
    simp [IoState.firstError, later]
  rw [hidden]
  refine h.exit_nothing lt (by omega) (by omega) ((h.base_issued lt).locals rfl rfl rfl rfl)
    ⟨h.clean.exit, h.clean.errnoBak, h.clean.dataErr, h.noFail_issued, ?_⟩
    h.outstanding_issued
    (fun one => (h.inFlight_issued one).frame rfl rfl rfl rfl rfl) (by omega)
  rw [errnoAfter, if_pos ⟨by omega, failed⟩]
  rfl

theorem Ready.readIssue {i : Nat} {s : IoState Cursor} (h : job.Ready i s)
    (lt : i < chunkNum job.total) :
    (readIssue job.env job.call i s).Sat (job.Head (i + 1)) job.LoopExit := by
  have size := h.size_issued
  have asked : (job.issued i s).transferSize = chunkSize job.total i := h.transferSize
  have le := chunkRet_le job.env job.total i
  apply readIssue_rule (show job.issued i s = _ from rfl) (show job.dmaPosted i s = _ from rfl)
  all_goals rw [size]
  · intro failed
    by_cases first : i = 0
    · subst first
      exact h.exit_first lt failed
    · exact h.exit_hidden lt first failed
  · intro nothing
    have ok : chunkRet job.env job.total i ≠ -1 := by omega
    refine h.exit_nothing lt (by omega) (by rintro rfl; exact ok) (h.base_issued lt)
      (h.clean_issued lt ok) h.outstanding_issued h.inFlight_issued ?_
    rintro rfl
    exact (h.vacant rfl).frame rfl (congrFun h.outstanding_issued _)
  · intro _ _ refused
    exact h.exit_refused lt refused
  · intro ok ok0 accepted short
    rw [asked] at short
    exact h.exit_short lt ok ok0 short accepted
  · intro ok accepted whole
    rw [asked] at whole
    exact h.next lt (by omega) accepted

theorem Head.exit_wait {i : Nat} {s : IoState Cursor} (h : job.Head i s)
    (lt : i < chunkNum job.total) (two : 2 ≤ i)
    (failed : job.env.waitCode s.world.waitCount ≥ 1) :
    job.LoopExit ((((s.prepare job.env job.call i).wait job.env (half i)).2).dmaError.unpost
      (half i)) := by
  rw [prepare_eq job.sized lt h.io (h.transferSize lt)]
  have sameHalf : half (i - 2) = half i := half_sub_two two
  have flying := h.inFlight (i - 2) (by omega) (by omega)
  let prepared : IoState Cursor :=
    { s with io := job.io.atChunk job.env i, transferSize := (chunkSize job.total i : Nat) }
  let waited : IoState Cursor := (prepared.wait job.env (half i)).2
  have world : waited.world = (s.world.veDmaWait job.env (half (i - 2))).2 := by
    rw [sameHalf]
    rfl
  have stopped : job.Aborted waited.dmaError := aborted_of_wait failed
  refine .aborted i (i - 2) ?_ ⟨rfl, rfl, rfl, stopped.failed, stopped.cause⟩ (by omega) ?_
  · have base : job.Base i (i - 2) waited := h.base.wait flying rfl world
    exact base.locals rfl rfl rfl rfl
  · intro j
    rcases half_cases i j with rfl | rfl
    · refine .inl ⟨IoState.unpost_self _ _, ?_⟩
      show outstanding waited.world.log (half i) = false
      rw [world, sameHalf, outstanding_wait, Function.update_self]
    · refine .inr ⟨i - 1, half_succ_eq_pred (by omega), ?_⟩
      have next := h.inFlight (i - 1) (by omega) (by omega)
      have kept : job.InFlight (i - 1) waited :=
        next.wait_other (by rw [sameHalf]; exact half_pred_ne (by omega)) flying world rfl rfl
      exact kept.frame (IoState.unpost_other _ (half_pred_ne (by omega))) rfl rfl rfl rfl

theorem Head.readBody {i : Nat} {s : IoState Cursor} (lt : i < chunkNum job.total)
    (h : job.Head i s) :
    (readBody job.env job.call i s).Sat (job.Head (i + 1)) job.LoopExit := by
  have world := IoState.prepare_world job.env job.call i s
  apply readBody_rule rfl rfl
  · intro early
    exact (h.ready_first lt (by simpa [buffNparas] using early)).readIssue lt
  · intro two failed
    rw [world] at failed
    exact h.exit_wait lt two failed
  · intro two success
    rw [world] at success
    have ready := h.ready_deliver lt two success
    rw [← world] at ready
    exact ready.readIssue lt

theorem Head.exit {s : IoState Cursor} (h : job.Head (chunkNum job.total) s)
    (pos : 0 < job.total) : job.LoopExit s := by
  have some_chunk := chunkNum_pos pos
  have began : chunkRet job.env job.total 0 ≠ -1 := by
    rw [chunkRet_of_full some_chunk (h.full 0 some_chunk)]
    omega
  exact .clean (chunkNum job.total) (chunkNum job.total - 2) (chunkNum job.total) h.base h.clean
    (by omega) ⟨began, .inl rfl⟩ rfl (by omega) (fun k klt => h.full k (by omega))
    (fun k ge klt => h.inFlight k klt (by omega))
    (fun k ge klt => h.vacant k ge (by omega))

theorem head_start (w : World) (cursor : Cursor) (fresh : w.Fresh)
    (errno : w.errno = job.errno) (ofs : Int)
    (sameOfs : int64 ofs = int64 job.ofs)
    (delivered : job.Delivered 0 cursor w.user) :
    job.Head 0 (.start w job.io cursor ofs) := by
  have callLog : CallLog job.env job.total job.chunkCall 0 w := CallLog.start fresh
  have log : w.log = [] := fresh.2.1
  constructor
  · refine ⟨callLog, ?_, delivered⟩
    simp [IoState.start, log, copiedBytes]
  · refine ⟨rfl, rfl, rfl, ?_, ?_⟩
    · simp [IoState.start, log, dmaFailed]
    · simp [IoState.start, errno, errnoAfter]
  · intro k klt
    omega
  · rfl
  · intro _
    simpa [IoState.start] using sameOfs
  · intro _
    rfl
  · intro k klt
    omega
  · intro k _ _
    exact vacant_start fresh job.io cursor ofs (half k)

end Libsysve.AccIo.ReadJob
