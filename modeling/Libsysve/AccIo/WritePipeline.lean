import Libsysve.AccIo.Bodies
import Libsysve.AccIo.WriteInvariant

/-!
# The write pipeline keeps its invariant

A chunk that has `Landed` in its VH half is handed to its system call, in the loop and in the
drain loop alike; `writeIssue` fills a free half and posts its DMA.
-/

set_option autoImplicit false

namespace Libsysve.AccIo.WriteJob

open Libsysve.ByteMemory Libsysve.ForLoop

variable {Cursor : Type} {job : WriteJob Cursor}

/-! ## The system call of a chunk -/

variable (job) in
/-- Chunk `n` is in its VH half and its system call is the next one. -/
structure Landed (n : Nat) (s : IoState Cursor) : Prop where
  lt : n < chunkNum job.total
  base : job.Base n s
  going : job.Going n s
  io : s.io = job.lastInfo
  data : readRange (s.world.vh (half n)) 0 (chunkSize job.total n) =
    readRange job.stream (parasSize * n) (chunkSize job.total n)
  idle : outstanding s.world.log (half n) = false

variable (job) in
abbrev called (n : Nat) (s : IoState Cursor) : IoState Cursor :=
  (s.writeSysCall job.env job.call (half n) (chunkSize job.total n)).2

theorem Landed.ret {n : Nat} {s : IoState Cursor} (h : job.Landed n s) :
    (s.writeSysCall job.env job.call (half n) (chunkSize job.total n)).1 =
      chunkRet job.env job.total n := by
  simp only [IoState.writeSysCall, World.writeChunk_fst, h.base.sysCount, chunkRet]

theorem Landed.log_called {n : Nat} {s : IoState Cursor} (h : job.Landed n s) :
    (job.called n s).world.log = s.world.log ++ [.sysCall (job.chunkCall n)] := by
  simp only [called, IoState.writeSysCall, World.writeChunk_log, Int.toNat_natCast, h.data,
    h.base.sysCount, h.io, h.going.ofs h.lt]
  rfl

theorem Landed.outstanding_called {n : Nat} {s : IoState Cursor} (h : job.Landed n s) :
    outstanding (job.called n s).world.log = outstanding s.world.log := by
  rw [h.log_called, outstanding_snoc]
  rfl

theorem Landed.base_called {n : Nat} {s : IoState Cursor} (h : job.Landed n s) :
    job.Base (n + 1) (job.called n s) where
  toCallLog := h.base.toCallLog.sysCall h.log_called rfl h.lt h.going.full h.idle rfl
  user := h.base.user

theorem Landed.noFail_called {n : Nat} {s : IoState Cursor} (h : job.Landed n s) :
    dmaFailed (job.called n s).world.log = false := by
  rw [h.log_called, dmaFailed_snoc, h.going.noFail]
  rfl

theorem Landed.errno_called {n : Nat} {s : IoState Cursor} (h : job.Landed n s) :
    (job.called n s).world.errno = (job.env.sys n).errno job.errno := by
  simp only [called, IoState.writeSysCall, World.writeChunk_errno, h.base.sysCount, h.going.errno]

theorem Landed.errno_ok {n : Nat} {s : IoState Cursor} (h : job.Landed n s)
    (ok : chunkRet job.env job.total n ≠ -1) : (job.called n s).world.errno = job.errno := by
  rw [h.errno_called]
  cases outcome : job.env.sys n with
  | fail e => simp [chunkRet, outcome, SysOutcome.ret] at ok
  | ok n data => rfl

theorem Landed.began {n : Nat} {s : IoState Cursor} (h : job.Landed n s)
    (ok : n = 0 → chunkRet job.env job.total 0 ≠ -1) : chunkRet job.env job.total 0 ≠ -1 := by
  by_cases zero : n = 0
  · exact ok zero
  · have lt := h.lt
    rw [chunkRet_of_full (by omega) (h.going.full 0 (by omega))]
    omega

theorem Landed.failed {n : Nat} {s : IoState Cursor} (h : job.Landed n s)
    (failed : chunkRet job.env job.total n = -1) :
    job.Ended (n + 1) (((job.called n s).firstError (n = 0)).clearErrno.setDataErr) := by
  have pos := chunkSize_pos h.lt
  by_cases zero : n = 0
  · subst zero
    refine .first ⟨rfl, failed, rfl, ?_, rfl, h.noFail_called⟩
    exact h.errno_called
  · -- a later failure is hidden: errno is cleared
    have hidden : (job.called n s).firstError (n = 0) = job.called n s := by
      simp [IoState.firstError, zero]
    rw [hidden]
    refine .stopped ⟨by omega, h.began (by omega), ?_, ?_, h.going.errnoBak, rfl,
      h.noFail_called, ?_⟩
    · rw [Nat.add_sub_cancel, failed]
      omega
    · rw [gotSum_succ, got_eq_zero (by omega), Nat.add_zero]
      exact h.going.exit
    · rw [errnoAfter, Nat.add_sub_cancel, if_pos ⟨by omega, failed⟩]
      rfl

theorem world_failed (n : Nat) (s : IoState Cursor) :
    (((job.called n s).firstError (n = 0)).clearErrno.setDataErr).world =
      { (job.called n s).world with errno := 0 } := by
  rw [IoState.setDataErr, IoState.clearErrno, IoState.firstError_world]

theorem Landed.base_failed {n : Nat} {s : IoState Cursor} (h : job.Landed n s) :
    job.Base (n + 1) (((job.called n s).firstError (n = 0)).clearErrno.setDataErr) := by
  apply h.base_called.locals <;> rw [world_failed]

theorem Landed.nothing {n : Nat} {s : IoState Cursor} (h : job.Landed n s)
    (nothing : chunkRet job.env job.total n = 0) :
    job.Ended (n + 1) (job.called n s).setDataErr := by
  have pos := chunkSize_pos h.lt
  have began := h.began (by rintro rfl; omega)
  refine .stopped ⟨by omega, began, ?_, ?_, h.going.errnoBak, rfl, h.noFail_called, ?_⟩
  · rw [Nat.add_sub_cancel, nothing]
    omega
  · rw [gotSum_succ, got_eq_zero (by omega), Nat.add_zero]
    exact h.going.exit
  · rw [errnoAfter_of_ne (by rw [Nat.add_sub_cancel]; omega)]
    exact h.errno_ok (by omega)

theorem Landed.exit_accept {n : Nat} {s : IoState Cursor} (h : job.Landed n s)
    (pos : 0 ≤ chunkRet job.env job.total n) :
    ((job.called n s).accept (chunkRet job.env job.total n)).exitResult =
      gotSum job.env job.total (n + 1) := by
  show s.exitResult + chunkRet job.env job.total n = _
  rw [h.going.exit, gotSum_succ, got]
  omega

theorem Landed.short {n : Nat} {s : IoState Cursor} (h : job.Landed n s)
    (ok : chunkRet job.env job.total n ≠ -1)
    (short : chunkRet job.env job.total n < chunkSize job.total n) :
    job.Ended (n + 1)
      ((job.called n s).accept (chunkRet job.env job.total n)).setDataErr := by
  have ge := chunkRet_ge job.env job.total n
  refine .stopped ⟨by omega, h.began (by rintro rfl; exact ok), ?_, h.exit_accept (by omega),
    h.going.errnoBak, rfl, h.noFail_called, ?_⟩
  · rw [Nat.add_sub_cancel]
    exact short
  · rw [errnoAfter_of_ne (by rw [Nat.add_sub_cancel]; exact ok)]
    exact h.errno_ok ok

theorem Landed.whole {n : Nat} {s : IoState Cursor} (h : job.Landed n s)
    (whole : chunkRet job.env job.total n = chunkSize job.total n) :
    job.Going (n + 1) ((job.called n s).accept (chunkRet job.env job.total n)) where
  exit := h.exit_accept (by omega)
  errnoBak := h.going.errnoBak
  dataErr := h.going.dataErr
  noFail := h.noFail_called
  errno := h.errno_ok (by omega)
  ofs := by
    intro more
    show int64 (s.ofs + chunkRet job.env job.total n) = _
    rw [whole, h.going.ofs h.lt, int64_add_int64, chunkSize_eq_parasSize more]
    congr 1
    simp only [Nat.cast_add, Nat.cast_one]
    ring
  full := by
    intro k klt
    by_cases same : k = n
    · subst same
      simp only [got, whole, Int.toNat_natCast]
    · exact h.going.full k (by omega)

/-! ## Filling a half and posting its DMA -/

variable (job) in
abbrev filled (i : Nat) (s : IoState Cursor) : IoState Cursor :=
  (s.fill job.call.plan (half i)).2

variable (job) in
abbrev dmaPosted (i : Nat) (s : IoState Cursor) : IoState Cursor :=
  ((job.filled i s).post job.env .veToVh (half i) s.transferSize).2

variable (job) in
abbrev recorded (i : Nat) (s : IoState Cursor) : IoState Cursor :=
  (job.dmaPosted i s).recordWrite i s.transferSize

section Issue

variable {i : Nat} {s : IoState Cursor}

theorem Ready.fits (lt : i < chunkNum job.total) :
    0 < chunkSize job.total i ∧ parasSize * i + chunkSize job.total i ≤ job.total :=
  ⟨chunkSize_pos lt, chunk_end_le lt⟩

theorem Ready.log_filled (h : job.Ready i s) : (job.filled i s).world.log = s.world.log ++
    [.copy (half i) (chunkSize job.total i)
      (job.call.plan s.cursor (chunkSize job.total i)).2.1] := by
  simp only [filled, IoState.fill, World.copyIn, h.transferSize]

theorem Ready.outstanding_filled (h : job.Ready i s) :
    outstanding (job.filled i s).world.log = outstanding s.world.log := by
  rw [h.log_filled, outstanding_snoc]
  rfl

theorem Ready.base_filled (h : job.Ready i s) (lt : i < chunkNum job.total) :
    job.Base (i - 1) (job.filled i s) where
  toCallLog := by
    obtain ⟨pos, fits⟩ := Ready.fits lt
    have requests := job.cover.requests h.cursor pos fits (chunkSize_le _ _)
    exact h.base.toCallLog.event h.log_filled rfl (fun _ => nofun) ⟨h.free, requests⟩
  user := h.base.user

theorem Ready.log_dmaPosted (h : job.Ready i s) :
    (job.dmaPosted i s).world.log = (job.filled i s).world.log ++
      [.dmaPost (half i) (s.io.dmaDst .veToVh (half i)) (s.io.dmaSrc .veToVh (half i))
        (chunkSize job.total i) (getDmaSize (chunkSize job.total i))
        (job.env.postOk (job.filled i s).world.postCount)] := by
  simp only [dmaPosted, IoState.post, World.veDmaPost_log, h.transferSize]
  rfl

theorem Ready.base_dmaPosted (h : job.Ready i s) (lt : i < chunkNum job.total) :
    job.Base (i - 1) (job.dmaPosted i s) where
  toCallLog := by
    have le : (chunkSize job.total i : Int) ≤ parasSize := by
      have size := chunkSize_le job.total i
      omega
    refine (h.base_filled lt).toCallLog.event h.log_dmaPosted rfl (fun _ => nofun)
      ?_
    rw [h.outstanding_filled]
    exact ⟨h.free, getDmaSize_dvd _, le_getDmaSize _, getDmaSize_le le⟩
  user := h.base.user

theorem Ready.dmaFailed_dmaPosted (h : job.Ready i s) :
    dmaFailed (job.dmaPosted i s).world.log =
      !job.env.postOk (job.filled i s).world.postCount := by
  rw [h.log_dmaPosted, dmaFailed_snoc, h.log_filled, dmaFailed_snoc, h.going.noFail]
  simp [IoEvent.dmaFails]

theorem Ready.outstanding_dmaPosted (h : job.Ready i s) :
    outstanding (job.dmaPosted i s).world.log =
      if job.env.postOk (job.filled i s).world.postCount then
        Function.update (outstanding s.world.log) (half i) true
      else outstanding s.world.log := by
  rw [h.log_dmaPosted, outstanding_snoc, h.outstanding_filled]
  cases job.env.postOk (job.filled i s).world.postCount <;> rfl

theorem Ready.inFlight_dmaPosted (h : job.Ready i s) (one : 1 ≤ i) :
    job.InFlight (i - 1) (job.dmaPosted i s) := by
  have other := half_pred_ne one
  refine InFlight.frame (h.inFlight one) rfl rfl ?_ ?_ ?_
  · simp only [dmaPosted, IoState.post, World.veDmaPost_dma]
    split
    · exact Function.update_of_ne other _ _
    · rfl
  · exact Function.update_of_ne other _ _
  · rw [h.outstanding_dmaPosted]
    split
    · exact Function.update_of_ne other _ _
    · rfl

theorem Ready.vacant_dmaPosted (h : job.Ready i s) (zero : i = 0) :
    Vacant (half 1) (job.dmaPosted i s) := by
  subst zero
  refine Vacant.frame (h.vacant rfl) rfl ?_
  rw [h.outstanding_dmaPosted]
  split
  · exact Function.update_of_ne (half_succ_ne 0) _ _
  · rfl

theorem Ready.slot_other (h : job.Ready i s) : job.Slot (half (i + 1)) (job.dmaPosted i s) := by
  by_cases zero : i = 0
  · have vacant := h.vacant_dmaPosted zero
    subst zero
    exact .inl vacant
  · exact .inr ⟨i - 1, half_succ_eq_pred (by omega), h.inFlight_dmaPosted (by omega)⟩

theorem Slot.unpost_other {j k : Half} (h : job.Slot j s) (other : j ≠ k) :
    job.Slot j (s.unpost k) := by
  rcases h with vacant | ⟨n, rfl, flying⟩
  · exact .inl (vacant.frame (IoState.unpost_other _ other) rfl)
  · exact .inr ⟨n, rfl, flying.frame (IoState.unpost_other _ other) rfl rfl rfl rfl⟩

theorem Slot.dmaError {j : Half} (h : job.Slot j s) : job.Slot j s.dmaError := by
  rcases h with vacant | ⟨n, rfl, flying⟩
  · exact .inl (vacant.frame rfl rfl)
  · exact .inr ⟨n, rfl, flying.frame rfl rfl rfl rfl rfl⟩

theorem Ready.exit_refused (h : job.Ready i s) (lt : i < chunkNum job.total)
    (refused : job.env.postOk (job.filled i s).world.postCount = false) :
    job.LoopExit ((job.dmaPosted i s).dmaError.unpost (half i)) := by
  have log : outstanding (job.dmaPosted i s).world.log = outstanding s.world.log := by
    rw [h.outstanding_dmaPosted, refused]
    rfl
  refine .ended (i - 1) ((h.base_dmaPosted lt).locals rfl rfl rfl)
    (.aborted ⟨rfl, rfl, rfl, ?_, _, .inl refused⟩) ?_
  · exact h.dmaFailed_dmaPosted.trans (by rw [refused]; rfl)
  · intro j
    rcases half_cases i j with rfl | rfl
    · exact .inl ⟨IoState.unpost_self _ _, (congrFun log _).trans h.free⟩
    · exact h.slot_other.dmaError.unpost_other (half_succ_ne i)

theorem Ready.inFlight_recorded (h : job.Ready i s) (lt : i < chunkNum job.total)
    (accepted : job.env.postOk (job.filled i s).world.postCount = true) :
    job.InFlight i (job.recorded i s) where
  lt := lt
  posted := Function.update_self _ _ _
  size := (Function.update_self _ _ _).trans h.transferSize
  dma := by
    simp only [IoState.recordWrite, dmaPosted, IoState.post, World.veDmaPost_dma, accepted,
      if_true, Function.update_self, h.transferSize]
  data := by
    intro b blt
    obtain ⟨pos, fits⟩ := Ready.fits lt
    have stored := job.cover.copyIn h.cursor pos fits job.user (s.world.ve (half i)) blt
    rw [stream, ← stored, ← h.base.user, ← h.transferSize]
    exact congrFun (Function.update_self _ _ _) b
  busy := by
    have log := h.outstanding_dmaPosted
    rw [accepted, if_pos rfl] at log
    exact (congrFun log _).trans (Function.update_self _ _ _)

theorem Ready.next (h : job.Ready i s) (lt : i < chunkNum job.total)
    (accepted : job.env.postOk (job.filled i s).world.postCount = true) :
    job.Head (i + 1) (job.recorded i s) := by
  obtain ⟨pos, fits⟩ := Ready.fits lt
  have count : i + 1 - 2 = i - 1 := by omega
  constructor
  · rw [count]
    exact (h.base_dmaPosted lt).locals rfl rfl rfl
  · rw [count]
    refine ⟨h.going.exit, h.going.errnoBak, h.going.dataErr, ?_, h.going.errno, h.going.ofs,
      h.going.full⟩
    exact h.dmaFailed_dmaPosted.trans (by rw [accepted]; rfl)
  · exact h.io
  · intro more
    show s.transferSize = parasSize
    rw [h.transferSize, chunkSize_eq_parasSize more]
  · intro more
    have behind := (job.cover.next h.cursor pos fits).1
    rw [← h.transferSize, chunkSize_eq_parasSize more] at behind
    rw [Nat.mul_add, Nat.mul_one]
    exact behind
  · intro k klt ge
    by_cases same : k = i
    · subst same
      exact h.inFlight_recorded lt accepted
    · have pred : k = i - 1 := by omega
      subst pred
      have other := half_pred_ne (show 1 ≤ i by omega)
      exact InFlight.frame (h.inFlight_dmaPosted (by omega)) (Function.update_of_ne other _ _)
        (Function.update_of_ne other _ _) rfl rfl rfl
  · intro k ge klt
    have first : k = 1 ∧ i = 0 := by omega
    obtain ⟨rfl, rfl⟩ := first
    exact Vacant.frame (h.vacant_dmaPosted rfl)
      (Function.update_of_ne (half_succ_ne 0) (some 0) s.posted) rfl

theorem Ready.writeIssue (h : job.Ready i s) (lt : i < chunkNum job.total) :
    (writeIssue job.env job.call i s).Sat (job.Head (i + 1)) job.LoopExit := by
  obtain ⟨pos, fits⟩ := Ready.fits lt
  have nothingLeft : (s.fill job.call.plan (half i)).1 = 0 := by
    have left := (job.cover.next h.cursor pos fits).2
    rwa [← h.transferSize] at left
  apply writeIssue_rule (show job.filled i s = _ from rfl) (show job.dmaPosted i s = _ from rfl)
  · intro refused
    exact h.exit_refused lt refused
  · intro accepted
    rw [nothingLeft, Int.sub_zero]
    exact h.next lt accepted

end Issue

/-! ## The loop -/

section Loop

variable {i : Nat} {s : IoState Cursor}

theorem Head.ready_first (h : job.Head i s) (lt : i < chunkNum job.total) (early : i < 2) :
    job.Ready i (s.prepare job.env job.call i) := by
  rw [prepare_eq job.sized lt h.io (h.transferSize lt)]
  have count : i - 2 = i - 1 := by omega
  have going := h.going
  constructor
  · rw [← count]
    exact h.base.locals rfl rfl rfl
  · rw [← count]
    exact ⟨going.exit, going.errnoBak, going.dataErr, going.noFail, going.errno, going.ofs,
      going.full⟩
  · rfl
  · rfl
  · exact h.cursor lt
  · intro one
    exact (h.inFlight (i - 1) (by omega) (by omega)).frame rfl rfl rfl rfl rfl
  · exact (h.vacant i (le_refl i) early).idle
  · intro zero
    exact (h.vacant 1 (by omega) (by omega)).frame rfl rfl

variable (job) in
abbrev waited (i : Nat) (s : IoState Cursor) : IoState Cursor :=
  ((s.prepare job.env job.call i).wait job.env (half i)).2

theorem Head.waited_eq (h : job.Head i s) (lt : i < chunkNum job.total) :
    job.waited i s = { s with
      io := job.io.atChunk job.env i
      transferSize := (chunkSize job.total i : Nat)
      world := (s.world.veDmaWait job.env (half i)).2 } := by
  rw [waited, prepare_eq job.sized lt h.io (h.transferSize lt)]
  rfl

theorem Head.chunk_waited (h : job.Head i s) (lt : i < chunkNum job.total) (two : 2 ≤ i) :
    job.InFlight (i - 2) s ∧
      (job.waited i s).world = (s.world.veDmaWait job.env (half (i - 2))).2 := by
  refine ⟨h.inFlight (i - 2) (by omega) (by omega), ?_⟩
  rw [h.waited_eq lt, half_sub_two two]

theorem Head.idle_waited (h : job.Head i s) (lt : i < chunkNum job.total) :
    outstanding (job.waited i s).world.log (half i) = false := by
  rw [h.waited_eq lt]
  simp only [outstanding_wait, Function.update_self]

theorem Head.next_waited (h : job.Head i s) (lt : i < chunkNum job.total) (two : 2 ≤ i) :
    job.InFlight (i - 1) (job.waited i s) := by
  obtain ⟨flying, world⟩ := h.chunk_waited lt two
  have next := h.inFlight (i - 1) (by omega) (by omega)
  have other : half (i - 1) ≠ half (i - 2) := by
    rw [half_sub_two two]
    exact half_pred_ne (by omega)
  apply next.wait_other other flying world
  · rw [h.waited_eq lt]
  · rw [h.waited_eq lt]

theorem Head.landed (h : job.Head i s) (lt : i < chunkNum job.total) (two : 2 ≤ i)
    (success : job.env.waitCode s.world.waitCount = 0) :
    job.Landed (i - 2) (job.waited i s) := by
  obtain ⟨flying, world⟩ := h.chunk_waited lt two
  have going := h.going
  constructor
  · omega
  · exact h.base.wait flying world
  · have waited : job.Going (i - 2) (s.wait job.env (half (i - 2))).2 := going.wait success
    rw [half_sub_two two] at waited
    rw [h.waited_eq lt]
    exact ⟨waited.exit, waited.errnoBak, waited.dataErr, waited.noFail, waited.errno,
      waited.ofs, waited.full⟩
  · rw [h.waited_eq lt, lastInfo, AccIoInfo.atChunk, AccIoInfo.atChunk, if_neg (by omega),
      if_neg (by omega)]
  · rw [world]
    exact flying.arrived success
  · rw [half_sub_two two]
    exact h.idle_waited lt

/-- Every break of the loop after the wait: the other chunk is left to the drain loop. -/
theorem Head.exit_over {x : IoState Cursor} {n : Nat} (h : job.Head i s)
    (lt : i < chunkNum job.total) (two : 2 ≤ i) (base : job.Base n x) (stopped : job.Ended n x)
    (posted : x.posted = (job.waited i s).posted)
    (halfSize : x.halfSize = (job.waited i s).halfSize)
    (dma : x.world.dma = (job.waited i s).world.dma)
    (ve : x.world.ve = (job.waited i s).world.ve)
    (log : outstanding x.world.log = outstanding (job.waited i s).world.log) :
    job.LoopExit (x.unpost (half i)) := by
  refine .ended n (base.locals rfl rfl rfl) (stopped.unpost (half i)) ?_
  intro j
  rcases half_cases i j with rfl | rfl
  · exact .inl ⟨IoState.unpost_self _ _, (congrFun log _).trans (h.idle_waited lt)⟩
  · have next : job.InFlight (i - 1) x := InFlight.frame (h.next_waited lt two)
      (congrFun posted _) (congrFun halfSize _) (congrFun dma _) (congrFun ve _)
      (congrFun log _)
    have slot : job.Slot (half (i + 1)) x :=
      .inr ⟨i - 1, half_succ_eq_pred (by omega), next⟩
    exact slot.unpost_other (half_succ_ne i)

theorem Head.ready_whole (h : job.Head i s) (lt : i < chunkNum job.total) (two : 2 ≤ i)
    (landed : job.Landed (i - 2) (job.waited i s))
    (whole : chunkRet job.env job.total (i - 2) = chunkSize job.total (i - 2)) :
    job.Ready i ((job.called (i - 2) (job.waited i s)).accept
      (chunkRet job.env job.total (i - 2))) := by
  have count : i - 2 + 1 = i - 1 := by omega
  have base := landed.base_called
  have going := landed.whole whole
  rw [count] at base going
  have waited := h.waited_eq lt
  constructor
  · exact base.locals rfl rfl rfl
  · exact going
  · show (job.waited i s).io = _
    rw [waited]
  · show (job.waited i s).transferSize = _
    rw [waited]
  · show job.cover.At (parasSize * i) (job.waited i s).cursor
    rw [waited]
    exact h.cursor lt
  · intro one
    exact InFlight.frame (h.next_waited lt two) rfl rfl rfl rfl
      (congrFun landed.outstanding_called _)
  · exact (congrFun landed.outstanding_called _).trans (h.idle_waited lt)
  · omega

theorem Head.writeFlush (h : job.Head i s) (lt : i < chunkNum job.total) (two : 2 ≤ i)
    (success : job.env.waitCode s.world.waitCount = 0) :
    (writeFlush job.env job.call i (job.waited i s)).Sat (job.Head (i + 1)) job.LoopExit := by
  have landed := h.landed lt two success
  have base := landed.base_called
  have ret := landed.ret
  have log := landed.outstanding_called
  have size : chunkSize job.total (i - 2) = parasSize := chunkSize_eq_parasSize (by omega)
  have posted : (job.waited i s).posted (half i) = some (i - 2) := by
    rw [h.waited_eq lt, ← half_sub_two two]
    exact (h.chunk_waited lt two).1.posted
  have le := chunkRet_le job.env job.total (i - 2)
  rw [size, half_sub_two two] at ret
  rw [size] at le
  have state : ((job.waited i s).writeSysCall job.env job.call (half i) parasSize).2 =
      job.called (i - 2) (job.waited i s) := by
    rw [called, size, half_sub_two two]
  have first : (job.called (i - 2) (job.waited i s)).posted (half i) = some 0 ↔ i - 2 = 0 := by
    show (job.waited i s).posted (half i) = some 0 ↔ _
    rw [posted, Option.some_inj]
  apply writeFlush_rule state.symm ret.symm
  · intro failed
    simp only [first]
    apply h.exit_over lt two landed.base_failed (landed.failed failed)
    · exact IoState.firstError_posted _ _
    · exact IoState.firstError_halfSize _ _
    · rw [world_failed]
      rfl
    · rw [world_failed]
      rfl
    · rw [world_failed]
      exact log
  · intro nothing
    exact h.exit_over lt two (base.locals rfl rfl rfl) (landed.nothing nothing) rfl rfl rfl rfl log
  · intro ok short
    exact h.exit_over lt two (base.locals rfl rfl rfl)
      (landed.short ok (by rw [size]; exact short)) rfl rfl rfl rfl log
  · intro _ whole
    exact (h.ready_whole lt two landed (by rw [size]; omega)).writeIssue lt

theorem Head.writeBody (lt : i < chunkNum job.total) (h : job.Head i s) :
    (writeBody job.env job.call i s).Sat (job.Head (i + 1)) job.LoopExit := by
  have world := IoState.prepare_world job.env job.call i s
  apply writeBody_rule rfl rfl
  · intro early
    exact (h.ready_first lt (by simpa [buffNparas] using early)).writeIssue lt
  · intro two failed
    obtain ⟨flying, moved⟩ := h.chunk_waited lt two
    have base : job.Base (i - 2) (job.waited i s) := h.base.wait flying moved
    have stopped : job.Aborted (job.waited i s).dmaError := aborted_of_wait failed
    exact h.exit_over lt two (base.locals rfl rfl rfl) (.aborted stopped) rfl rfl rfl rfl rfl
  · intro two success
    rw [world] at success
    exact h.writeFlush lt two success

theorem Head.exit (h : job.Head (chunkNum job.total) s) : job.LoopExit s :=
  .going (chunkNum job.total - 2) h.base h.going rfl h.io
    (fun k ge klt => h.inFlight k klt (by omega)) (fun k ge klt => h.vacant k ge klt)

end Loop

theorem head_start {w : World} {cursor : Cursor} {ofs : Int} (fresh : w.Fresh)
    (user : w.user = job.user) (errno : w.errno = job.errno)
    (sameOfs : int64 ofs = int64 job.ofs) (at_start : job.cover.At 0 cursor) :
    job.Head 0 (.start w job.io cursor ofs) := by
  have log : w.log = [] := fresh.2.1
  constructor
  · exact ⟨CallLog.start fresh, user⟩
  · refine ⟨rfl, rfl, rfl, ?_, errno, ?_, by omega⟩
    · simp [IoState.start, log, dmaFailed]
    · intro _
      simpa [IoState.start] using sameOfs
  · rfl
  · intro _
    rfl
  · intro _
    exact at_start
  · intro k klt
    omega
  · intro k _ _
    exact vacant_start fresh job.io cursor ofs (half k)

/-! ## The sizes that wait for their system call -/

theorem Head.slots {i : Nat} {s : IoState Cursor} (h : job.Head i s) (j : Half) :
    job.Slot j s := by
  by_cases early : i < 2
  · rcases half_cases 0 j with rfl | rfl
    · by_cases zero : i = 0
      · exact .inl (h.vacant 0 (by omega) (by omega))
      · exact .inr ⟨0, rfl, h.inFlight 0 (by omega) (by omega)⟩
    · exact .inl (h.vacant 1 (by omega) (by omega))
  · rcases half_cases (i - 2) j with rfl | rfl
    · exact .inr ⟨i - 2, rfl, h.inFlight (i - 2) (by omega) (by omega)⟩
    · exact .inr ⟨i - 2 + 1, rfl, h.inFlight (i - 2 + 1) (by omega) (by omega)⟩

theorem LoopExit.slots {s : IoState Cursor} (h : job.LoopExit s) (pos : 0 < job.total)
    (j : Half) : job.Slot j s := by
  have chunks := chunkNum_pos pos
  cases h with
  | ended n base stopped slots => exact slots j
  | going n base ok last io inFlight vacant =>
    rcases half_cases n j with rfl | rfl
    · exact .inr ⟨n, rfl, inFlight n (le_refl n) (by omega)⟩
    · by_cases single : chunkNum job.total = 1
      · exact .inl (vacant (n + 1) (by omega) (by omega))
      · exact .inr ⟨n + 1, rfl, inFlight (n + 1) (by omega) (by omega)⟩

theorem Slot.size {j : Half} {k : Nat} {s : IoState Cursor} (h : job.Slot j s)
    (posted : s.posted j = some k) :
    k < chunkNum job.total ∧ s.halfSize j = chunkSize job.total k := by
  rcases h with vacant | ⟨k', rfl, flying⟩
  · rw [vacant.posted] at posted
    exact absurd posted (by simp)
  · rw [flying.posted] at posted
    obtain rfl := Option.some.inj posted
    exact ⟨flying.lt, flying.size⟩

/-- After any number of rounds of the main loop `need_write_in_size` of a posted chunk is the
size of the chunk. -/
theorem needWriteInSize_full (pos : 0 < job.total) {s : IoState Cursor} (start : job.Head 0 s)
    {rounds : Nat} (le : rounds ≤ chunkNum job.total) {j : Half} {k : Nat}
    (posted : (forLoop (AccIo.writeBody job.env job.call) rounds 0 s).posted j = some k) :
    k < chunkNum job.total ∧
      (forLoop (AccIo.writeBody job.env job.call) rounds 0 s).halfSize j =
        chunkSize job.total k := by
  have slots : ∀ j, job.Slot j (forLoop (AccIo.writeBody job.env job.call) rounds 0 s) := by
    refine forLoop_rule ?_ (fun s head => head.slots) rounds 0 s (Nat.zero_add _) start
    intro i s lt head
    have body := head.writeBody (by omega)
    cases outcome : AccIo.writeBody job.env job.call i s with
    | next s' =>
      rw [outcome] at body
      exact body
    | brk s' =>
      rw [outcome] at body
      exact fun j => LoopExit.slots body pos j
  exact (slots j).size posted

end Libsysve.AccIo.WriteJob
