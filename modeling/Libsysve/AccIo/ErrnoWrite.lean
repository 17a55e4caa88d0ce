import Libsysve.AccIo.ErrnoRead

/-!
# errno after a write

The same for writes, whose chunk system calls come two rounds later: `WriteRound` is the
state before round `i` of a write in which nothing has gone wrong, `WriteLost` and
`WritePending` are what is left when it has stopped.
-/

set_option autoImplicit false

namespace Libsysve.AccIo

open Libsysve.ForLoop

/-- A write whose chunk `k`, not the first, fails unseen. -/
def WriteHides (env : Env) (num : Nat) : Prop := ∃ k, HiddenAt env num (min (k + 2) num) k

section
variable {Cursor : Type} {env : Env} {call : IoCall Cursor} {total num n i : Nat} {errno : Int}
variable {addr : Nat → Nat} {s : IoState Cursor}

def WriteFails (env : Env) (total num : Nat) : Prop := Fails env num (WriteMade env total)

/-- A write that will return -1, whatever the waits give that are still to come. -/
inductive WriteLost (env : Env) (total num : Nat) (s : IoState Cursor) : Prop where
  | first (first : FirstError env s) (dataErr : s.dataErr = true)
      (visible : ¬WriteHides env num) (lost : WriteFails env total num)
  | dma (dma : s.Abandoned) (visible : ¬WriteHides env num) (lost : WriteFails env total num)

/-- What a write has come to when no DMA fails any more. -/
inductive WriteVerdict (env : Env) (total num : Nat) (errno : Int) (s : IoState Cursor) :
    Prop where
  | quiet (quiet : Quiet errno s) (visible : ¬WriteHides env num)
      (fine : ¬WriteFails env total num)
  | cleared (quiet : Quiet 0 s) (isHidden : WriteHides env num)

/-- A chunk came in short or failed, and the wait on half `index` is still to come. -/
structure WritePending (env : Env) (total num : Nat) (errno : Int) (index : Half)
    (s : IoState Cursor) : Prop where
  dataErr : s.dataErr = true
  posted : ∃ k, s.posted index = some k
  fine : env.waitCode s.world.waitCount = 0 → WriteVerdict env total num errno s
  bad : 1 ≤ env.waitCode s.world.waitCount → ¬WriteHides env num ∧ WriteFails env total num

/-! ## The loop -/

/-- A write before round `i`: the calls of the chunks before `i - 2` have been issued. -/
structure WriteRound (env : Env) (call : IoCall Cursor) (spec : CoverSpec call.plan total addr)
    (errno : Int) (i : Nat) (s : IoState Cursor) : Prop where
  inFull : InFull env total errno (i - 2) s
  paced : Paced env i s
  sizes : ∀ k, k < i → i ≤ k + 2 → s.halfSize (half k) = chunkSize total k
  cursor : i < call.chunkNum → spec.At (parasSize * i) s.cursor
  size : i < call.chunkNum → s.transferSize = parasSize

structure InRound (env : Env) (call : IoCall Cursor) (spec : CoverSpec call.plan total addr)
    (errno : Int) (i n : Nat) (s : IoState Cursor) : Prop where
  inFull : InFull env total errno n s
  mid : PacedMid env i s
  sizes : ∀ k, k + 1 = i → s.halfSize (half k) = chunkSize total k
  cursor : spec.At (parasSize * i) s.cursor
  size : s.transferSize = chunkSize total i

inductive WriteStop (env : Env) (total num : Nat) (errno : Int) (s : IoState Cursor) : Prop where
  | lost (lost : WriteLost env total num s)
  | pending (n : Nat) (posted : s.posted (half n) = some n)
      (free : s.posted (half (n + 1)) = none)
      (pending : WritePending env total num errno (half n) s)

variable {spec : CoverSpec call.plan total addr}

theorem writeMade_upTo (short : (env.sys n).ret (chunkSize total n) ≠ chunkSize total n) {j : Nat}
    (made : WriteMade env total j) : j < n + 2 := by
  by_contra behind
  exact short (made n (by omega))

theorem writeMade_of_full
    (full : ∀ k, k < n → (env.sys k).ret (chunkSize total k) = chunkSize total k) {j : Nat}
    (le : j ≤ n + 1) : WriteMade env total j :=
  fun k before => full k (by omega)

theorem InRound.writeIssue (round : InRound env call spec errno i (i + 1 - 2) s)
    (sized : SizedUpTo call total) (inside : i ≤ intMax) (lt : i < call.chunkNum) :
    (writeIssue env call i s).Sat (WriteRound env call spec errno (i + 1))
      (WriteStop env total call.chunkNum errno) := by
  have filled : PacedMid env i (s.fill call.plan (half i)).2 := round.mid.of_eq rfl rfl rfl
  have quiet : Quiet errno (s.fill call.plan (half i)).2 :=
    round.inFull.quiet.of_eq rfl rfl (le_refl _)
  apply writeIssue_rule rfl rfl
  · intro refused
    refine .lost (.dma ⟨?_, rfl, rfl, rfl⟩ ?_ ?_)
    · show dmaFailed (World.veDmaPost env _ _ _ _ _).2.log = true
      rw [World.veDmaPost_log, dmaFailed_snoc, refused]
      exact Bool.or_true _
    · rw [filled.postCount] at refused
      apply visible_of (i := i + 1 - 2)
      · intro k before _
        exact not_failed_of_full (round.inFull.full k before)
      · intro k behind hidden
        rw [hidden.posts i (by omega)] at refused
        exact absurd refused (by decide)
    · rw [filled.postCount] at refused
      exact .inr ⟨i, lt, writeMade_of_full round.inFull.full (by omega), .inl refused⟩
  · intro accepted
    obtain ⟨next, nothingLeft⟩ := spec.next round.cursor (sized.pos i inside lt)
      (sized.fits i inside lt)
    have left : (s.fill call.plan (half i)).1 = 0 := by
      show (call.plan s.cursor s.transferSize).2.2 = 0
      rw [round.size]
      exact nothingLeft
    have whole : (s.fill call.plan (half i)).2.transferSize - (s.fill call.plan (half i)).1 =
        chunkSize total i := by
      rw [left, Int.sub_zero]
      exact round.size
    refine ⟨?_, ?_, ?_, ?_, ?_⟩
    · refine round.inFull.of_eq (quiet.of_eq rfl rfl (le_refl _)) round.inFull.dataErr rfl ?_
      exact (chunkCalls_post env (s.fill call.plan (half i)).2 .veToVh (half i) _).trans
        (chunkCalls_fill s call.plan (half i))
    · exact filled.record accepted (IoState.recordWrite_self ..)
        (fun j other => IoState.recordWrite_other _ _ _ other) rfl rfl
    · intro k before recent
      rcases Nat.lt_succ_iff_lt_or_eq.mp before with older | rfl
      · have previous : k + 1 = i := by omega
        have other : half k ≠ half i := by
          rw [← previous]
          exact half_ne_succ k
        rw [IoState.recordWrite_halfSize_other _ _ _ other]
        exact round.sizes k previous
      · rw [IoState.recordWrite_halfSize_self]
        exact whole
    · intro more
      have behind : parasSize * i + chunkSize total i = parasSize * (i + 1) := by
        rw [sized.full i inside more, Nat.mul_succ]
      rw [behind] at next
      show spec.At _ (call.plan s.cursor s.transferSize).1
      rw [round.size]
      exact next
    · intro more
      show s.transferSize = parasSize
      rw [round.size, sized.full i inside more]

theorem write_hides_iff (sized : SizedUpTo call total) (inside : n ≤ intMax) (later : 1 ≤ n)
    (more : n < call.chunkNum) {e : Int} (failed : env.sys n = .fail e)
    (full : ∀ k, k < n → (env.sys k).ret (chunkSize total k) = chunkSize total k)
    (posts : ∀ k, k < min (n + 2) call.chunkNum → env.postOk k = true) {last : Nat}
    (isLast : last + 1 = min (n + 2) call.chunkNum)
    (waits : ∀ k, k < last → env.waitCode k = 0) :
    env.waitCode last = 0 ↔ WriteHides env call.chunkNum := by
  refine hides_iff (fun k => min (k + 2) call.chunkNum) sized inside later more failed full ?_
    posts isLast waits
  intro k le _
  exact min_le_min_right _ (by omega)

theorem PacedMid.stop_pending {s' : IoState Cursor} (mid : PacedMid env (n + 2) s)
    (posted : s'.posted = s.posted) (waitCount : s'.world.waitCount = s.world.waitCount)
    (dataErr : s'.dataErr = true) (lt : n + 2 < call.chunkNum)
    (full : ∀ k, k < n → (env.sys k).ret (chunkSize total k) = chunkSize total k)
    (verdict : env.waitCode (n + 1) = 0 →
      WriteVerdict env total call.chunkNum errno (s'.unpost (half (n + 2))))
    (visible : 1 ≤ env.waitCode (n + 1) → ¬WriteHides env call.chunkNum) :
    WriteStop env total call.chunkNum errno (s'.unpost (half (n + 2))) := by
  have newer : (s'.unpost (half (n + 2))).posted (half (n + 1)) = some (n + 1) := by
    rw [IoState.unpost_other _ (half_ne_succ (n + 1)), posted]
    exact mid.posted (n + 1) rfl
  have count : (s'.unpost (half (n + 2))).world.waitCount = n + 1 := waitCount.trans mid.waitCount
  refine .pending (n + 1) newer (IoState.unpost_self _ _)
    ⟨dataErr, ⟨n + 1, newer⟩, fun code => ?_, fun code => ?_⟩
  · rw [count] at code
    exact verdict code
  · rw [count] at code
    exact ⟨visible code,
      .inr ⟨n + 1, by omega, writeMade_of_full full (le_refl _), .inr code⟩⟩

theorem PacedMid.stop_short {s' : IoState Cursor} {ret : Int} (mid : PacedMid env (n + 2) s)
    (asked : Asked env total errno n ret s) (sized : SizedUpTo call total) (inside : n ≤ intMax)
    (lt : n + 2 < call.chunkNum) (ok : ret ≠ -1) (short : ret < chunkSize total n)
    (quiet : Quiet errno s') (posted : s'.posted = s.posted)
    (waitCount : s'.world.waitCount = s.world.waitCount) (dataErr : s'.dataErr = true) :
    WriteStop env total call.chunkNum errno (s'.unpost (half (n + 2))) := by
  have visible : ¬WriteHides env call.chunkNum := asked.visible_of_short sized inside ok short
  refine mid.stop_pending posted waitCount dataErr lt asked.full (fun code => ?_)
    (fun _ => visible)
  refine .quiet (quiet.of_eq rfl rfl (le_refl _)) visible
    (not_fails (n := n + 2) (fun _ => asked.fine_of_answer ok (by omega)) ?_ mid.posts ?_)
  · intro j _ made
    refine writeMade_upTo ?_ made
    rw [← asked.answer]
    omega
  · intro k before
    rcases Nat.lt_succ_iff_lt_or_eq.mp before with earlier | rfl
    · exact mid.waits k (by omega)
    · exact code

theorem InRound.writeFlush (round : InRound env call spec errno i (i - 2) s) (two : 2 ≤ i)
    (sized : SizedUpTo call total) (inside : i ≤ intMax) (lt : i < call.chunkNum) :
    (writeFlush env call i s).Sat (WriteRound env call spec errno (i + 1))
      (WriteStop env total call.chunkNum errno) := by
  obtain ⟨n, rfl⟩ := Nat.exists_eq_add_of_le' two
  have size : (parasSize : Int) = chunkSize total n := by
    rw [sized.full n (by omega) (by omega)]
  have inFull : InFull env total errno n s := round.inFull
  have mid : PacedMid env (n + 2) (s.writeSysCall env call (half (n + 2)) parasSize).2 :=
    round.mid.of_eq rfl rfl rfl
  have asked : Asked env total errno n ((env.sys s.world.sysCount).ret parasSize)
      (s.writeSysCall env call (half (n + 2)) parasSize).2 := by
    obtain ⟨c, logs, ret⟩ := IoState.writeSysCall_logs env call (half (n + 2)) parasSize s
    have isRet : c.ret = (env.sys s.world.sysCount).ret parasSize := ret
    rw [← isRet]
    exact inFull.asked logs size isRet rfl rfl rfl rfl rfl
  apply writeFlush_rule rfl rfl
  · intro minus
    obtain ⟨e, failed⟩ := asked.failed minus
    rw [mid.older n rfl]
    rcases Nat.eq_zero_or_pos n with zero | pos
    · subst zero
      have first := asked.firstError rfl minus
      exact .lost (.first ⟨first.call, first.head, rfl⟩ rfl (visible_of_first failed)
        (.inl ⟨by omega, by rw [failed]; rfl⟩))
    · have later : decide (some n = some 0) = false := by
        rw [decide_eq_false_iff_not, Option.some.injEq]
        omega
      rw [later]
      have decides : env.waitCode (n + 1) = 0 ↔ WriteHides env call.chunkNum :=
        write_hides_iff sized (by omega) pos (by omega) failed asked.full
          (fun k before => mid.posts k (by omega)) (by omega)
          (fun k before => mid.waits k (by omega))
      refine mid.stop_pending rfl rfl rfl lt asked.full (fun code => ?_) (fun code isHidden => ?_)
      · exact .cleared (asked.cleared.of_eq rfl rfl (le_refl _)) (decides.mp code)
      · have fine := decides.mpr isHidden
        omega
  · intro zero
    have pos := sized.pos n (by omega) (by omega)
    have ok : (env.sys s.world.sysCount).ret parasSize ≠ -1 := by
      rw [zero]
      decide
    exact mid.stop_short asked sized (by omega) lt ok (by omega)
      ((asked.quiet ok).of_eq rfl rfl (le_refl _)) rfl rfl rfl
  · intro ok short
    exact mid.stop_short asked sized (by omega) lt ok (by omega)
      ((asked.accept ok).of_eq rfl rfl (le_refl _)) rfl rfl rfl
  · intro ok full
    have accepted : InFull env total errno (n + 2 + 1 - 2)
        ((s.writeSysCall env call (half (n + 2)) parasSize).2.accept
          ((env.sys s.world.sysCount).ret parasSize)) :=
      asked.next (by omega) (asked.accept ok) rfl rfl
    exact InRound.writeIssue ⟨accepted, mid.of_eq rfl rfl rfl, round.sizes, round.cursor,
      round.size⟩ sized inside lt

theorem WriteRound.writeBody (round : WriteRound env call spec errno i s)
    (sized : SizedUpTo call total) (inside : i ≤ intMax) (lt : i < call.chunkNum) :
    (writeBody env call i s).Sat (WriteRound env call spec errno (i + 1))
      (WriteStop env total call.chunkNum errno) := by
  have paced : Paced env i (s.prepare env call i) := round.paced.prepare
  have size : (s.prepare env call i).transferSize = chunkSize total i :=
    prepare_size sized inside lt (round.size lt)
  have inFull : InFull env total errno (i - 2) (s.prepare env call i) := round.inFull.prepare i
  obtain ⟨sizes, cursor⟩ : (s.prepare env call i).halfSize = s.halfSize ∧
      (s.prepare env call i).cursor = s.cursor := by
    obtain ⟨io, n, frame⟩ := s.prepare_frame env call i
    rw [frame]
    exact ⟨rfl, rfl⟩
  have older : ∀ k, k + 1 = i → (s.prepare env call i).halfSize (half k) = chunkSize total k := by
    intro k previous
    rw [sizes]
    exact round.sizes k (by omega) (by omega)
  have here : spec.At (parasSize * i) (s.prepare env call i).cursor := by
    rw [cursor]
    exact round.cursor lt
  apply writeBody_rule rfl rfl
  · intro early
    have none : i - 2 = i + 1 - 2 := by
      simp only [buffNparas] at early
      omega
    rw [none] at inFull
    exact InRound.writeIssue ⟨inFull, paced.first early, older, here, size⟩ sized inside lt
  · intro second bad
    simp only [buffNparas] at second
    have dma := abandoned_of_wait (half i) bad
    rw [paced.waitCount] at bad
    refine .lost (.dma ⟨dma.failed, rfl, rfl, rfl⟩ ?_ ?_)
    · apply visible_of (i := i - 2)
      · intro k before _
        exact not_failed_of_full (inFull.full k before)
      · intro k behind hidden
        have fine := hidden.waits (i - 2) (by omega)
        omega
    · exact .inr ⟨i - 2, by omega, writeMade_of_full inFull.full (by omega), .inr bad⟩
  · intro second fine
    exact InRound.writeFlush ⟨inFull.wait (half i), paced.wait second fine, older, here, size⟩
      second sized inside lt

/-! ## The drain loop -/

theorem writeDrainStep_abandoned (abandoned : s.Abandoned) (index : Half) :
    (writeDrainStep env call index s).Abandoned := by
  apply writeDrainStep_rule
  · intro _
    exact abandoned
  · intro k _ bad
    exact abandoned_of_wait _ bad
  · intro k _ _ _
    exact abandoned.wait env (half k)
  · intro k _ _ fine
    rw [abandoned.dataErr] at fine
    exact absurd fine (by decide)

inductive WaitRound (env : Env) (index : Half) (s s' : IoState Cursor) : Prop where
  | free (none : s.posted index = none) (same : s' = s)
  | fine (code : env.waitCode s.world.waitCount = 0) (k : Nat) (same : s' = (s.wait env (half k)).2)
  | dma (code : 1 ≤ env.waitCode s.world.waitCount) (dma : s'.Abandoned)

theorem writeDrainStep_wait (dataErr : s.dataErr = true) (index : Half) :
    WaitRound env index s (writeDrainStep env call index s) := by
  apply writeDrainStep_rule
  · intro none
    exact .free none rfl
  · intro k _ bad
    exact .dma bad (abandoned_of_wait _ bad)
  · intro k _ code _
    exact .fine code k rfl
  · intro k _ _ fine
    rw [dataErr] at fine
    exact absurd fine (by decide)

theorem FirstError.wait (first : FirstError env s) (j : Half) :
    FirstError env (s.wait env j).2 where
  call := first.call
  head := by
    rw [FirstCallFailed, chunkCalls_wait]
    exact first.head
  exit := first.exit

theorem WriteLost.writeDrainStep (lost : WriteLost env total num s) (index : Half) :
    WriteLost env total num (writeDrainStep env call index s) := by
  cases lost with
  | first first dataErr visible lost =>
    have round : WaitRound env index s (AccIo.writeDrainStep env call index s) :=
      writeDrainStep_wait dataErr index
    cases round with
    | free _ same =>
      rw [same]
      exact .first first dataErr visible lost
    | fine _ k same =>
      rw [same]
      exact .first (first.wait (half k)) dataErr visible lost
    | dma _ dma => exact .dma dma visible lost
  | dma dma visible lost => exact .dma (writeDrainStep_abandoned dma index) visible lost

theorem WriteLost.ends (lost : WriteLost env total num s) :
    ErrnoEnd env errno (WriteHides env num) (WriteFails env total num) s := by
  cases lost with
  | first first _ visible lost => exact .first first visible lost
  | dma dma visible lost => exact .dma dma visible lost

theorem WriteVerdict.ends (verdict : WriteVerdict env total num errno s) :
    ErrnoEnd env errno (WriteHides env num) (WriteFails env total num) s := by
  cases verdict with
  | quiet quiet visible fine => exact .quiet quiet visible fine
  | cleared quiet isHidden => exact .cleared quiet isHidden

theorem WriteVerdict.wait (verdict : WriteVerdict env total num errno s) (j : Half) :
    WriteVerdict env total num errno (s.wait env j).2 := by
  cases verdict with
  | quiet quiet visible fine => exact .quiet (quiet.wait j) visible fine
  | cleared quiet isHidden => exact .cleared (quiet.wait j) isHidden

theorem WritePending.writeDrainStep {index : Half}
    (pending : WritePending env total num errno index s) :
    WriteLost env total num (writeDrainStep env call index s) ∨
      (WriteVerdict env total num errno (writeDrainStep env call index s) ∧
        (writeDrainStep env call index s).posted = s.posted) := by
  have round : WaitRound env index s (AccIo.writeDrainStep env call index s) :=
    writeDrainStep_wait pending.dataErr index
  cases round with
  | free none _ =>
    obtain ⟨k, posted⟩ := pending.posted
    rw [posted] at none
    exact absurd none (by simp)
  | fine code k same =>
    rw [same]
    exact .inr ⟨(pending.fine code).wait (half k), rfl⟩
  | dma code dma =>
    obtain ⟨visible, lost⟩ := pending.bad code
    exact .inl (.dma dma visible lost)

theorem WriteStop.drain (stop : WriteStop env total num errno s) :
    ErrnoEnd env errno (WriteHides env num) (WriteFails env total num)
      (writeDrain env call s) := by
  cases stop with
  | lost lost => exact ((lost.writeDrainStep _).writeDrainStep _).ends
  | pending n posted free pending =>
    rw [writeDrain_eq (veFindMinPosted_eq posted (.inl free))]
    rcases pending.writeDrainStep with lost | ⟨verdict, kept⟩
    · exact (lost.writeDrainStep _).ends
    · have nothing : (AccIo.writeDrainStep env call (half n) s).posted (half (n + 1)) = none := by
        rw [kept]
        exact free
      rw [writeDrainStep_none nothing]
      exact verdict.ends

/-- What the chunk system call of chunk `n` in the drain loop leaves. -/
inductive FlushEnd (env : Env) (total num : Nat) (errno : Int) (n : Nat) (s : IoState Cursor) :
    Prop where
  | first (zero : n = 0) (first : FirstError env s) (dataErr : s.dataErr = true)
      (visible : ¬WriteHides env num) (lost : WriteFails env total num)
  | cleared (later : 1 ≤ n) (e : Int) (failed : env.sys n = .fail e) (quiet : Quiet 0 s)
      (dataErr : s.dataErr = true)
  | short (quiet : Quiet errno s) (dataErr : s.dataErr = true) (visible : ¬WriteHides env num)
      (began : (env.sys 0).failed = false)
      (short : (env.sys n).ret (chunkSize total n) ≠ chunkSize total n)
  | full (inFull : InFull env total errno (n + 1) s)

structure CallRound (env : Env) (total num : Nat) (errno : Int) (n : Nat)
    (s s' : IoState Cursor) : Prop where
  posted : s'.posted = s.posted
  halfSize : s'.halfSize = s.halfSize
  waitCount : s'.world.waitCount = s.world.waitCount
  ends : FlushEnd env total num errno n s'

theorem InFull.callRound (inFull : InFull env total errno n s)
    (sized : SizedUpTo call total) (inside : n ≤ intMax) (lt : n < call.chunkNum)
    (size : s.halfSize (half n) = chunkSize total n) :
    CallRound env total call.chunkNum errno n s (writeDrainCall env call n s) := by
  have pos := sized.pos n inside lt
  have asked : Asked env total errno n ((env.sys s.world.sysCount).ret (chunkSize total n))
      (s.writeSysCall env call (half n) (chunkSize total n)).2 := by
    obtain ⟨c, logs, ret⟩ := IoState.writeSysCall_logs env call (half n) (chunkSize total n) s
    have isRet : c.ret = (env.sys s.world.sysCount).ret (chunkSize total n) := ret
    rw [← isRet]
    exact inFull.asked logs rfl isRet rfl rfl rfl rfl rfl
  apply writeDrainCall_rule rfl rfl size.symm
  · intro minus
    obtain ⟨e, failed⟩ := asked.failed minus
    rcases Nat.eq_zero_or_pos n with zero | later
    · have first := asked.firstError zero minus
      subst zero
      exact ⟨rfl, rfl, rfl, .first rfl ⟨first.call, first.head, rfl⟩ rfl
        (visible_of_first failed) (.inl ⟨lt, by rw [failed]; rfl⟩)⟩
    · rw [decide_eq_false (by omega)]
      exact ⟨rfl, rfl, rfl, .cleared later e failed
        (asked.cleared.of_eq rfl rfl (le_refl _)) rfl⟩
  · intro zero
    have ok : (env.sys s.world.sysCount).ret (chunkSize total n) ≠ -1 := by
      rw [zero]
      decide
    exact ⟨rfl, rfl, rfl, .short ((asked.quiet ok).of_eq rfl rfl (le_refl _)) rfl
      (asked.visible_of_short sized inside ok (by omega))
      (asked.fine_of_answer ok (Nat.succ_pos n)) (by rw [← asked.answer]; omega)⟩
  · intro ok short
    exact ⟨rfl, rfl, rfl, .short ((asked.accept ok).of_eq rfl rfl (le_refl _)) rfl
      (asked.visible_of_short sized inside ok short)
      (asked.fine_of_answer ok (Nat.succ_pos n)) (by rw [← asked.answer]; omega)⟩
  · intro ok full
    exact ⟨rfl, rfl, rfl, .full (asked.next full (asked.accept ok) rfl rfl)⟩

inductive FlushRound (env : Env) (total num : Nat) (errno : Int) (n : Nat)
    (s s' : IoState Cursor) : Prop where
  | dma (code : 1 ≤ env.waitCode s.world.waitCount) (dma : s'.Abandoned)
  | called (code : env.waitCode s.world.waitCount = 0) (posted : s'.posted = s.posted)
      (halfSize : s'.halfSize = s.halfSize)
      (waitCount : s'.world.waitCount = s.world.waitCount + 1)
      (ends : FlushEnd env total num errno n s')

theorem InFull.flushRound {index : Half} (inFull : InFull env total errno n s)
    (sized : SizedUpTo call total) (inside : n ≤ intMax) (lt : n < call.chunkNum)
    (posted : s.posted index = some n) (size : s.halfSize (half n) = chunkSize total n) :
    FlushRound env total call.chunkNum errno n s (writeDrainStep env call index s) := by
  apply writeDrainStep_rule
  · intro none
    rw [posted] at none
    exact absurd none (by simp)
  · intro k _ bad
    exact .dma bad (abandoned_of_wait _ bad)
  · intro k _ _ err
    rw [inFull.dataErr] at err
    exact absurd err (by decide)
  · intro k here code _
    obtain rfl := Option.some.inj (posted.symm.trans here)
    have waited : InFull env total errno n (s.wait env (half n)).2 := inFull.wait (half n)
    have round := waited.callRound sized inside lt size
    exact .called code round.posted round.halfSize round.waitCount round.ends

theorem waits_succ (waits : ∀ k, k < n → env.waitCode k = 0) (code : env.waitCode n = 0) :
    ∀ k, k < n + 1 → env.waitCode k = 0 := by
  intro k before
  rcases Nat.lt_succ_iff_lt_or_eq.mp before with earlier | rfl
  · exact waits k earlier
  · exact code

theorem InFull.drain_last {index : Half} (inFull : InFull env total errno n s)
    (sized : SizedUpTo call total) (inside : n ≤ intMax) (last : n + 1 = call.chunkNum)
    (posted : s.posted index = some n) (size : s.halfSize (half n) = chunkSize total n)
    (posts : ∀ k, k < call.chunkNum → env.postOk k = true)
    (waitCount : s.world.waitCount = n) (waits : ∀ k, k < n → env.waitCode k = 0) :
    ErrnoEnd env errno (WriteHides env call.chunkNum) (WriteFails env total call.chunkNum)
      (writeDrainStep env call index s) := by
  have round : FlushRound env total call.chunkNum errno n s (writeDrainStep env call index s) :=
    inFull.flushRound sized inside (by omega) posted size
  cases round with
  | dma code dma =>
    rw [waitCount] at code
    refine .dma dma ?_ (.inr ⟨n, by omega, writeMade_of_full inFull.full (by omega), .inr code⟩)
    apply visible_of (i := n)
    · intro k before _
      exact not_failed_of_full (inFull.full k before)
    · intro k behind hidden
      have more := hidden.inside
      have fine := hidden.waits n (by omega)
      omega
  | called code _ _ _ ends =>
    rw [waitCount] at code
    have fine : (env.sys 0).failed = false → ¬WriteFails env total call.chunkNum := by
      intro began
      refine not_fails (n := n + 1) (fun _ => began) (fun j before _ => by omega)
        (fun k before => posts k (by omega)) (waits_succ waits code)
    cases ends with
    | first _ first _ visible lost => exact .first first visible lost
    | cleared later e failed quiet _ =>
      refine .cleared quiet ((write_hides_iff sized inside later (by omega) failed inFull.full
        ?_ ?_ waits).mp code)
      · intro k before
        exact posts k (by omega)
      · omega
    | short quiet _ visible began _ => exact .quiet quiet visible (fine began)
    | full after =>
      refine .quiet after.quiet ?_ (fine (not_failed_of_full (after.full 0 (Nat.succ_pos n))))
      apply visible_of (i := n + 1)
      · intro k before _
        exact not_failed_of_full (after.full k before)
      · intro k behind hidden
        have more := hidden.inside
        omega

theorem WriteRound.drain_one (round : WriteRound env call spec errno call.chunkNum s)
    (sized : SizedUpTo call total) (one : call.chunkNum = 1) :
    ErrnoEnd env errno (WriteHides env call.chunkNum) (WriteFails env total call.chunkNum)
      (writeDrain env call s) := by
  obtain ⟨inFull, paced, sizes, _, _⟩ := round
  rw [one] at inFull paced sizes
  have zero : s.posted (half 0) = some 0 := paced.posted 0 (by omega) (by omega)
  have free : s.posted (half 1) = none := (paced.free (le_refl 1)).1
  have nothing : (writeDrainStep env call (half 0) s).posted (half 1) = none := by
    rw [writeDrainStep_posted]
    exact free
  rw [writeDrain_eq (veFindMinPosted_eq zero (.inl free)), writeDrainStep_none nothing]
  exact inFull.drain_last sized (by decide) (by omega) zero (sizes 0 (by omega) (by omega))
    (fun k before => paced.posts k (by omega)) paced.waitCount (by omega)

theorem drain_pending (dataErr : s.dataErr = true) (posted : s.posted (half (n + 1)) = some (n + 1))
    (waitCount : s.world.waitCount = n + 1) (lt : n + 1 < num)
    (full : ∀ k, k < n → (env.sys k).ret (chunkSize total k) = chunkSize total k)
    (fine : env.waitCode (n + 1) = 0 → WriteVerdict env total num errno s)
    (bad : 1 ≤ env.waitCode (n + 1) → ¬WriteHides env num) :
    ErrnoEnd env errno (WriteHides env num) (WriteFails env total num)
      (writeDrainStep env call (half (n + 1)) s) := by
  have pending : WritePending env total num errno (half (n + 1)) s := by
    refine ⟨dataErr, ⟨n + 1, posted⟩, fun code => ?_, fun code => ?_⟩
    · rw [waitCount] at code
      exact fine code
    · rw [waitCount] at code
      exact ⟨bad code, .inr ⟨n + 1, lt, writeMade_of_full full (le_refl _), .inr code⟩⟩
  rcases pending.writeDrainStep with lost | ⟨verdict, _⟩
  · exact lost.ends
  · exact verdict.ends

theorem WriteRound.drain_two (round : WriteRound env call spec errno call.chunkNum s)
    (sized : SizedUpTo call total) (more : n + 2 = call.chunkNum) (inside : n + 1 ≤ intMax) :
    ErrnoEnd env errno (WriteHides env call.chunkNum) (WriteFails env total call.chunkNum)
      (writeDrain env call s) := by
  obtain ⟨inFull, paced, sizes, _, _⟩ := round
  rw [← more] at inFull paced sizes
  have older : s.posted (half n) = some n := paced.posted n (by omega) (by omega)
  have newer : s.posted (half (n + 1)) = some (n + 1) := paced.posted (n + 1) (by omega) (by omega)
  have count : s.world.waitCount = n := paced.waitCount
  have step : FlushRound env total call.chunkNum errno n s (writeDrainStep env call (half n) s) :=
    inFull.flushRound sized (by omega) (by omega) older (sizes n (by omega) (by omega))
  have next : (writeDrainStep env call (half n) s).posted (half (n + 1)) = some (n + 1) := by
    rw [writeDrainStep_posted]
    exact newer
  rw [writeDrain_eq (veFindMinPosted_eq older (.inr newer))]
  generalize writeDrainStep env call (half n) s = s' at step next ⊢
  cases step with
  | dma code dma =>
    rw [count] at code
    refine .dma (writeDrainStep_abandoned dma _) ?_
      (.inr ⟨n, by omega, writeMade_of_full inFull.full (by omega), .inr code⟩)
    apply visible_of (i := n)
    · intro k before _
      exact not_failed_of_full (inFull.full k before)
    · intro k behind hidden
      have lt := hidden.inside
      have fine := hidden.waits n (by omega)
      omega
  | called code _ halfSize waitCount ends =>
    rw [count] at code waitCount
    have waits : ∀ k, k < n + 1 → env.waitCode k = 0 :=
      waits_succ (fun k before => paced.waits k (by omega)) code
    cases ends with
    | first _ first dataErr visible lost =>
      exact (WriteLost.first first dataErr visible lost).writeDrainStep _ |>.ends
    | cleared later e failed quiet dataErr =>
      have decides : env.waitCode (n + 1) = 0 ↔ WriteHides env call.chunkNum :=
        write_hides_iff sized (by omega) later (by omega) failed inFull.full
          (fun k before => paced.posts k (by omega)) (by omega) waits
      refine drain_pending dataErr next waitCount (by omega) inFull.full
        (fun code => .cleared quiet (decides.mp code)) (fun code isHidden => ?_)
      have fine := decides.mpr isHidden
      omega
    | short quiet dataErr visible began short =>
      refine drain_pending dataErr next waitCount (by omega) inFull.full (fun code => ?_)
        (fun _ => visible)
      exact .quiet quiet visible (not_fails (fun _ => began)
        (fun j _ made => writeMade_upTo short made) paced.posts (waits_succ waits code))
    | full after =>
      refine after.drain_last sized inside (by omega) next ?_ ?_ waitCount ?_
      · rw [halfSize]
        exact sizes (n + 1) (by omega) (by omega)
      · intro k before
        exact paced.posts k (by omega)
      · exact waits

theorem WriteRound.drain (round : WriteRound env call spec errno call.chunkNum s)
    (sized : SizedUpTo call total) (inside : call.chunkNum ≤ intMax) :
    ErrnoEnd env errno (WriteHides env call.chunkNum) (WriteFails env total call.chunkNum)
      (writeDrain env call s) := by
  have cases : call.chunkNum = 0 ∨ call.chunkNum = 1 ∨ ∃ n, n + 2 = call.chunkNum := by
    rcases Nat.lt_or_ge call.chunkNum 2 with few | two
    · omega
    · obtain ⟨n, more⟩ := Nat.exists_eq_add_of_le' two
      exact .inr (.inr ⟨n, more.symm⟩)
  rcases cases with none | one | ⟨n, more⟩
  · have paced := round.paced
    rw [none] at paced
    obtain ⟨here, there⟩ := paced.free (by omega)
    have nothing : ∀ j, s.posted j = Option.none := by
      intro j
      rcases half_cases 0 j with rfl | rfl
      · exact here
      · exact there rfl
    have same : writeDrain env call s = s := by
      unfold writeDrain
      dsimp only
      rw [writeDrainStep_none (nothing _), writeDrainStep_none (nothing _)]
    rw [same]
    refine .quiet round.inFull.quiet ?_ ?_
    · rintro ⟨k, hidden⟩
      have lt := hidden.inside
      omega
    · exact not_fails (n := 0) (by omega) (by omega) (by omega) (by omega)
  · exact round.drain_one sized one
  · exact round.drain_two sized more (by omega)

variable (env call) in
theorem writeChunks_errno (spec : CoverSpec call.plan total addr) (sized : SizedUpTo call total)
    {w : World} (fresh : w.Fresh) (io : AccIoInfo) {cursor : Cursor} (ofs : Int)
    (begins : spec.At 0 cursor) {s : IoState Cursor}
    (result : writeChunks env call (.start w io cursor ofs) = some s) :
    ErrnoEnd env w.errno (WriteHides env call.chunkNum) (WriteFails env total call.chunkNum)
      s := by
  have start : WriteRound env call spec w.errno 0 (IoState.start w io cursor ofs) :=
    ⟨.start fresh io cursor ofs, .start fresh io cursor ofs, by omega, fun _ => begins,
      fun _ => rfl⟩
  obtain ⟨looped, ended, rfl⟩ := Option.map_eq_some_iff.mp result
  have step : ∀ i s, i < call.chunkNum → i ≤ intMax → WriteRound env call spec w.errno i s →
      (writeBody env call i s).Sat (WriteRound env call spec w.errno (i + 1))
        (WriteStop env total call.chunkNum w.errno) := by
    intro i s lt inside round
    exact round.writeBody sized inside lt
  rcases forLoopUpTo_ends step call.chunkNum 0 _ looped (Nat.zero_add _) (Nat.zero_le _) start
    ended with ⟨inside, round⟩ | stop
  · exact round.drain sized inside
  · exact stop.drain

end

/-! ## The four functions -/

/-- The vector plan leaves nothing over, up to the largest total of a `ssize_t`. -/
def iovCoverSsize (iov : List Iovec) (small : iovTotal iov < 2 ^ 63) :
    CoverSpec (iovPlan iov) (iovTotal iov) (iovAddr iov) where
  At := IovAt iov
  next := fun here pos fits =>
    ⟨(iovPlan_spec small here pos fits).1, (iovPlan_spec small here pos fits).2.1⟩
  covers := fun here pos fits => (iovPlan_spec small here pos fits).2.2

namespace AccCall

theorem hiddenFailure_read {env : Env} {c : AccCall} (read : c.isRead = true) :
    c.HiddenFailure env ↔ ReadHides env c.chunks := by
  simp only [HiddenFailure, dmasUntil, read, if_true, ReadHides]

theorem hiddenFailure_write {env : Env} {c : AccCall} (write : c.isRead = false) :
    c.HiddenFailure env ↔ WriteHides env c.chunks := by
  simp [HiddenFailure, dmasUntil, write, WriteHides]

theorem fails_read {env : Env} {c : AccCall} (read : c.isRead = true) :
    c.Fails env ↔ ReadFails env c.total c.chunks := by
  simp only [AccCall.Fails, read, if_true, ReadFails]

theorem fails_write {env : Env} {c : AccCall} (write : c.isRead = false) :
    c.Fails env ↔ WriteFails env c.total c.chunks := by
  simp [AccCall.Fails, write, WriteFails]

/-- errno tells the truth in two cases: a chunk behind the first fails without any DMA failing,
and errno was 0 at entry; or none does, and `ve_accelerated_io_pre` has left errno as it was or
the call fails. -/
theorem errno_true_iff (env : Env) (pre : PreSuccess) (num : SyscallNum) (fd ofs : Int) {w : World}
    {c : AccCall} {r : IoResult} (fits : c.Fits) (fresh : w.Fresh) (sets : SetsErrno env)
    (result : c.enterInt env pre num fd ofs w = some r) :
    ErrnoTrue env w.errno r ↔ (c.HiddenFailure env → w.errno = 0) ∧
      (¬c.HiddenFailure env → pre.errno = w.errno ∨ c.Fails env) := by
  have entered : ({ w with errno := pre.errno } : World).Fresh := fresh
  cases c with
  | readPread buf count =>
    obtain ⟨s, transferred, rfl⟩ := Option.map_eq_some_iff.mp result
    have ends := readChunks_errno env (bufferCall num fd count) (bufferCall_sizedUpTo num fd fits)
      entered pre.info buf ofs transferred
    rw [hiddenFailure_read rfl, fails_read rfl]
    exact ends.errnoTrue_iff sets w.errno
  | readvPreadv iov =>
    obtain ⟨s, transferred, rfl⟩ := Option.map_eq_some_iff.mp result
    have ends := readChunks_errno env (iovCall (readSyscallType num) fd iov)
      (iovCall_sizedUpTo _ fd fits) entered pre.info (⟨0, 0⟩ : IovCursor) ofs transferred
    rw [hiddenFailure_read rfl, fails_read rfl]
    exact ends.errnoTrue_iff sets w.errno
  | writePwrite buf count =>
    obtain ⟨s, transferred, rfl⟩ := Option.map_eq_some_iff.mp result
    have ends := writeChunks_errno env (bufferCall num fd count) (bufferCover buf count)
      (bufferCall_sizedUpTo num fd fits) entered pre.info ofs rfl transferred
    rw [hiddenFailure_write rfl, fails_write rfl]
    exact ends.errnoTrue_iff sets w.errno
  | writevPwritev iov =>
    obtain ⟨s, transferred, rfl⟩ := Option.map_eq_some_iff.mp result
    have ends := writeChunks_errno env (iovCall (writeSyscallType num) fd iov)
      (iovCoverSsize iov fits) (iovCall_sizedUpTo _ fd fits) entered pre.info ofs
      (iovAt_start iov) transferred
    rw [hiddenFailure_write rfl, fails_write rfl]
    exact ends.errnoTrue_iff sets w.errno

def secondCallFails : Env :=
  { Env.steady parasSize with
    sys := fun k => if k = 1 then .fail 9 else .ok parasSize fun b => (b + 65).toUInt8 }

theorem secondCallFails_setsErrno : SetsErrno secondCallFails := by
  intro k e failed
  by_cases second : k = 1
  · subst second
    obtain rfl := SysOutcome.fail.inj failed
    decide
  · simp [secondCallFails, second] at failed

def errnoFive : World := { World.blank with errno := 5 }

def sampleSuccess (env : Env) (errno : Int) : PreSuccess where
  info := AccIoResources.sample.info env
  errno := errno

def readFrom (env : Env) (errno : Int) (w : World) : Option IoResult :=
  (AccCall.readPread 4096 (parasSize + 1)).enterInt env (sampleSuccess env errno) .read 7 0 w

theorem readFrom_eq (env : Env) (errno : Int) (w : World) :
    readFrom env errno w = some ((AccCall.readPread 4096 (parasSize + 1)).run env
      (AccIoResources.sample.info env) .read 7 0 { w with errno := errno }) :=
  runInt_eq env _ .read 7 0 _
    (show (AccCall.readPread 4096 (parasSize + 1)).Valid from ⟨by decide, by decide⟩) (by decide)

theorem errno_true_iff_second :
    ∃ r, readFrom secondCallFails 5 errnoFive = some r ∧
      (ErrnoTrue secondCallFails 5 r ↔
        ((AccCall.readPread 4096 (parasSize + 1)).HiddenFailure secondCallFails → (5 : Int) = 0) ∧
        (¬(AccCall.readPread 4096 (parasSize + 1)).HiddenFailure secondCallFails →
          (5 : Int) = 5 ∨ (AccCall.readPread 4096 (parasSize + 1)).Fails secondCallFails)) :=
  ⟨_, readFrom_eq secondCallFails 5 errnoFive,
    errno_true_iff secondCallFails (sampleSuccess secondCallFails 5) .read 7 0
      (show (AccCall.readPread 4096 (parasSize + 1)).Fits from
        (by decide : parasSize + 1 < 2 ^ 64))
      (show errnoFive.Fresh from World.blank_fresh) secondCallFails_setsErrno
      (readFrom_eq secondCallFails 5 errnoFive)⟩

/-- The call returns the 4 MB of its first chunk, and errno is 0 where it was 5.  Without any
failure it is what `strtol` has left in `ve_accelerated_io_pre`: ERANGE where it was 0. -/
theorem errno_lost :
    (¬ ∀ r, readFrom secondCallFails 5 errnoFive = some r → ErrnoTrue secondCallFails 5 r) ∧
      ¬ ∀ r, readFrom (.steady parasSize) 34 .blank = some r →
        ErrnoTrue (.steady parasSize) 0 r := by
  constructor
  · intro holds
    have kept := (holds _ (readFrom_eq secondCallFails 5 errnoFive)).success (by decide +kernel)
    exact absurd kept (by decide +kernel)
  · intro holds
    have kept := (holds _ (readFrom_eq (.steady parasSize) 34 .blank)).success (by decide +kernel)
    exact absurd kept (by decide +kernel)

end AccCall

end Libsysve.AccIo
