import Libsysve.AccIo.Transfer

/-!
# The ways through the loop bodies

One rule for each loop body and each round of the "Last 8MB" loops: what has to be shown
about the state it breaks with or goes on with, for every way through it.
-/

set_option autoImplicit false

namespace Libsysve.AccIo

open Libsysve.ForLoop

section
variable {Cursor : Type} {env : Env} {call : IoCall Cursor} {i : Nat} {s : IoState Cursor}
variable {cont exit : IoState Cursor → Prop}

/-- `asked` is the state after the chunk system call, `posted` after the request for it. -/
theorem readIssue_rule {asked posted : IoState Cursor}
    (isAsked : asked = s.readSysCall env call (half i))
    (isPosted : posted = (asked.post env .vhToVe (half i) (asked.halfSize (half i))).2)
    (failed : asked.halfSize (half i) = -1 →
      exit (((asked.firstError (i = 0)).clearErrno).unpost (half i)))
    (nothing : asked.halfSize (half i) = 0 → exit (asked.unpost (half i)))
    (refused : asked.halfSize (half i) ≠ -1 → asked.halfSize (half i) ≠ 0 →
      env.postOk asked.world.postCount = false →
      exit (posted.skipOfs.dmaError.unpost (half i)))
    (short : asked.halfSize (half i) ≠ -1 → asked.halfSize (half i) ≠ 0 →
      env.postOk asked.world.postCount = true →
      asked.halfSize (half i) < asked.transferSize → exit (posted.recordRead i))
    (full : asked.halfSize (half i) ≠ -1 → env.postOk asked.world.postCount = true →
      asked.transferSize ≤ asked.halfSize (half i) → cont (posted.recordRead i)) :
    (readIssue env call i s).Sat cont exit := by
  unfold readIssue
  dsimp only
  rw [← isAsked, ← isPosted]
  by_cases minus : asked.halfSize (half i) = -1
  · rw [if_pos minus]
    exact failed minus
  · rw [if_neg minus]
    by_cases zero : asked.halfSize (half i) = 0
    · rw [if_pos zero]
      exact nothing zero
    · rw [if_neg zero]
      cases answer : env.postOk asked.world.postCount with
      | false =>
        have no : (asked.post env .vhToVe (half i) (asked.halfSize (half i))).1 = false := answer
        rw [if_pos no]
        exact refused minus zero answer
      | true =>
        have yes : ¬(asked.post env .vhToVe (half i) (asked.halfSize (half i))).1 = false := by
          have ok : (asked.post env .vhToVe (half i) (asked.halfSize (half i))).1 = true := answer
          rw [ok]
          decide
        rw [if_neg yes]
        have sizes : (posted.recordRead i).transferSize = asked.transferSize ∧
            (posted.recordRead i).halfSize (half i) = asked.halfSize (half i) := by
          rw [isPosted]
          exact ⟨rfl, rfl⟩
        rw [sizes.1, sizes.2]
        by_cases less : asked.halfSize (half i) < asked.transferSize
        · rw [if_pos less]
          exact short minus zero answer less
        · rw [if_neg less]
          exact full minus answer (by omega)

theorem readBody_rule {ready waited : IoState Cursor} (isReady : ready = s.prepare env call i)
    (isWaited : waited = (ready.wait env (half i)).2)
    (first : i < buffNparas → (readIssue env call i ready).Sat cont exit)
    (waitError : buffNparas ≤ i → 1 ≤ env.waitCode ready.world.waitCount →
      exit (waited.dmaError.unpost (half i)))
    (later : buffNparas ≤ i → env.waitCode ready.world.waitCount = 0 →
      (readIssue env call i (waited.deliver call.plan (half i))).Sat cont exit) :
    (readBody env call i s).Sat cont exit := by
  unfold readBody
  dsimp only
  rw [← isReady, ← isWaited]
  by_cases second : buffNparas ≤ i
  · rw [if_pos second]
    have code : (ready.wait env (half i)).1 = env.waitCode ready.world.waitCount := rfl
    rw [code]
    by_cases bad : env.waitCode ready.world.waitCount ≥ 1
    · rw [if_pos bad]
      exact waitError second bad
    · rw [if_neg bad]
      exact later second (by omega)
  · rw [if_neg second]
    exact first (by omega)

theorem readDrainStep_none {index : Half} (none : s.posted index = none) :
    readDrainStep env call index s = s := by
  unfold readDrainStep
  rw [none]

theorem readDrainStep_some (env : Env) (call : IoCall Cursor) {index : Half} {k : Nat}
    (posted : s.posted index = some k) :
    (1 ≤ env.waitCode s.world.waitCount ∧
        readDrainStep env call index s = (s.wait env (half k)).2.dmaError) ∨
      (env.waitCode s.world.waitCount = 0 ∧ s.dataErr = true ∧
        readDrainStep env call index s = (s.wait env (half k)).2) ∨
      env.waitCode s.world.waitCount = 0 ∧ s.dataErr = false ∧
        readDrainStep env call index s =
          (s.wait env (half k)).2.deliver call.plan (half k) := by
  have code : (s.wait env (half k)).1 = env.waitCode s.world.waitCount := rfl
  have kept : (s.wait env (half k)).2.dataErr = s.dataErr := rfl
  unfold readDrainStep
  rw [posted]
  dsimp only
  rw [code]
  by_cases bad : env.waitCode s.world.waitCount ≥ 1
  · rw [if_pos bad]
    exact .inl ⟨bad, rfl⟩
  · have fine : env.waitCode s.world.waitCount = 0 := by omega
    rw [if_neg bad, kept]
    cases err : s.dataErr with
    | true => exact .inr (.inl ⟨fine, rfl, rfl⟩)
    | false => exact .inr (.inr ⟨fine, rfl, rfl⟩)

theorem readDrainStep_rule {index : Half} (none : s.posted index = none → exit s)
    (waitError : ∀ k, s.posted index = some k → 1 ≤ env.waitCode s.world.waitCount →
      exit (s.wait env (half k)).2.dmaError)
    (dropped : ∀ k, s.posted index = some k → env.waitCode s.world.waitCount = 0 →
      s.dataErr = true → exit (s.wait env (half k)).2)
    (delivered : ∀ k, s.posted index = some k → env.waitCode s.world.waitCount = 0 →
      s.dataErr = false → exit ((s.wait env (half k)).2.deliver call.plan (half k))) :
    exit (readDrainStep env call index s) := by
  cases posted : s.posted index with
  | none =>
    rw [readDrainStep_none posted]
    exact none posted
  | some k =>
    obtain ⟨bad, step⟩ | ⟨fine, err, step⟩ | ⟨fine, err, step⟩ :=
      readDrainStep_some env call posted
    · rw [step]
      exact waitError k posted bad
    · rw [step]
      exact dropped k posted fine err
    · rw [step]
      exact delivered k posted fine err

theorem writeIssue_rule {filled posted : IoState Cursor}
    (isFilled : filled = (s.fill call.plan (half i)).2)
    (isPosted : posted = (filled.post env .veToVh (half i) filled.transferSize).2)
    (refused : env.postOk filled.world.postCount = false →
      exit (posted.dmaError.unpost (half i)))
    (accepted : env.postOk filled.world.postCount = true →
      cont (posted.recordWrite i (posted.transferSize - (s.fill call.plan (half i)).1))) :
    (writeIssue env call i s).Sat cont exit := by
  unfold writeIssue
  dsimp only
  rw [← isFilled, ← isPosted]
  cases answer : env.postOk filled.world.postCount with
  | false =>
    have no : (filled.post env .veToVh (half i) filled.transferSize).1 = false := answer
    rw [if_pos no]
    exact refused answer
  | true =>
    have yes : ¬(filled.post env .veToVh (half i) filled.transferSize).1 = false := by
      have ok : (filled.post env .veToVh (half i) filled.transferSize).1 = true := answer
      rw [ok]
      decide
    rw [if_neg yes]
    exact accepted answer

theorem writeFlush_rule {asked : IoState Cursor} {ret : Int}
    (isAsked : asked = (s.writeSysCall env call (half i) parasSize).2)
    (isRet : ret = (env.sys s.world.sysCount).ret parasSize)
    (failed : ret = -1 →
      exit ((((asked.firstError (asked.posted (half i) = some 0)).clearErrno).setDataErr).unpost
        (half i)))
    (nothing : ret = 0 → exit (asked.setDataErr.unpost (half i)))
    (short : ret ≠ -1 → ret < parasSize →
      exit ((asked.accept ret).setDataErr.unpost (half i)))
    (full : ret ≠ -1 → parasSize ≤ ret →
      (writeIssue env call i (asked.accept ret)).Sat cont exit) :
    (writeFlush env call i s).Sat cont exit := by
  have answer : (s.writeSysCall env call (half i) parasSize).1 = ret := isRet.symm
  unfold writeFlush
  dsimp only
  rw [← isAsked, answer]
  by_cases minus : ret = -1
  · rw [if_pos minus]
    exact failed minus
  · rw [if_neg minus]
    by_cases zero : ret = 0
    · rw [if_pos zero]
      exact nothing zero
    · rw [if_neg zero]
      by_cases less : ret < parasSize
      · rw [if_pos less]
        exact short minus less
      · rw [if_neg less]
        exact full minus (by omega)

theorem writeBody_rule {ready waited : IoState Cursor} (isReady : ready = s.prepare env call i)
    (isWaited : waited = (ready.wait env (half i)).2)
    (first : i < buffNparas → (writeIssue env call i ready).Sat cont exit)
    (waitError : buffNparas ≤ i → 1 ≤ env.waitCode ready.world.waitCount →
      exit (waited.dmaError.unpost (half i)))
    (later : buffNparas ≤ i → env.waitCode ready.world.waitCount = 0 →
      (writeFlush env call i waited).Sat cont exit) :
    (writeBody env call i s).Sat cont exit := by
  unfold writeBody
  dsimp only
  rw [← isReady, ← isWaited]
  by_cases second : buffNparas ≤ i
  · rw [if_pos second]
    have code : (ready.wait env (half i)).1 = env.waitCode ready.world.waitCount := rfl
    rw [code]
    by_cases bad : env.waitCode ready.world.waitCount ≥ 1
    · rw [if_pos bad]
      exact waitError second bad
    · rw [if_neg bad]
      exact later second (by omega)
  · rw [if_neg second]
    exact first (by omega)

def writeDrainCall (env : Env) (call : IoCall Cursor) (k : Nat) (s : IoState Cursor) :
    IoState Cursor :=
  let (writeInSize, s) := s.writeSysCall env call (half k) (s.halfSize (half k))
  if writeInSize = -1 then
    (s.firstError (k = 0)).clearErrno.setDataErr
  else if writeInSize = 0 then
    s.setDataErr
  else
    let s := s.accept writeInSize
    if s.halfSize (half k) > writeInSize then s.setDataErr else s

theorem writeDrainCall_rule {k : Nat} {size ret : Int} {asked : IoState Cursor}
    (isAsked : asked = (s.writeSysCall env call (half k) size).2)
    (isRet : ret = (env.sys s.world.sysCount).ret size)
    (isSize : size = s.halfSize (half k))
    (failed : ret = -1 → exit (((asked.firstError (k = 0)).clearErrno).setDataErr))
    (nothing : ret = 0 → exit asked.setDataErr)
    (short : ret ≠ -1 → ret < size → exit (asked.accept ret).setDataErr)
    (full : ret ≠ -1 → size ≤ ret → exit (asked.accept ret)) :
    exit (writeDrainCall env call k s) := by
  have answer : (s.writeSysCall env call (half k) size).1 = ret := isRet.symm
  have kept : (asked.accept ret).halfSize (half k) = size := by
    rw [isAsked, isSize]
    rfl
  unfold writeDrainCall
  dsimp only
  rw [← isSize, ← isAsked, answer, kept]
  by_cases minus : ret = -1
  · rw [if_pos minus]
    exact failed minus
  · rw [if_neg minus]
    by_cases zero : ret = 0
    · rw [if_pos zero]
      exact nothing zero
    · rw [if_neg zero]
      by_cases less : ret < size
      · rw [if_pos less]
        exact short minus less
      · rw [if_neg less]
        exact full minus (by omega)

theorem writeDrainStep_none {index : Half} (none : s.posted index = none) :
    writeDrainStep env call index s = s := by
  unfold writeDrainStep
  rw [none]

theorem writeDrainStep_some (env : Env) (call : IoCall Cursor) {index : Half} {k : Nat}
    (posted : s.posted index = some k) :
    (1 ≤ env.waitCode s.world.waitCount ∧
        writeDrainStep env call index s = (s.wait env (half k)).2.dmaError) ∨
      (env.waitCode s.world.waitCount = 0 ∧ s.dataErr = true ∧
        writeDrainStep env call index s = (s.wait env (half k)).2) ∨
      env.waitCode s.world.waitCount = 0 ∧ s.dataErr = false ∧
        writeDrainStep env call index s = writeDrainCall env call k (s.wait env (half k)).2 := by
  have code : (s.wait env (half k)).1 = env.waitCode s.world.waitCount := rfl
  have kept : (s.wait env (half k)).2.dataErr = s.dataErr := rfl
  unfold writeDrainStep
  rw [posted]
  dsimp only
  rw [code]
  by_cases bad : env.waitCode s.world.waitCount ≥ 1
  · rw [if_pos bad]
    exact .inl ⟨bad, rfl⟩
  · have fine : env.waitCode s.world.waitCount = 0 := by omega
    rw [if_neg bad, kept]
    cases err : s.dataErr with
    | true => exact .inr (.inl ⟨fine, rfl, rfl⟩)
    | false => exact .inr (.inr ⟨fine, rfl, rfl⟩)

theorem writeDrainStep_rule {index : Half} (none : s.posted index = none → exit s)
    (waitError : ∀ k, s.posted index = some k → 1 ≤ env.waitCode s.world.waitCount →
      exit (s.wait env (half k)).2.dmaError)
    (dropped : ∀ k, s.posted index = some k → env.waitCode s.world.waitCount = 0 →
      s.dataErr = true → exit (s.wait env (half k)).2)
    (issued : ∀ k, s.posted index = some k → env.waitCode s.world.waitCount = 0 →
      s.dataErr = false → exit (writeDrainCall env call k (s.wait env (half k)).2)) :
    exit (writeDrainStep env call index s) := by
  cases posted : s.posted index with
  | none =>
    rw [writeDrainStep_none posted]
    exact none posted
  | some k =>
    obtain ⟨bad, step⟩ | ⟨fine, err, step⟩ | ⟨fine, err, step⟩ :=
      writeDrainStep_some env call posted
    · rw [step]
      exact waitError k posted bad
    · rw [step]
      exact dropped k posted fine err
    · rw [step]
      exact issued k posted fine err

/-! ## The two rounds of the "Last 8MB" loops -/

theorem readDrainStep_posted (index : Half) :
    (readDrainStep env call index s).posted = s.posted := by
  cases posted : s.posted index with
  | none => rw [readDrainStep_none posted]
  | some k =>
    obtain ⟨-, step⟩ | ⟨-, -, step⟩ | ⟨-, -, step⟩ := readDrainStep_some env call posted
    · rw [step]
      rfl
    · rw [step]
      rfl
    · rw [step]
      rfl

theorem writeDrainCall_posted (k : Nat) (s : IoState Cursor) :
    (writeDrainCall env call k s).posted = s.posted := by
  unfold writeDrainCall
  dsimp only
  split
  · exact IoState.firstError_posted _ _
  · split
    · rfl
    · split
      · rfl
      · rfl

theorem writeDrainStep_posted (index : Half) :
    (writeDrainStep env call index s).posted = s.posted := by
  cases posted : s.posted index with
  | none => rw [writeDrainStep_none posted]
  | some k =>
    obtain ⟨-, step⟩ | ⟨-, -, step⟩ | ⟨-, -, step⟩ := writeDrainStep_some env call posted
    · rw [step]
      rfl
    · rw [step]
      rfl
    · rw [step, writeDrainCall_posted]
      rfl

theorem readDrain_eq {n : Nat} (min : veFindMinPosted s.posted = half n) :
    readDrain env call s =
      readDrainStep env call (half (n + 1)) (readDrainStep env call (half n) s) := by
  unfold readDrain
  dsimp only
  rw [min, half_add_one]

theorem writeDrain_eq {n : Nat} (min : veFindMinPosted s.posted = half n) :
    writeDrain env call s =
      writeDrainStep env call (half (n + 1)) (writeDrainStep env call (half n) s) := by
  unfold writeDrain
  dsimp only
  rw [min, half_add_one]

end

end Libsysve.AccIo
