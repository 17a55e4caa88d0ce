import Libsysve.AccIo.ReadPipeline

/-!
# The drain loop of the read functions

At most two chunks are in flight when the main loop ends; `veFindMinPosted` names the older
one.  Each round waits for one of them and, while no DMA failed, copies it out.
-/

set_option autoImplicit false

namespace Libsysve.AccIo

namespace ReadJob

open Libsysve.ForLoop

variable {Cursor : Type} {job : ReadJob Cursor}

variable (job) in
structure Drained (k : Nat) (s s' : IoState Cursor) : Prop where
  posted : s'.posted = s.posted
  outstanding_eq : outstanding s'.world.log =
    Function.update (outstanding s.world.log) (half k) false
  others : ∀ k', half k' ≠ half k → job.InFlight k' s → job.InFlight k' s'

theorem InFlight.drained_wait {k : Nat} {s s' : IoState Cursor} (h : job.InFlight k s)
    (world : s'.world = (s.world.veDmaWait job.env (half k)).2) (posted : s'.posted = s.posted)
    (size : s'.halfSize = s.halfSize) : job.Drained k s s' where
  posted := posted
  outstanding_eq := by rw [world, outstanding_wait]
  others := fun _ other flying =>
    flying.wait_other other h world (congrFun posted _) (congrFun size _)

/-- A round on a chunk in flight while no DMA has failed: the chunk is delivered, or its DMA
failed. -/
theorem InFlight.drain_clean {n m : Nat} {s : IoState Cursor} (h : job.InFlight m s)
    (base : job.Base n m s) (clean : job.Clean n m s) (lt : m < chunkNum job.total)
    (full : ∀ k, k < m → got job.env job.total k = chunkSize job.total k) :
    job.Drained m s (readDrainStep job.env job.call (half m) s) ∧
    (job.Base n (m + 1) (readDrainStep job.env job.call (half m) s) ∧
        job.Clean n (m + 1) (readDrainStep job.env job.call (half m) s) ∨
      job.Base n m (readDrainStep job.env job.call (half m) s) ∧
        job.Aborted (readDrainStep job.env job.call (half m) s)) := by
  have waited : job.Base n m (s.wait job.env (half m)).2 := base.wait h rfl rfl
  have drained : job.Drained m s (s.wait job.env (half m)).2 := h.drained_wait rfl rfl rfl
  obtain ⟨failed, step⟩ | ⟨_, err, _⟩ | ⟨success, _, step⟩ :=
    readDrainStep_some job.env job.call h.posted
  · rw [step]
    refine ⟨⟨drained.posted, drained.outstanding_eq, ?_⟩, .inr ⟨?_, aborted_of_wait failed⟩⟩
    · intro k' other flying
      exact (drained.others k' other flying).frame rfl rfl rfl rfl rfl
    · exact waited.locals rfl rfl rfl rfl
  · rw [clean.dataErr] at err
    exact absurd err (by decide)
  · have idle : outstanding (s.wait job.env (half m)).2.world.log (half m) = false := by
      rw [drained.outstanding_eq, Function.update_self]
    rw [step]
    refine ⟨⟨drained.posted, ?_, ?_⟩, .inl ⟨?_, ?_⟩⟩
    · rw [outstanding_deliver, drained.outstanding_eq]
    · intro k' other flying
      exact (drained.others k' other flying).frame rfl rfl rfl rfl (by rw [outstanding_deliver])
    · exact waited.deliver lt full h.pos h.size idle (h.arrived success)
    · exact (clean.wait success).deliver h.size

theorem InFlight.drain_aborted {n m k : Nat} {s : IoState Cursor} (h : job.InFlight k s)
    (base : job.Base n m s) (failed : job.Aborted s) :
    job.Drained k s (readDrainStep job.env job.call (half k) s) ∧
      job.Base n m (readDrainStep job.env job.call (half k) s) ∧
      job.Aborted (readDrainStep job.env job.call (half k) s) := by
  have waited : job.Base n m (s.wait job.env (half k)).2 := base.wait h rfl rfl
  have drained : job.Drained k s (s.wait job.env (half k)).2 := h.drained_wait rfl rfl rfl
  obtain ⟨bad, step⟩ | ⟨_, _, step⟩ | ⟨_, fine, _⟩ :=
    readDrainStep_some job.env job.call h.posted
  · rw [step]
    refine ⟨⟨drained.posted, drained.outstanding_eq, ?_⟩, ?_, aborted_of_wait bad⟩
    · intro k' other flying
      exact (drained.others k' other flying).frame rfl rfl rfl rfl rfl
    · exact waited.locals rfl rfl rfl rfl
  · rw [step]
    exact ⟨drained, waited, failed.wait⟩
  · rw [failed.dataErr] at fine
    exact absurd fine (by decide)

/-- A transfer that delivered everything its system calls returned. -/
structure Done (n m : Nat) (s : IoState Cursor) : Prop where
  clean : job.Clean n m s
  complete : Complete job.env job.total n
  whole : gotSum job.env job.total m = gotSum job.env job.total n

structure Final (n m : Nat) (s : IoState Cursor) : Prop where
  base : job.Base n m s
  issued : 1 ≤ n
  idle : ∀ j, outstanding s.world.log j = false
  status : job.Done n m s ∨ job.Aborted s ∨ job.FirstFailed n m s

theorem Drained.vacant {k : Nat} {j : Half} {s s' : IoState Cursor}
    (h : job.Drained k s s') (other : j ≠ half k) (vacant : Vacant j s) :
    Vacant j s' := by
  refine vacant.frame (by rw [h.posted]) ?_
  rw [h.outstanding_eq, Function.update_of_ne other]

theorem Slot.drain_aborted {n m : Nat} {j : Half} {s : IoState Cursor} (h : job.Slot j s)
    (base : job.Base n m s) (failed : job.Aborted s) :
    job.Base n m (readDrainStep job.env job.call j s) ∧
      job.Aborted (readDrainStep job.env job.call j s) ∧
      (readDrainStep job.env job.call j s).posted = s.posted ∧
      outstanding (readDrainStep job.env job.call j s).world.log =
        Function.update (outstanding s.world.log) j false ∧
      ∀ j', j' ≠ j → job.Slot j' s → job.Slot j' (readDrainStep job.env job.call j s) := by
  rcases h with vacant | ⟨k, rfl, flying⟩
  · rw [readDrainStep_none vacant.posted]
    refine ⟨base, failed, rfl, ?_, fun _ _ slot => slot⟩
    rw [← vacant.idle, Function.update_eq_self]
  · obtain ⟨drained, base', failed'⟩ := flying.drain_aborted base failed
    refine ⟨base', failed', drained.posted, drained.outstanding_eq, ?_⟩
    rintro j' other (vacant | ⟨k', rfl, flying'⟩)
    · exact .inl (drained.vacant other vacant)
    · exact .inr ⟨k', rfl, drained.others k' other flying'⟩

theorem readDrain_aborted {n m : Nat} {s : IoState Cursor} (base : job.Base n m s)
    (failed : job.Aborted s) (issued : 1 ≤ n) (slots : ∀ j, job.Slot j s) :
    job.Final n m (readDrain job.env job.call s) := by
  obtain ⟨k, first⟩ := half_surjective (veFindMinPosted s.posted)
  have rounds : readDrain job.env job.call s = readDrainStep job.env job.call (half (k + 1))
      (readDrainStep job.env job.call (half k) s) := by
    simp only [readDrain, first, half_add_one]
  obtain ⟨base1, failed1, _, idle1, slots1⟩ := (slots (half k)).drain_aborted base failed
  obtain ⟨base2, failed2, _, idle2, _⟩ :=
    (slots1 (half (k + 1)) (half_succ_ne k) (slots _)).drain_aborted base1 failed1
  rw [rounds]
  refine ⟨base2, issued, idle_of_two (k := k) ?_ ?_, .inr (.inl failed2)⟩
  · rw [idle2, Function.update_of_ne (half_ne_succ k), idle1, Function.update_self]
  · rw [idle2, Function.update_self]

theorem readDrain_rounds {m : Nat} {s : IoState Cursor} (first : job.InFlight m s)
    (second : s.posted (half (m + 1)) = none ∨ s.posted (half (m + 1)) = some (m + 1)) :
    readDrain job.env job.call s = readDrainStep job.env job.call (half (m + 1))
      (readDrainStep job.env job.call (half m) s) := by
  simp only [readDrain, veFindMinPosted_eq first.posted second, half_add_one]

theorem InFlight.lt {k : Nat} {s : IoState Cursor} (h : job.InFlight k s) :
    k < chunkNum job.total :=
  lt_chunkNum (lt_of_lt_of_le h.pos (got_le _ _ _))

theorem readDrain_one {n m : Nat} {s : IoState Cursor} (base : job.Base n m s)
    (ok : job.Clean n m s) (issued : 1 ≤ n) (complete : Complete job.env job.total n)
    (whole : gotSum job.env job.total (m + 1) = gotSum job.env job.total n)
    (full : ∀ k, k < m → got job.env job.total k = chunkSize job.total k)
    (flying : job.InFlight m s) (vacant : Vacant (half (m + 1)) s) :
    ∃ m', job.Final n m' (readDrain job.env job.call s) := by
  obtain ⟨drained, outcome⟩ := flying.drain_clean base ok flying.lt full
  have after : Vacant (half (m + 1)) (readDrainStep job.env job.call (half m) s) :=
    drained.vacant (half_succ_ne m) vacant
  rw [readDrain_rounds flying (.inl vacant.posted), readDrainStep_none after.posted]
  have idle : ∀ j, outstanding
      (readDrainStep job.env job.call (half m) s).world.log j = false :=
    idle_of_two (k := m) (by rw [drained.outstanding_eq, Function.update_self]) after.idle
  rcases outcome with ⟨base', ok'⟩ | ⟨base', failed⟩
  · exact ⟨m + 1, base', issued, idle, .inl ⟨ok', complete, whole⟩⟩
  · exact ⟨m, base', issued, idle, .inr (.inl failed)⟩

theorem readDrain_two {n m : Nat} {s : IoState Cursor} (base : job.Base n m s)
    (ok : job.Clean n m s) (issued : 1 ≤ n) (complete : Complete job.env job.total n)
    (whole : gotSum job.env job.total (m + 2) = gotSum job.env job.total n)
    (full : ∀ k, k < m + 1 → got job.env job.total k = chunkSize job.total k)
    (flying : job.InFlight m s) (next : job.InFlight (m + 1) s) :
    ∃ m', job.Final n m' (readDrain job.env job.call s) := by
  obtain ⟨drained, outcome⟩ :=
    flying.drain_clean base ok flying.lt (fun k klt => full k (by omega))
  have waiting := drained.others (m + 1) (half_succ_ne m) next
  have first : outstanding (readDrainStep job.env job.call (half m) s).world.log (half m) =
      false := by
    rw [drained.outstanding_eq, Function.update_self]
  rw [readDrain_rounds flying (.inr next.posted)]
  -- whatever the second round does, it ends with both halves idle
  have idle : ∀ s', job.Drained (m + 1)
      (readDrainStep job.env job.call (half m) s) s' →
        ∀ j, outstanding s'.world.log j = false := by
    intro s' second
    apply idle_of_two (k := m)
    · rw [second.outstanding_eq, Function.update_of_ne (half_ne_succ m), first]
    · rw [second.outstanding_eq, Function.update_self]
  rcases outcome with ⟨base1, ok1⟩ | ⟨base1, failed⟩
  · obtain ⟨second, outcome2⟩ := waiting.drain_clean base1 ok1 next.lt full
    rcases outcome2 with ⟨base2, ok2⟩ | ⟨base2, failed⟩
    · exact ⟨m + 2, base2, issued, idle _ second, .inl ⟨ok2, complete, whole⟩⟩
    · exact ⟨m + 1, base2, issued, idle _ second, .inr (.inl failed)⟩
  · obtain ⟨second, base2, failed2⟩ := waiting.drain_aborted base1 failed
    exact ⟨m, base2, issued, idle _ second, .inr (.inl failed2)⟩

theorem readDrain_spec {s : IoState Cursor} (h : job.LoopExit s) :
    ∃ n m, job.Final n m (readDrain job.env job.call s) := by
  cases h with
  | aborted n m base failed issued slots =>
    exact ⟨n, m, readDrain_aborted base failed issued slots⟩
  | first n m base failed vacant =>
    have rounds : readDrain job.env job.call s = s := by
      simp only [readDrain, readDrainStep_none (vacant _).posted]
    refine ⟨n, m, ?_⟩
    rw [rounds]
    have one := failed.one
    exact ⟨base, by omega, fun j => (vacant j).idle, .inr (.inr failed)⟩
  | clean n m p base ok issued complete whole order full inFlight vacant =>
    have chunks : p = m ∨ p = m + 1 ∨ p = m + 2 := by omega
    rcases chunks with rfl | rfl | rfl
    · have none : ∀ j, Vacant j s := by
        intro j
        rcases half_cases p j with rfl | rfl
        · exact vacant p (by omega) (by omega)
        · exact vacant (p + 1) (by omega) (by omega)
      have rounds : readDrain job.env job.call s = s := by
        simp only [readDrain, readDrainStep_none (none _).posted]
      refine ⟨n, p, ?_⟩
      rw [rounds]
      exact ⟨base, issued, fun j => (none j).idle, .inl ⟨ok, complete, whole⟩⟩
    · exact ⟨n, readDrain_one base ok issued complete whole (fun k klt => full k (by omega))
        (inFlight m (by omega) (by omega)) (vacant (m + 1) (by omega) (by omega))⟩
    · exact ⟨n, readDrain_two base ok issued complete whole (fun k klt => full k (by omega))
        (inFlight m (by omega) (by omega)) (inFlight (m + 1) (by omega) (by omega))⟩

/-- The whole read transfer, from a call that has done nothing yet. -/
theorem readTransfer_spec (job : ReadJob Cursor) {w : World} {cursor : Cursor} {ofs : Int}
    (pos : 0 < job.total) (fresh : w.Fresh) (errno : w.errno = job.errno)
    (sameOfs : int64 ofs = int64 job.ofs) (delivered : job.Delivered 0 cursor w.user) :
    ∃ n m, job.Final n m (readTransfer job.env job.call (.start w job.io cursor ofs)) := by
  have loop : job.LoopExit
      (forLoop (readBody job.env job.call) job.call.chunkNum 0 (.start w job.io cursor ofs)) :=
    forLoop_rule
      (fun i s lt head => head.readBody lt) (fun s head => head.exit pos)
      _ 0 _ (by rw [job.sized.chunkNum_eq]; omega)
      (head_start w cursor fresh errno ofs sameOfs delivered)
  exact readDrain_spec loop

end ReadJob

end Libsysve.AccIo
