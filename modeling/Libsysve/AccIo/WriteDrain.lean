import Libsysve.AccIo.WritePipeline

/-!
# The drain loop of the write functions

Each round waits for one chunk; while the transfer is `Going` it hands the chunk to its
system call, in the order of the chunks, and once it has `Ended` it only waits.
-/

set_option autoImplicit false

namespace Libsysve.AccIo

namespace WriteJob

open Libsysve.ByteMemory Libsysve.ForLoop

variable {Cursor : Type} {job : WriteJob Cursor}

variable (job) in
structure Drained (k : Nat) (s s' : IoState Cursor) : Prop where
  io : s'.io = s.io
  posted : s'.posted = s.posted
  outstanding_eq : outstanding s'.world.log =
    Function.update (outstanding s.world.log) (half k) false
  others : ∀ k', half k' ≠ half k → job.InFlight k' s → job.InFlight k' s'

theorem InFlight.drained_wait {k : Nat} {s : IoState Cursor} (h : job.InFlight k s) :
    job.Drained k s (s.wait job.env (half k)).2 where
  io := rfl
  posted := rfl
  outstanding_eq := outstanding_wait job.env s.world (half k)
  others := fun _ other flying => flying.wait_other other h rfl rfl rfl

theorem Drained.locals {k : Nat} {s s' x : IoState Cursor} (h : job.Drained k s s')
    (io : x.io = s'.io) (posted : x.posted = s'.posted) (halfSize : x.halfSize = s'.halfSize)
    (dma : x.world.dma = s'.world.dma) (ve : x.world.ve = s'.world.ve)
    (log : outstanding x.world.log = outstanding s'.world.log) : job.Drained k s x where
  io := io.trans h.io
  posted := posted.trans h.posted
  outstanding_eq := log.trans h.outstanding_eq
  others := fun k' other flying => (h.others k' other flying).frame (congrFun posted _)
    (congrFun halfSize _) (congrFun dma _) (congrFun ve _) (congrFun log _)

theorem Drained.vacant {k : Nat} {j : Half} {s s' : IoState Cursor} (h : job.Drained k s s')
    (other : j ≠ half k) (vacant : Vacant j s) : Vacant j s' := by
  refine vacant.frame (by rw [h.posted]) ?_
  rw [h.outstanding_eq, Function.update_of_ne other]

theorem InFlight.drain_ended {n k : Nat} {s : IoState Cursor} (h : job.InFlight k s)
    (base : job.Base n s) (stopped : job.Ended n s) :
    job.Drained k s (writeDrainStep job.env job.call (half k) s) ∧
      job.Base n (writeDrainStep job.env job.call (half k) s) ∧
      job.Ended n (writeDrainStep job.env job.call (half k) s) := by
  have waited : job.Base n (s.wait job.env (half k)).2 := base.wait h rfl
  obtain ⟨bad, step⟩ | ⟨success, _, step⟩ | ⟨_, fine, _⟩ :=
    writeDrainStep_some job.env job.call h.posted
  · rw [step]
    exact ⟨h.drained_wait.locals rfl rfl rfl rfl rfl rfl, waited.locals rfl rfl rfl,
      .aborted (aborted_of_wait bad)⟩
  · rw [step]
    exact ⟨h.drained_wait, waited, stopped.wait success⟩
  · rw [stopped.dataErr] at fine
    exact absurd fine (by decide)

variable (job) in
structure DrainCalled (n : Nat) (s s' : IoState Cursor) : Prop where
  kept : ∀ k s₀, job.Drained k s₀ s → job.Drained k s₀ s'
  base : job.Base (n + 1) s'
  status : job.Ended (n + 1) s' ∨ job.Going (n + 1) s'

theorem Landed.drainCall {n : Nat} {s : IoState Cursor} (h : job.Landed n s)
    (size : s.halfSize (half n) = chunkSize job.total n) :
    job.DrainCalled n s (writeDrainCall job.env job.call n s) := by
  have called := h.base_called
  have log := h.outstanding_called
  have le := chunkRet_le job.env job.total n
  apply writeDrainCall_rule (show job.called n s = _ from rfl) h.ret.symm size.symm
  · intro failed
    refine ⟨fun k s₀ drained => ?_, h.base_failed, .inl (h.failed failed)⟩
    apply drained.locals
    · exact IoState.firstError_io _ _
    · exact IoState.firstError_posted _ _
    · exact IoState.firstError_halfSize _ _
    · rw [world_failed]
      rfl
    · rw [world_failed]
      rfl
    · rw [world_failed]
      exact log
  · intro nothing
    exact ⟨fun _ _ drained => drained.locals rfl rfl rfl rfl rfl log, called.locals rfl rfl rfl,
      .inl (h.nothing nothing)⟩
  · intro ok short
    exact ⟨fun _ _ drained => drained.locals rfl rfl rfl rfl rfl log, called.locals rfl rfl rfl,
      .inl (h.short ok short)⟩
  · intro _ whole
    exact ⟨fun _ _ drained => drained.locals rfl rfl rfl rfl rfl log, called.locals rfl rfl rfl,
      .inr (h.whole (by omega))⟩

theorem InFlight.drain_going {n : Nat} {s : IoState Cursor} (h : job.InFlight n s)
    (base : job.Base n s) (going : job.Going n s) (io : s.io = job.lastInfo) :
    job.Drained n s (writeDrainStep job.env job.call (half n) s) ∧
      ∃ n', job.Base n' (writeDrainStep job.env job.call (half n) s) ∧
        (job.Ended n' (writeDrainStep job.env job.call (half n) s) ∨
          n' = n + 1 ∧ job.Going n' (writeDrainStep job.env job.call (half n) s)) := by
  have waited : job.Base n (s.wait job.env (half n)).2 := base.wait h rfl
  obtain ⟨bad, step⟩ | ⟨_, err, _⟩ | ⟨success, _, step⟩ :=
    writeDrainStep_some job.env job.call h.posted
  · rw [step]
    exact ⟨h.drained_wait.locals rfl rfl rfl rfl rfl rfl, n, waited.locals rfl rfl rfl,
      .inl (.aborted (aborted_of_wait bad))⟩
  · rw [going.dataErr] at err
    exact absurd err (by decide)
  · have landed : job.Landed n (s.wait job.env (half n)).2 := by
      refine ⟨h.lt, waited, going.wait success, io, h.arrived success, ?_⟩
      rw [h.drained_wait.outstanding_eq, Function.update_self]
    have called := landed.drainCall h.size
    rw [step]
    exact ⟨called.kept n s h.drained_wait, n + 1, called.base,
      called.status.imp_right fun on => ⟨rfl, on⟩⟩

structure Final (n : Nat) (s : IoState Cursor) : Prop where
  base : job.Base n s
  idle : ∀ j, outstanding s.world.log j = false
  status : (n = chunkNum job.total ∧ job.Going n s) ∨ job.Ended n s

theorem Slot.drain_ended {n : Nat} {j : Half} {s : IoState Cursor} (h : job.Slot j s)
    (base : job.Base n s) (stopped : job.Ended n s) :
    job.Base n (writeDrainStep job.env job.call j s) ∧
      job.Ended n (writeDrainStep job.env job.call j s) ∧
      outstanding (writeDrainStep job.env job.call j s).world.log =
        Function.update (outstanding s.world.log) j false ∧
      ∀ j', j' ≠ j → job.Slot j' s → job.Slot j' (writeDrainStep job.env job.call j s) := by
  rcases h with vacant | ⟨k, rfl, flying⟩
  · rw [writeDrainStep_none vacant.posted]
    refine ⟨base, stopped, ?_, fun _ _ slot => slot⟩
    rw [← vacant.idle, Function.update_eq_self]
  · obtain ⟨drained, base', stopped'⟩ := flying.drain_ended base stopped
    refine ⟨base', stopped', drained.outstanding_eq, ?_⟩
    rintro j' other (vacant | ⟨k', rfl, flying'⟩)
    · exact .inl (drained.vacant other vacant)
    · exact .inr ⟨k', rfl, drained.others k' other flying'⟩

theorem writeDrain_ended {n : Nat} {s : IoState Cursor} (base : job.Base n s)
    (stopped : job.Ended n s) (slots : ∀ j, job.Slot j s) :
    job.Final n (writeDrain job.env job.call s) := by
  obtain ⟨k, first⟩ := half_surjective (veFindMinPosted s.posted)
  have rounds : writeDrain job.env job.call s = writeDrainStep job.env job.call (half (k + 1))
      (writeDrainStep job.env job.call (half k) s) := by
    simp only [writeDrain, first, half_add_one]
  obtain ⟨base1, stopped1, idle1, slots1⟩ := (slots (half k)).drain_ended base stopped
  obtain ⟨base2, stopped2, idle2, _⟩ :=
    (slots1 (half (k + 1)) (half_succ_ne k) (slots _)).drain_ended base1 stopped1
  rw [rounds]
  refine ⟨base2, idle_of_two (k := k) ?_ ?_, .inr stopped2⟩
  · rw [idle2, Function.update_of_ne (half_ne_succ k), idle1, Function.update_self]
  · rw [idle2, Function.update_self]

theorem writeDrain_going {n : Nat} {s : IoState Cursor} (base : job.Base n s)
    (going : job.Going n s) (io : s.io = job.lastInfo) (last : n = chunkNum job.total - 2)
    (pos : 0 < job.total)
    (inFlight : ∀ k, n ≤ k → k < chunkNum job.total → job.InFlight k s)
    (vacant : ∀ k, chunkNum job.total ≤ k → k < 2 → Vacant (half k) s) :
    ∃ n', job.Final n' (writeDrain job.env job.call s) := by
  have chunks := chunkNum_pos pos
  have flying := inFlight n (le_refl n) (by omega)
  obtain ⟨drained, n1, base1, outcome⟩ := flying.drain_going base going io
  have idle1 : outstanding (writeDrainStep job.env job.call (half n) s).world.log (half n) =
      false := by
    rw [drained.outstanding_eq, Function.update_self]
  by_cases single : chunkNum job.total = n + 1
  · -- one chunk in all
    have zero : n = 0 := by omega
    have other : Vacant (half (n + 1)) s := vacant (n + 1) (by omega) (by omega)
    have after : Vacant (half (n + 1)) (writeDrainStep job.env job.call (half n) s) :=
      drained.vacant (half_succ_ne n) other
    have rounds : writeDrain job.env job.call s =
        writeDrainStep job.env job.call (half n) s := by
      simp only [writeDrain, veFindMinPosted_eq flying.posted (.inl other.posted), half_add_one,
        writeDrainStep_none after.posted]
    rw [rounds]
    refine ⟨n1, base1, idle_of_two (k := n) idle1 after.idle, ?_⟩
    rcases outcome with stopped | ⟨rfl, going1⟩
    · exact .inr stopped
    · exact .inl ⟨single.symm, going1⟩
  · have next := inFlight (n + 1) (by omega) (by omega)
    have waiting := drained.others (n + 1) (half_succ_ne n) next
    have rounds : writeDrain job.env job.call s =
        writeDrainStep job.env job.call (half (n + 1))
          (writeDrainStep job.env job.call (half n) s) := by
      simp only [writeDrain, veFindMinPosted_eq flying.posted (.inr next.posted), half_add_one]
    rw [rounds]
    have idle : ∀ x, job.Drained (n + 1) (writeDrainStep job.env job.call (half n) s) x →
        ∀ j, outstanding x.world.log j = false := by
      intro x second
      apply idle_of_two (k := n)
      · rw [second.outstanding_eq, Function.update_of_ne (half_ne_succ n), idle1]
      · rw [second.outstanding_eq, Function.update_self]
    rcases outcome with stopped | ⟨rfl, going1⟩
    · obtain ⟨second, base2, stopped2⟩ := waiting.drain_ended base1 stopped
      exact ⟨n1, base2, idle _ second, .inr stopped2⟩
    · obtain ⟨second, n2, base2, outcome2⟩ :=
        waiting.drain_going base1 going1 (drained.io.trans io)
      refine ⟨n2, base2, idle _ second, ?_⟩
      rcases outcome2 with stopped2 | ⟨rfl, going2⟩
      · exact .inr stopped2
      · exact .inl ⟨by omega, going2⟩

/-- The whole write transfer, from a call that has done nothing yet. -/
theorem writeTransfer_spec (job : WriteJob Cursor) {w : World} {cursor : Cursor} {ofs : Int}
    (pos : 0 < job.total) (fresh : w.Fresh) (user : w.user = job.user)
    (errno : w.errno = job.errno) (sameOfs : int64 ofs = int64 job.ofs)
    (at_start : job.cover.At 0 cursor) :
    ∃ n, job.Final n (writeTransfer job.env job.call (.start w job.io cursor ofs)) := by
  have loop : job.LoopExit
      (forLoop (writeBody job.env job.call) job.call.chunkNum 0 (.start w job.io cursor ofs)) :=
    forLoop_rule (fun i s lt head => head.writeBody lt) (fun s head => head.exit)
      _ 0 _ (by rw [job.sized.chunkNum_eq]; omega)
      (head_start fresh user errno sameOfs at_start)
  cases loop with
  | going n base ok last io inFlight vacant =>
    exact writeDrain_going base ok io last pos inFlight vacant
  | ended n base stopped slots => exact ⟨n, writeDrain_ended base stopped slots⟩

end WriteJob

end Libsysve.AccIo
