import Libsysve.AccIo.DmaOutcome
import Libsysve.Vedma.Success

/-!
# Accelerated I/O on the shared ring

A call and the rest of the process take turns on the descriptor ring.  The handles of the
ring are the two of the call, `vedma_handle[j]`, and those of the others; a run of the ring
belongs to the call when what it has of the two handles is what the call has in its log.
The call does not repeat a request that is refused with `-EAGAIN`, so a busy descriptor ends
it with EIO.
-/

set_option autoImplicit false

namespace Libsysve.AccIo

open Libsysve.Vedma

variable {Handle Thread : Type}

/-- The call's part of a step: its requests, and the poll that ends a `ve_dma_wait`. -/
def ownUse (e : DmaEntry (Half ⊕ Handle) Thread) : Option DmaUse :=
  match e.label, e.out with
  | .post dst src size (.inl j), some ret => some (.post j dst src size (ret = 0))
  | .poll (.inl j), some ret => if ret = -eagain then none else some (.wait j ret)
  | _, _ => none

def ownUses (trace : List (DmaEntry (Half ⊕ Handle) Thread)) : List DmaUse :=
  trace.filterMap ownUse

/-- A `ve_dma_post` of the call that finds the next descriptor busy. -/
def PostsOnBusy (e : DmaEntry (Half ⊕ Handle) Thread) : Prop :=
  match e.label with
  | .post _ _ _ (.inl _) => e.before.NextBusy
  | _ => False

theorem ownUses_snoc (trace : List (DmaEntry (Half ⊕ Handle) Thread))
    (e : DmaEntry (Half ⊕ Handle) Thread) :
    ownUses (trace ++ [e]) = ownUses trace ++ (ownUse e).toList := by
  simp only [ownUses, List.filterMap_append, List.filterMap_cons, List.filterMap_nil]
  cases ownUse e <;> rfl

theorem ownUse_cases {e : DmaEntry (Half ⊕ Handle) Thread} {u : DmaUse}
    (own : ownUse e = some u) :
    (∃ dst src size j ret, e.label = .post dst src size (.inl j) ∧ e.out = some ret ∧
      u = .post j dst src size (ret = 0)) ∨
    ∃ j ret, e.label = .poll (.inl j) ∧ e.out = some ret ∧ ret ≠ -eagain ∧ u = .wait j ret := by
  unfold ownUse at own
  split at own
  · next dst src size j ret label out =>
    exact .inl ⟨dst, src, size, j, ret, label, out, (Option.some.inj own).symm⟩
  · next j ret label out =>
    split at own
    · exact absurd own (by simp)
    · next other => exact .inr ⟨j, ret, label, out, other, (Option.some.inj own).symm⟩
  · exact absurd own (by simp)

variable [DecidableEq Handle] [DecidableEq Thread]

structure CallInv (uses : List DmaUse) (s : Ring (Half ⊕ Handle) Thread) : Prop where
  slots : SlotsOk s
  handles : ∀ j, handleMonitor.stateAfter uses j = true → HandleOk s (.inl j)
  codes : ∀ j code, .wait j code ∈ uses → code = 0

variable {s s' : Ring (Half ⊕ Handle) Thread} {uses : List DmaUse}
  {label : DmaLabel (Half ⊕ Handle) Thread} {out : Option Int}

omit [DecidableEq Handle] [DecidableEq Thread] in
theorem handleMonitor_other {o : Half → Bool} {j k : Half} {dst src : BitVec 64}
    {size : BitVec 32} {ret : Int} (other : ¬(ret = 0 ∧ k = j)) :
    handleMonitor.after o (.post j dst src size (ret = 0)) k = o k := by
  by_cases zero : ret = 0
  · have differ : k ≠ j := fun same => other ⟨zero, same⟩
    simp only [handleMonitor, zero, decide_true]
    exact Function.update_of_ne differ ..
  · simp only [handleMonitor, zero, decide_false]

theorem CallInv.step (inv : CallInv uses s) (effect : Effect s label out s')
    (succeeds : Succeeds ⟨s, label, out, s'⟩)
    (safe : handleMonitor.Safe (uses ++ (ownUse ⟨s, label, out, s'⟩).toList)) :
    CallInv (uses ++ (ownUse ⟨s, label, out, s'⟩).toList) s' := by
  have slots := effect.slotsOk inv.slots succeeds
  have kept : ∀ j, handleMonitor.stateAfter uses j = true → HandleOk s' (.inl j) :=
    fun j set => effect.handleOk inv.slots succeeds (inv.handles j set)
  cases own : ownUse ⟨s, label, out, s'⟩ with
  | none =>
    rw [Option.toList_none, List.append_nil]
    exact ⟨slots, kept, inv.codes⟩
  | some u =>
    rw [own, Option.toList_some, Monitor.safe_snoc] at safe
    rw [Option.toList_some]
    rcases ownUse_cases own with
      ⟨dst, src, size, j, ret, rfl, rfl, rfl⟩ | ⟨j, ret, rfl, rfl, some, rfl⟩
    · refine ⟨slots, fun k set => ?_, fun k code member => inv.codes k code (by simpa using member)⟩
      rw [Monitor.stateAfter_snoc] at set
      by_cases accepted : ret = 0 ∧ k = j
      · obtain ⟨rfl, rfl⟩ := accepted
        cases effect with
        | posted _ _ _ _ vacant vacated => exact handleOk_post vacant dst src size (.inl k)
      · rw [handleMonitor_other accepted] at set
        exact kept k set
    · refine ⟨slots, fun k set => ?_, fun k code member => ?_⟩
      · rw [Monitor.stateAfter_snoc] at set
        exact kept k set
      · rcases List.mem_append.mp member with old | last
        · exact inv.codes k code old
        · obtain ⟨rfl, rfl⟩ := DmaUse.wait.inj (List.mem_singleton.mp last)
          exact ((inv.handles k safe.2).poll effect).resolve_right some

omit [DecidableEq Handle] [DecidableEq Thread] in
theorem safe_of_append (more : Option DmaUse)
    (safe : handleMonitor.Safe (uses ++ more.toList)) : handleMonitor.Safe uses := by
  cases more with
  | none => simpa using safe
  | some u => exact ((handleMonitor.safe_snoc _ _).mp safe).1

theorem callInv_run {start final : Ring (Half ⊕ Handle) Thread}
    {trace : List (DmaEntry (Half ⊕ Handle) Thread)} (slots : SlotsOk start)
    (run : (dmaMachine (Half ⊕ Handle) Thread).Run start trace final)
    (succeed : ∀ e ∈ trace, Succeeds e) (safe : handleMonitor.Safe (ownUses trace)) :
    CallInv (ownUses trace) final := by
  induction run with
  | nil =>
    exact ⟨slots, fun j set => absurd set (by simp [ownUses, handleMonitor]),
      fun j code member => absurd member (by simp [ownUses])⟩
  | snoc ran stepped ih =>
    rw [ownUses_snoc] at safe ⊢
    have earlier : ∀ e ∈ _, Succeeds e := fun e member => succeed e (List.mem_append_left _ member)
    exact (ih earlier (safe_of_append _ safe)).step (dmaStep_effect stepped)
      (succeed _ (List.mem_append_right _ (List.mem_singleton_self _))) safe

theorem postsOnBusy_iff {e : DmaEntry (Half ⊕ Handle) Thread}
    (stepped : dmaStep e.before e.label = some (e.out, e.after)) :
    PostsOnBusy e ↔ ∃ j dst src size, ownUse e = some (.post j dst src size false) := by
  obtain ⟨before, label, out, after⟩ := e
  constructor
  · intro busy
    cases label with
    | post dst src size h =>
      cases h with
      | inl j =>
        have answer : out = some (veDmaPost before dst src size (.inl j)).1 :=
          (Prod.mk.inj (Option.some.inj stepped)).1.symm
        have refused : (veDmaPost before dst src size (.inl j)).1 ≠ 0 := fun accepted =>
          (veDmaPost_accepted before dst src size (.inl j)).mp accepted busy
        exact ⟨j, dst, src, size, by simp [ownUse, answer, refused]⟩
      | inr h => exact absurd busy id
    | _ => exact absurd busy id
  · rintro ⟨j, dst, src, size, own⟩
    rcases ownUse_cases own with ⟨dst', src', size', k, ret, rfl, rfl, same⟩ | ⟨_, _, _, _, _, same⟩
    · have answer : ret = (veDmaPost before dst' src' size' (.inl k)).1 :=
        (Option.some.inj (Prod.mk.inj (Option.some.inj stepped)).1).symm
      have refused : ret ≠ 0 := by
        have flag := (DmaUse.post.inj same).2.2.2.2
        simpa using flag.symm
      show before.NextBusy
      by_contra free
      exact refused (answer.trans ((veDmaPost_accepted before dst' src' size' (.inl k)).mpr free))
    · exact absurd same (by simp)

/-- A call fails on a DMA exactly when one of its requests finds the descriptor busy. -/
theorem dmaFailed_iff_busy {start final : Ring (Half ⊕ Handle) Thread}
    {trace : List (DmaEntry (Half ⊕ Handle) Thread)} {log : List IoEvent}
    (run : (dmaMachine (Half ⊕ Handle) Thread).Run start trace final)
    (inv : CallInv (ownUses trace) final) (same : ownUses trace = dmaUses log) :
    dmaFailed log = true ↔ ∃ e ∈ trace, PostsOnBusy e := by
  rw [dmaFailed_eq, ← same, List.any_eq_true]
  constructor
  · rintro ⟨u, member, fails⟩
    obtain ⟨e, here, own⟩ := List.mem_filterMap.mp member
    refine ⟨e, here, (postsOnBusy_iff (run.steps e here)).mpr ?_⟩
    cases u with
    | post j dst src size ok =>
      cases ok with
      | false => exact ⟨j, dst, src, size, own⟩
      | true => exact absurd fails (by simp [DmaUse.fails])
    | wait j code =>
      rw [inv.codes j code member] at fails
      exact absurd fails (by simp [DmaUse.fails])
  · rintro ⟨e, here, busy⟩
    obtain ⟨j, dst, src, size, own⟩ := (postsOnBusy_iff (run.steps e here)).mp busy
    exact ⟨_, List.mem_filterMap.mpr ⟨e, here, own⟩, rfl⟩

/-- While every DMA succeeds and no chunk system call reports an error, a call does not return
EIO if and only if all its requests find the next descriptor free. -/
theorem not_eio_iff_ring_free (env : Env) (io : AccIoInfo) (num : SyscallNum) (fd ofs : Int)
    (w : World) (c : AccCall) (desc : DescIndex → DmaDesc)
    (handle : Half ⊕ Handle → VeDmaHandle) (start final : Ring (Half ⊕ Handle) Thread)
    (earlier trace : List (DmaEntry (Half ⊕ Handle) Thread)) (valid : c.Valid)
    (fresh : w.Fresh)
    (before : (dmaMachine (Half ⊕ Handle) Thread).Run (.initial desc handle) earlier start)
    (during : (dmaMachine (Half ⊕ Handle) Thread).Run start trace final)
    (same : ownUses trace = dmaUses (c.run env io num fd ofs w).world.log)
    (succeed : ∀ e ∈ earlier ++ trace, Succeeds e)
    (noError : NoCallError (c.run env io num fd ofs w).world.log) :
    ¬ReturnsEio (c.run env io num fd ofs w) ↔ ∀ e ∈ trace, ¬PostsOnBusy e := by
  obtain ⟨waits, eio⟩ := c.dmaDecides env io num fd ofs valid fresh
  have slots : SlotsOk start := slotsOk_run (slotsOk_initial desc handle) before
    fun e member => succeed e (List.mem_append_left _ member)
  have inv : CallInv (ownUses trace) final :=
    callInv_run slots during (fun e member => succeed e (List.mem_append_right _ member))
      (same ▸ waits)
  rw [eio noError, dmaFailed_iff_busy during inv same]
  simp only [not_exists, not_and]

/-! ## Runs -/

def freshRing : Ring (Half ⊕ Nat) Nat := .initial (fun _ => ⟨0, 0, 0, 0⟩) fun _ => ⟨0, 0⟩

def writeOne (env : Env) : IoResult :=
  (AccCall.writePwrite 4096 1).run env (AccIoResources.sample.info env) .write 7 0 .blank

def writeOnePost : DmaLabel (Half ⊕ Nat) Nat := .post 0x200000 0x100000 4 (.inl (half 0))

theorem not_eio_iff_ring_free_one :
    ∃ earlier start trace final,
      (dmaMachine (Half ⊕ Nat) Nat).exec freshRing [.postWait 5 0 0 4] = some (earlier, start) ∧
      (dmaMachine (Half ⊕ Nat) Nat).exec start
        [writeOnePost, .hardware 1 2, .poll (.inl 0)] = some (trace, final) ∧
      (¬ReturnsEio (writeOne (.steady 1)) ↔ ∀ e ∈ trace, ¬PostsOnBusy e) := by
  have checked : ((dmaMachine (Half ⊕ Nat) Nat).exec freshRing [.postWait 5 0 0 4]).any
      (fun a => ((dmaMachine (Half ⊕ Nat) Nat).exec a.2
        [writeOnePost, .hardware 1 2, .poll (.inl 0)]).any (fun b =>
          decide (ownUses b.1 = dmaUses (writeOne (.steady 1)).world.log ∧
            ∀ e ∈ a.1 ++ b.1, Succeeds e))) = true := by
    decide +kernel
  simp only [Option.any_eq_true, decide_eq_true_eq, Prod.exists] at checked
  obtain ⟨earlier, start, before, trace, final, during, same, succeed⟩ := checked
  have noError : ∀ c ∈ chunkCalls (writeOne (.steady 1)).world.log, 0 ≤ c.ret := by
    decide +kernel
  exact ⟨earlier, start, trace, final, before, during,
    not_eio_iff_ring_free (.steady 1) _ .write 7 0 .blank (.writePwrite 4096 1) _ _ start final
      earlier trace ⟨by decide, by decide⟩ World.blank_fresh (Machine.exec_run before)
      (Machine.exec_run during) same succeed noError⟩

/-- The surroundings of a call whose first request is refused. -/
def Env.refusing : Env := { Env.steady 1 with postOk := fun _ => false }

/-- 128 requests of others are outstanding when the write makes its own; all of them complete
with code 0. -/
theorem ring_full_eio :
    ¬ ∀ (env : Env) (io : AccIoInfo) (num : SyscallNum) (fd ofs : Int) (w : World) (c : AccCall)
        (desc : DescIndex → DmaDesc) (handle : Half ⊕ Nat → VeDmaHandle)
        (start final : Ring (Half ⊕ Nat) Nat)
        (earlier trace : List (DmaEntry (Half ⊕ Nat) Nat)), c.Valid → w.Fresh →
      (dmaMachine (Half ⊕ Nat) Nat).Run (.initial desc handle) earlier start →
      (dmaMachine (Half ⊕ Nat) Nat).Run start trace final →
      ownUses trace = dmaUses (c.run env io num fd ofs w).world.log →
      (∀ e ∈ earlier ++ trace, Succeeds e) →
      NoCallError (c.run env io num fd ofs w).world.log →
        ¬ReturnsEio (c.run env io num fd ofs w) := by
  intro never
  have checked : ((dmaMachine (Half ⊕ Nat) Nat).exec freshRing
      ((List.range 128).map fun k => .post 0 0 4 (.inr k))).any
      (fun a => ((dmaMachine (Half ⊕ Nat) Nat).exec a.2
        (writeOnePost :: (List.finRange vedmaNdesc).map fun i => .hardware i 2)).any (fun b =>
          decide (ownUses b.1 = dmaUses (writeOne .refusing).world.log ∧
            ∀ e ∈ a.1 ++ b.1, Succeeds e))) = true := by
    decide +kernel
  simp only [Option.any_eq_true, decide_eq_true_eq, Prod.exists] at checked
  obtain ⟨earlier, start, before, trace, final, during, same, succeed⟩ := checked
  have noError : ∀ c ∈ chunkCalls (writeOne .refusing).world.log, 0 ≤ c.ret := by
    decide +kernel
  have eio : (writeOne .refusing).ret = -1 ∧ (writeOne .refusing).world.errno = eio := by
    decide +kernel
  exact never .refusing _ .write 7 0 .blank (.writePwrite 4096 1) _ _ start final earlier trace
    ⟨by decide, by decide⟩ World.blank_fresh (Machine.exec_run before) (Machine.exec_run during)
    same succeed noError eio

end Libsysve.AccIo
