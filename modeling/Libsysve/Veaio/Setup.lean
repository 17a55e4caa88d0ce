import Mathlib.Data.Fintype.Basic
import Libsysve.Veaio.Process

/-!
# VE_SYSVE_AIO2_INIT succeeds once

The lock of `ve_aio_init` is with exactly one thread between the two accesses, on the path of an
error as well, so the setup is tried again after a failure and never after a success.
-/

set_option autoImplicit false

namespace Libsysve.Veaio

variable {Context Thread : Type}

/-- The setup was made, seen from a thread in `ve_aio_init`. -/
def AioPoint.pastSetup : AioPoint Context → Bool
  | .setupUnlock none | .calloc | .mutexInit _ | .initFree _ => true
  | _ => false

structure SetupInv (s : AioProcess Context Thread) : Prop where
  held : ∀ t, (s.point t).inSetup = true → s.veAioSetupLock = true
  unique : ∀ t t', (s.point t).inSetup = true → (s.point t').inSetup = true → t = t'
  taken : s.veAioSetupLock = true → ∃ t, (s.point t).inSetup = true
  counted : s.veAioSetup = s.ready
  once : s.ready ≤ 1
  trying : ∀ t, s.point t = .setupInit → s.ready = 0
  past : ∀ t, (s.point t).pastSetup = true → s.ready = 1
  made : ∀ c, s.allocated c = true → s.ready = 1

theorem setupInv_initial : SetupInv (.initial : AioProcess Context Thread) where
  held _ inside := absurd inside Bool.false_ne_true
  unique _ _ inside := absurd inside Bool.false_ne_true
  taken held := absurd held Bool.false_ne_true
  counted := rfl
  once := Nat.zero_le 1
  trying _ here := absurd here (by simp [AioProcess.initial])
  past _ past := absurd past Bool.false_ne_true
  made _ allocated := absurd allocated Bool.false_ne_true

/-- VE_SYSVE_AIO2_INIT is called only while no call of it has succeeded, and memory for a context
is asked for only after one has. -/
structure SetUpOnce (e : AioProcessEntry Context Thread) : Prop where
  tried : ∀ t ret errno, e.label = .aio2Init t ret errno → e.before.ready = 0
  given : ∀ t c, e.label = .calloc t c → e.before.ready = 1

variable {s s' : AioProcess Context Thread} {t : Thread} {p : AioPoint Context}
  {label : AioProcessLabel Context Thread} {ret : Option (AioProcessReturn Context)}

theorem SetupInv.setContext [DecidableEq Context] (inv : SetupInv s) (c : Context)
    (x : AioState Thread) : SetupInv (s.setContext c x) :=
  ⟨inv.held, inv.unique, inv.taken, inv.counted, inv.once, inv.trying, inv.past, inv.made⟩

theorem SetupInv.setAllocated [DecidableEq Context] (inv : SetupInv s) (c : Context)
    (allocated : Bool) (made : allocated = true → s.ready = 1) :
    SetupInv (s.setAllocated c allocated) := by
  refine ⟨inv.held, inv.unique, inv.taken, inv.counted, inv.once, inv.trying, inv.past, ?_⟩
  intro c' now
  by_cases here : c' = c
  · rw [here, AioProcess.setAllocated_self] at now
    exact made now
  · rw [AioProcess.setAllocated_other here] at now
    exact inv.made c' now

variable [DecidableEq Thread]

theorem SetupInv.setPoint (inv : SetupInv s) (same : p.inSetup = (s.point t).inSetup)
    (trying : p = .setupInit → s.ready = 0) (past : p.pastSetup = true → s.ready = 1) :
    SetupInv (s.setPoint t p) := by
  have inside : ∀ t', ((s.setPoint t p).point t').inSetup = (s.point t').inSetup := by
    intro t'
    rcases s.setPoint_cases t p t' with ⟨rfl, now⟩ | ⟨_, now⟩
    · rw [now, same]
    · rw [now]
  refine ⟨fun t' holds => inv.held t' (inside t' ▸ holds), fun t₁ t₂ holds holds' =>
    inv.unique t₁ t₂ (inside t₁ ▸ holds) (inside t₂ ▸ holds'), fun held => ?_, inv.counted,
    inv.once,
    fun t' here => ?_, fun t' here => ?_, inv.made⟩
  · obtain ⟨t', holds⟩ := inv.taken held
    exact ⟨t', (inside t').trans holds⟩
  · rcases s.setPoint_cases t p t' with ⟨_, now⟩ | ⟨_, now⟩
    · exact trying (now ▸ here)
    · exact inv.trying t' (now ▸ here)
  · rcases s.setPoint_cases t p t' with ⟨_, now⟩ | ⟨_, now⟩
    · exact past (now ▸ here)
    · exact inv.past t' (now ▸ here)

theorem SetupInv.lock (inv : SetupInv s) (free : s.veAioSetupLock = false) :
    SetupInv ({ s with veAioSetupLock := true }.setPoint t .setupTest) := by
  have nobody : ∀ t', (s.point t').inSetup = false := by
    intro t'
    refine eq_false_of_ne_true (fun holds => ?_)
    exact Bool.false_ne_true (free.symm.trans (inv.held t' holds))
  have only : ∀ t', (({ s with veAioSetupLock := true }.setPoint t .setupTest).point t').inSetup =
      true → t' = t := by
    intro t' holds
    by_contra other
    rw [AioProcess.setPoint_other other] at holds
    exact Bool.false_ne_true ((nobody t').symm.trans holds)
  refine ⟨fun _ _ => rfl, fun t₁ t₂ holds holds' => (only t₁ holds).trans (only t₂ holds').symm,
    fun _ => ⟨t, by rw [AioProcess.setPoint_self]; rfl⟩, inv.counted, inv.once, fun t' here => ?_,
    fun t' here => ?_, inv.made⟩
  · have same := only t' (by rw [here]; rfl)
    rw [same, AioProcess.setPoint_self] at here
    exact absurd here (by simp)
  · rcases AioProcess.setPoint_cases _ t .setupTest t' with ⟨_, now⟩ | ⟨_, now⟩
    · rw [now] at here
      exact absurd here Bool.false_ne_true
    · exact inv.past t' (now ▸ here)

theorem SetupInv.unlock (inv : SetupInv s) (holds : (s.point t).inSetup = true)
    (outside : p.inSetup = false) (past : p.pastSetup = true → s.ready = 1) :
    SetupInv ({ s with veAioSetupLock := false }.setPoint t p) := by
  have nobody : ∀ t', (({ s with veAioSetupLock := false }.setPoint t p).point t').inSetup =
      false := by
    intro t'
    rcases AioProcess.setPoint_cases { s with veAioSetupLock := false } t p t' with
      ⟨_, now⟩ | ⟨other, now⟩
    · rw [now, outside]
    · rw [now]
      exact eq_false_of_ne_true (fun holds' => other (inv.unique t' t holds' holds))
  refine ⟨fun t' inside => absurd ((nobody t').symm.trans inside) Bool.false_ne_true,
    fun t' _ inside => absurd ((nobody t').symm.trans inside) Bool.false_ne_true,
    fun held => absurd held Bool.false_ne_true, inv.counted, inv.once, fun t' here => ?_,
    fun t' here => ?_, inv.made⟩
  · have inside := nobody t'
    rw [here] at inside
    exact absurd inside.symm Bool.false_ne_true
  · rcases AioProcess.setPoint_cases { s with veAioSetupLock := false } t p t' with
      ⟨_, now⟩ | ⟨_, now⟩
    · exact past (now ▸ here)
    · exact inv.past t' (now ▸ here)

theorem SetupInv.succeed (inv : SetupInv s) (here : s.point t = .setupInit) :
    SetupInv ({ s with veAioSetup := s.veAioSetup + 1, ready := s.ready + 1 }.setPoint t
      (.setupUnlock none)) := by
  have one : s.ready + 1 = 1 := by rw [inv.trying t here]
  have holds : (s.point t).inSetup = true := by rw [here]; rfl
  have only : ∀ t', (({ s with veAioSetup := s.veAioSetup + 1, ready := s.ready + 1 }.setPoint t
      (.setupUnlock none)).point t').inSetup = true → t' = t := by
    intro t' inside
    by_contra other
    rw [AioProcess.setPoint_other other] at inside
    exact other (inv.unique t' t inside holds)
  refine ⟨fun _ _ => inv.held t holds, fun t₁ t₂ inside inside' =>
    (only t₁ inside).trans (only t₂ inside').symm,
    fun _ => ⟨t, by rw [AioProcess.setPoint_self]; rfl⟩,
    ?_, le_of_eq one, fun t' now => ?_, fun _ _ => one, fun _ _ => one⟩
  · simp only [AioProcess.setPoint, inv.counted]
    exact (Int.natCast_succ _).symm
  · have same := only t' (by rw [now]; rfl)
    rw [same, AioProcess.setPoint_self] at now
    exact absurd now (by simp)

variable [DecidableEq Context]

theorem SetupInv.step (inv : SetupInv s) (effect : ProcessEffect s label ret s') : SetupInv s' := by
  cases effect with
  | nullContext t outside => exact inv
  | host c label ret after stepped host => exact inv.setContext c after
  | call c label ret after t stepped actor here =>
    have outside : (s.point t).inSetup = false := by
      rcases here with here | here <;> rw [here] <;> rfl
    refine (inv.setContext c after).setPoint ?_ (fun now => ?_) (fun now => ?_)
    · refine Eq.trans ?_ outside.symm
      split <;> rfl
    · split at now <;> exact absurd now (by simp)
    · split at now <;> exact absurd now Bool.false_ne_true
  | lockSetup t outside free => exact inv.lock free
  | testSetup t here =>
    by_cases zero : s.veAioSetup = 0
    · rw [if_pos zero]
      refine inv.setPoint (by rw [here]; rfl) (fun _ => ?_) (fun now => ?_)
      · exact Int.ofNat_eq_zero.mp (inv.counted.symm.trans zero)
      · exact absurd now Bool.false_ne_true
    · rw [if_neg zero]
      refine inv.setPoint (by rw [here]; rfl) (fun now => absurd now (by simp)) (fun _ => ?_)
      have some : s.ready ≠ 0 := fun none => zero (inv.counted.trans (by rw [none]; rfl))
      have once := inv.once
      omega
  | aio2InitFail t ret errno here fails =>
    exact inv.setPoint (by rw [here]; rfl) (fun now => absurd now (by simp))
      (fun now => absurd now Bool.false_ne_true)
  | aio2Init t errno here => exact inv.succeed here
  | unlockSetup t here =>
    exact inv.unlock (by rw [here]; rfl) rfl (fun _ => inv.past t (by rw [here]; rfl))
  | unlockSetupFail t errno here =>
    exact inv.unlock (by rw [here]; rfl) rfl (fun now => absurd now Bool.false_ne_true)
  | callocFail t here =>
    exact inv.setPoint (by rw [here]; rfl) (fun now => absurd now (by simp))
      (fun now => absurd now Bool.false_ne_true)
  | calloc t c here free =>
    have ready : s.ready = 1 := inv.past t (by rw [here]; rfl)
    exact ((inv.setAllocated c true fun _ => ready).setContext c _).setPoint
      (by rw [AioProcess.setContext, AioProcess.setAllocated, here]; rfl)
      (fun now => absurd now (by simp)) (fun _ => ready)
  | mutexInitFail t c ret here fails =>
    exact inv.setPoint (by rw [here]; rfl) (fun now => absurd now (by simp))
      (fun _ => inv.past t (by rw [here]; rfl))
  | mutexInit t c here =>
    exact (inv.setContext c _).setPoint (by rw [AioProcess.setContext, here]; rfl)
      (fun now => absurd now (by simp)) (fun now => absurd now Bool.false_ne_true)
  | initFree t c here =>
    exact (inv.setAllocated c false fun never => absurd never Bool.false_ne_true).setPoint
      (by rw [AioProcess.setAllocated, here]; rfl) (fun now => absurd now (by simp))
      (fun now => absurd now Bool.false_ne_true)
  | finiBusy t c outside busy => exact inv
  | fini t c outside idle =>
    exact inv.setPoint (by rw [outside]; rfl) (fun now => absurd now (by simp))
      (fun now => absurd now Bool.false_ne_true)
  | finiFree t c here =>
    exact (inv.setAllocated c false fun never => absurd never Bool.false_ne_true).setPoint
      (by rw [AioProcess.setAllocated, here]; rfl) (fun now => absurd now (by simp))
      (fun now => absurd now Bool.false_ne_true)

theorem SetUpOnce.of_effect (inv : SetupInv s) (effect : ProcessEffect s label ret s') :
    SetUpOnce ⟨s, label, ret, s'⟩ where
  tried t code errno tries := by
    obtain rfl : label = .aio2Init t code errno := tries
    cases effect with
    | aio2InitFail _ _ _ here fails => exact inv.trying t here
    | aio2Init _ _ here => exact inv.trying t here
  given t c asks := by
    obtain rfl : label = .calloc t c := asks
    cases effect with
    | callocFail _ here => exact inv.past t (by rw [here]; rfl)
    | calloc _ c here free => exact inv.past t (by rw [here]; rfl)

theorem set_up_once (trace : List (AioProcessEntry Context Thread))
    (final : AioProcess Context Thread)
    (run : (aioProcessMachine Context Thread).Run .initial trace final) :
    final.ready ≤ 1 ∧ (∀ c, final.allocated c = true → final.ready = 1) ∧
      (final.veAioSetupLock = true ↔ ∃ t, (final.point t).inSetup = true) ∧
      (∀ t t', (final.point t).inSetup = true → (final.point t').inSetup = true → t = t') ∧
      ∀ e ∈ trace, SetUpOnce e := by
  obtain ⟨inv, every⟩ := run.every setupInv_initial (fun s label out s' before stepped =>
    ⟨before.step (aioProcessStep_effect stepped),
      SetUpOnce.of_effect before (aioProcessStep_effect stepped)⟩)
  exact ⟨inv.once, inv.made, ⟨inv.taken, fun ⟨t, inside⟩ => inv.held t inside⟩, inv.unique, every⟩

/-- The first attempt fails, another thread makes the second one and both go on to a context. -/
def retryLabels : List (AioProcessLabel Nat Bool) :=
  [.lockSetup true, .testSetup true, .aio2Init true (-1) 12, .unlockSetup true, .lockSetup false,
    .testSetup false, .aio2Init false 0 0, .unlockSetup false, .lockSetup true, .testSetup true,
    .calloc false (some 100), .unlockSetup true, .calloc true (some 200), .mutexInit true 0]

theorem set_up_once_retried :
    ∃ trace final, (aioProcessMachine Nat Bool).exec .initial retryLabels = some (trace, final) ∧
      trace.map Entry.out = [none, none, none, some (.null 12), none, none, none, none, none, none,
        none, none, none, some (.context 200)] ∧
      final.ready ≤ 1 ∧ ∀ e ∈ trace, SetUpOnce e := by
  have checked : ((aioProcessMachine Nat Bool).exec .initial retryLabels).any (fun done =>
      decide (done.1.map Entry.out = [none, none, none, some (.null 12), none, none, none, none,
        none, none, none, none, none, some (.context 200)])) = true := by
    decide +kernel
  rw [Option.any_eq_true] at checked
  obtain ⟨⟨trace, final⟩, ran, holds⟩ := checked
  obtain ⟨once, _, _, _, every⟩ := set_up_once trace final (Machine.exec_run ran)
  exact ⟨trace, final, ran, of_decide_eq_true holds, once, every⟩

end Libsysve.Veaio
