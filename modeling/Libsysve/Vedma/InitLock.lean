import Mathlib.Data.Fintype.Basic
import Libsysve.Vedma.Init

/-!
# When `init_lock` is left behind

At most one thread of a process has the lock, in every run.  A call whose mapping fails
returns with the lock, and a fork while another thread has it copies a lock that nobody in
the child will release.  Without the two, a taken lock always has its thread.
-/

set_option autoImplicit false

namespace Libsysve.Vedma

variable {Process Thread : Type}

/-- At most one thread has the lock, and it maps the descriptors only while the flag is
clear. -/
structure MutexInv (proc : InitProcess Thread) : Prop where
  held : ∀ t, (proc.call t).holdsLock = true → proc.initLock = true
  unique : ∀ t t', (proc.call t).holdsLock = true → (proc.call t').holdsLock = true → t = t'
  mapping : ∀ t, proc.call t = .mapping → proc.veDmaInitialized = false

def Taken (proc : InitProcess Thread) : Prop :=
  proc.initLock = true → ∃ t, (proc.call t).holdsLock = true

theorem MutexInv.fewer {proc proc' : InitProcess Thread} (inv : MutexInv proc)
    (lock : proc'.initLock = proc.initLock)
    (fewer : ∀ t, (proc'.call t).holdsLock = true → (proc.call t).holdsLock = true)
    (mapping : ∀ t, proc'.call t = .mapping → proc'.veDmaInitialized = false) :
    MutexInv proc' where
  held t holds := lock.trans (inv.held t (fewer t holds))
  unique t t' holds holds' := inv.unique t t' (fewer t holds) (fewer t' holds')
  mapping := mapping

def observeFailed [DecidableEq Process] (failed : Process → Bool) (e : InitEntry Process Thread) :
    Process → Bool :=
  match e.label with
  | .map p _ ret _ _ => Function.update failed p (ret != 0)
  | .fork _ _ child => Function.update failed child false
  | _ => failed

theorem observeFailed_other [DecidableEq Process] {s s' : InitState Process Thread}
    {label : InitLabel Process Thread} {out : Option Int} {failed : Process → Bool} {p : Process}
    (other : p ≠ label.process) (inside : label.forks = false) :
    observeFailed failed ⟨s, label, out, s'⟩ p = failed p := by
  cases label with
  | map q t ret desc ctrl => exact Function.update_of_ne other ..
  | fork q t child => exact absurd inside (by simp [InitLabel.forks])
  | _ => rfl

def InitState.initial [DecidableEq Process] (p : Process) (vars : VedmaVars) (ctrl : BitVec 64) :
    InitState Process Thread :=
  Function.update (fun _ => none) p (some
    { initLock := false
      veDmaInitialized := false
      vedmaVars := vars
      vedmaCtrl := ctrl
      call := fun _ => .outside })

theorem initial_found [DecidableEq Process] {p q : Process} {vars : VedmaVars} {ctrl : BitVec 64}
    {proc : InitProcess Thread} (found : InitState.initial p vars ctrl q = some proc) :
    proc = { initLock := false, veDmaInitialized := false, vedmaVars := vars,
             vedmaCtrl := ctrl, call := fun _ => .outside } := by
  by_cases same : q = p
  · rw [same, InitState.initial, Function.update_self] at found
    exact (Option.some.inj found).symm
  · rw [InitState.initial, Function.update_of_ne same] at found
    exact absurd found (by simp)

structure InitInv (failed : Process → Bool) (s : InitState Process Thread) : Prop where
  mutex : ∀ p proc, s p = some proc → MutexInv proc
  flag : ∀ p proc, s p = some proc → failed p = true → proc.veDmaInitialized = false

theorem initInv_initial [DecidableEq Process] (p : Process) (vars : VedmaVars) (ctrl : BitVec 64) :
    InitInv (fun _ => false) (InitState.initial p vars ctrl : InitState Process Thread) where
  mutex q proc found := by
    rw [initial_found found]
    exact ⟨fun _ holds => absurd holds Bool.false_ne_true,
      fun _ _ holds => absurd holds Bool.false_ne_true, fun _ _ => rfl⟩
  flag q proc found := by simp

variable [DecidableEq Thread]

theorem InitProcess.setCall_self {s : InitProcess Thread} {t : Thread} {c : InitCall} :
    (s.setCall t c).call t = c :=
  Function.update_self ..

theorem InitProcess.setCall_other {s : InitProcess Thread} {t t' : Thread} {c : InitCall}
    (other : t' ≠ t) : (s.setCall t c).call t' = s.call t' :=
  Function.update_of_ne other ..

theorem MutexInv.setCall {s : InitProcess Thread} {t : Thread} {c : InitCall} (inv : MutexInv s)
    (fewer : c.holdsLock = true → (s.call t).holdsLock = true)
    (mapping : c = .mapping → s.veDmaInitialized = false) : MutexInv (s.setCall t c) := by
  refine inv.fewer rfl (fun t' holds => ?_) (fun t' maps => ?_)
  · by_cases here : t' = t
    · rw [here, InitProcess.setCall_self] at holds
      exact here ▸ fewer holds
    · rwa [InitProcess.setCall_other here] at holds
  · by_cases here : t' = t
    · rw [here, InitProcess.setCall_self] at maps
      exact mapping maps
    · rw [InitProcess.setCall_other here] at maps
      exact inv.mapping t' maps

theorem MutexInv.locked {s : InitProcess Thread} {t : Thread} (inv : MutexInv s)
    (free : s.initLock = false) :
    MutexInv { s.setCall t .locked with initLock := true } := by
  have only : ∀ t', ((s.setCall t .locked).call t').holdsLock = true → t' = t := by
    intro t' holds
    by_contra other
    rw [InitProcess.setCall_other other] at holds
    have taken := inv.held t' holds
    rw [free] at taken
    exact absurd taken (by simp)
  refine ⟨fun _ _ => rfl, fun t₁ t₂ holds holds' => (only t₁ holds).trans (only t₂ holds').symm,
    fun t' maps => ?_⟩
  have here := only t' (by rw [maps]; rfl)
  rw [here] at maps
  exact absurd (InitProcess.setCall_self.symm.trans maps) (by simp)

theorem MutexInv.nobody {s : InitProcess Thread} {t t' : Thread} (inv : MutexInv s)
    (holds : (s.call t).holdsLock = true) :
    ((s.setCall t .outside).call t').holdsLock = false := by
  by_cases here : t' = t
  · rw [here, InitProcess.setCall_self, InitCall.holdsLock]
  · rw [InitProcess.setCall_other here]
    cases holds' : (s.call t').holdsLock with
    | false => rfl
    | true => exact absurd (inv.unique t' t holds' holds) here

theorem MutexInv.unlocked {s : InitProcess Thread} {t : Thread} (inv : MutexInv s)
    (holds : (s.call t).holdsLock = true) :
    MutexInv { s.setCall t .outside with initLock := false } where
  held t' holds' := absurd (inv.nobody holds ▸ holds') (by simp)
  unique t' _ holds' _ := absurd (inv.nobody holds ▸ holds') (by simp)
  mapping t' maps := by
    have holds' : ((s.setCall t .outside).call t').holdsLock = true := by
      rw [maps]
      rfl
    exact absurd ((inv.nobody holds).symm.trans holds') (by simp)

theorem MutexInv.child {s : InitProcess Thread} {t : Thread} (inv : MutexInv s) :
    MutexInv (s.child t) := by
  refine inv.fewer rfl (fun t' holds => ?_) (fun _ _ => rfl)
  by_cases here : t' = t
  · simpa only [InitProcess.child, here, if_true] using holds
  · simp only [InitProcess.child, here, if_false, InitCall.holdsLock] at holds
    exact absurd holds (by simp)

theorem MutexInv.step {proc proc' : InitProcess Thread} {label : InitLabel Process Thread}
    {out : Option Int} (inv : MutexInv proc) (effect : InitEffect proc label out proc') :
    MutexInv proc' := by
  cases effect with
  | enter p t call => exact inv.setCall (fun holds => absurd holds (by decide)) (by simp)
  | lock p t call free => exact inv.locked free
  | lockError p t call => exact inv.setCall (fun holds => absurd holds (by decide)) (by simp)
  | check p t call =>
    refine inv.setCall (fun _ => by rw [call]; rfl) (fun maps => ?_)
    cases flag : proc.veDmaInitialized with
    | false => rfl
    | true =>
      rw [flag] at maps
      exact absurd maps (by simp)
  | mapFailed p t ret desc ctrl call failed =>
    exact inv.setCall (fun holds => absurd holds (by decide)) (by simp)
  | mapped p t desc ctrl call =>
    refine inv.fewer rfl (fun t' holds => ?_) (fun t' maps => ?_)
    · by_cases here : t' = t
      · rw [here, call]
        rfl
      · rwa [InitProcess.setCall_other here] at holds
    · by_cases here : t' = t
      · rw [here, InitProcess.setCall_self] at maps
        exact absurd maps (by simp)
      · rw [InitProcess.setCall_other here] at maps
        have maps' : proc.call t' = .mapping := maps
        exact absurd (inv.unique t' t (by rw [maps']; rfl) (by rw [call]; rfl)) here
  | unlock p t ret call => exact inv.unlocked (by rw [call]; rfl)

theorem Taken.setCall {s : InitProcess Thread} {t : Thread} {c : InitCall} (taken : Taken s)
    (same : (s.call t).holdsLock = true → c.holdsLock = true) : Taken (s.setCall t c) := by
  intro locked
  obtain ⟨t', holds⟩ := taken locked
  refine ⟨t', ?_⟩
  by_cases here : t' = t
  · rw [here, InitProcess.setCall_self]
    exact same (here ▸ holds)
  · rwa [InitProcess.setCall_other here]

theorem Taken.step {proc proc' : InitProcess Thread} {label : InitLabel Process Thread}
    {out : Option Int} (taken : Taken proc) (effect : InitEffect proc label out proc')
    (mapped : label.mapFails = false) : Taken proc' := by
  cases effect with
  | enter p t call => exact taken.setCall (fun holds => absurd holds (by rw [call]; decide))
  | lock p t call free =>
    exact fun _ => ⟨t, congrArg InitCall.holdsLock InitProcess.setCall_self⟩
  | lockError p t call => exact taken.setCall (fun holds => absurd holds (by rw [call]; decide))
  | check p t call =>
    refine taken.setCall (fun _ => ?_)
    cases proc.veDmaInitialized with
    | false => rfl
    | true => rfl
  | mapFailed p t ret desc ctrl call failed =>
    exact absurd mapped (by simpa [InitLabel.mapFails] using failed)
  | mapped p t desc ctrl call =>
    have before : Taken (proc.initVars desc ctrl) := taken
    exact before.setCall (fun _ => rfl)
  | unlock p t ret call => exact fun locked => absurd locked (by simp)

theorem Taken.child {s : InitProcess Thread} {t : Thread} (taken : Taken s)
    (alone : ∀ t', t' ≠ t → (s.call t').holdsLock = false) : Taken (s.child t) := by
  intro locked
  obtain ⟨t', holds⟩ := taken locked
  have here : t' = t := by
    by_contra other
    exact absurd ((alone t' other).symm.trans holds) (by simp)
  refine ⟨t, ?_⟩
  simpa only [InitProcess.child, if_true] using here ▸ holds

/-! ## Runs -/

/-- The mapping does not fail, and no process forks while another of its threads has the
lock. -/
def Proper (_ : Process → Bool) (e : InitEntry Process Thread) : Prop :=
  match e.label with
  | .map _ _ ret _ _ => ret = 0
  | .fork p t _ => ∀ proc ∈ e.before p, ∀ t', t' ≠ t → (proc.call t').holdsLock = false
  | _ => True

/-- A call that gets the lock after a failed attempt tries the mapping again.  None does so: a
failed attempt keeps the lock, and no run comes to this `.check` in that process. -/
def Retries (failed : Process → Bool) (e : InitEntry Process Thread) : Prop :=
  match e.label with
  | .check p t => failed p = true → ∃ proc, e.after p = some proc ∧ proc.call t = .mapping
  | _ => True

variable {s s' : InitState Process Thread} {label : InitLabel Process Thread} {out : Option Int}
  {failed : Process → Bool}

theorem InitEffect.mapFails {proc proc' : InitProcess Thread}
    (effect : InitEffect proc label out proc') (proper : Proper failed ⟨s, label, out, s'⟩) :
    label.mapFails = false := by
  cases effect with
  | mapFailed p t ret desc ctrl call failed => exact absurd proper failed
  | _ => rfl

theorem InitEffect.forks {proc proc' : InitProcess Thread}
    (effect : InitEffect proc label out proc') : label.forks = false := by
  cases effect with
  | _ => rfl

variable [DecidableEq Process]

/-- In a process in which no thread is inside `ve_dma_init` the lock is free, and every
thread can get it. -/
def LockKept (s : InitState Process Thread) : Prop :=
  ∀ p proc, s p = some proc → (∀ t, proc.call t = .outside) →
    proc.initLock = false ∧
      ∀ t, ((initMachine Process Thread).exec s [.enter p t, .lock p t]).isSome = true

theorem SystemEffect.all {P : InitProcess Thread → Prop} (effect : SystemEffect s label out s')
    (before : ∀ p proc, s p = some proc → P proc)
    (inside : ∀ proc proc', InitEffect proc label out proc' → P proc → P proc')
    (child : ∀ p t c proc, label = .fork p t c → s p = some proc → P proc → P (proc.child t)) :
    ∀ p proc, s' p = some proc → P proc := by
  intro p proc here
  cases effect with
  | inside _ _ old new found effect =>
    by_cases same : p = label.process
    · rw [same, Function.update_self] at here
      exact Option.some.inj here ▸ inside old new effect (before _ old found)
    · rw [Function.update_of_ne same] at here
      exact before p proc here
  | fork q t c old found unused =>
    by_cases same : p = c
    · rw [same, Function.update_self] at here
      exact Option.some.inj here ▸ child q t c old rfl found (before q old found)
    · rw [Function.update_of_ne same] at here
      exact before p proc here

def AllTaken (_ : Process → Bool) (s : InitState Process Thread) : Prop :=
  ∀ p proc, s p = some proc → Taken proc

theorem SystemEffect.taken (effect : SystemEffect s label out s')
    (before : AllTaken failed s) (proper : Proper failed ⟨s, label, out, s'⟩) :
    AllTaken (observeFailed failed ⟨s, label, out, s'⟩) s' := by
  refine effect.all before (fun proc proc' step taken => taken.step step ?_) ?_
  · exact step.mapFails proper
  · rintro p t c proc rfl found taken
    exact taken.child (proper proc found)

theorem InitInv.flag_step (inv : InitInv failed s) (effect : SystemEffect s label out s') :
    ∀ p proc, s' p = some proc → observeFailed failed ⟨s, label, out, s'⟩ p = true →
      proc.veDmaInitialized = false := by
  intro p proc here fails
  cases effect with
  | inside _ _ old new found effect =>
    by_cases same : p = label.process
    · rw [same, Function.update_self] at here
      obtain rfl := Option.some.inj here
      rw [same] at fails
      cases effect with
      | mapped q t desc ctrl call =>
        exact absurd ((Function.update_self ..).symm.trans fails) (by simp)
      | mapFailed q t ret desc ctrl call failed => exact (inv.mutex q old found).mapping t call
      | enter q t call => exact inv.flag q old found fails
      | lock q t call free => exact inv.flag q old found fails
      | lockError q t call => exact inv.flag q old found fails
      | check q t call => exact inv.flag q old found fails
      | unlock q t ret call => exact inv.flag q old found fails
    · rw [Function.update_of_ne same] at here
      rw [observeFailed_other same effect.forks] at fails
      exact inv.flag p proc here fails
  | fork q t child old found unused =>
    by_cases same : p = child
    · rw [same, Function.update_self] at here
      exact Option.some.inj here ▸ rfl
    · rw [Function.update_of_ne same] at here
      exact inv.flag p proc here ((Function.update_of_ne same ..).symm.trans fails)

theorem InitInv.step (inv : InitInv failed s) (effect : SystemEffect s label out s') :
    InitInv (observeFailed failed ⟨s, label, out, s'⟩) s' where
  mutex := effect.all inv.mutex (fun _ _ step before => before.step step)
    (fun _ _ _ _ _ _ before => before.child)
  flag := inv.flag_step effect

theorem InitInv.retries (inv : InitInv failed s) (effect : SystemEffect s label out s') :
    Retries failed ⟨s, label, out, s'⟩ := by
  cases effect with
  | fork p t child proc found unused => trivial
  | inside _ _ old new found effect =>
    cases effect with
    | check p t call =>
      intro fails
      refine ⟨_, Function.update_self .., ?_⟩
      rw [InitProcess.setCall_self, inv.flag p old found fails]
      rfl
    | _ => trivial

theorem lockKept_of_taken (taken : AllTaken failed s) : LockKept s := by
  intro p proc here outside
  have free : proc.initLock = false := by
    cases locked : proc.initLock with
    | false => rfl
    | true =>
      obtain ⟨t, holds⟩ := taken p proc here locked
      rw [outside t] at holds
      exact absurd holds (by decide)
  refine ⟨free, fun t => ?_⟩
  simp [Machine.exec, initMachine, initStep, InitLabel.process, here, veDmaInitStep, outside t,
    InitProcess.setCall, free]

/-- When no mapping fails and no process forks at a bad moment the lock is never left behind.
A call that got it after a failed attempt would try again, but nothing gets that far. -/
theorem init_lock_kept (p : Process) (vars : VedmaVars) (ctrl : BitVec 64)
    (trace : List (InitEntry Process Thread)) (final : InitState Process Thread)
    (run : (initMachine Process Thread).Run (InitState.initial p vars ctrl) trace final) :
    (Monitor.mk (fun _ => false) observeFailed Retries).Safe trace ∧
      ((Monitor.mk (fun _ => false) observeFailed Proper).Safe trace → LockKept final) := by
  constructor
  · refine run.guarantee (initInv_initial p vars ctrl) ?_ (Monitor.safe_true _ _ trace)
    intro failed s label out s' inv stepped _
    have effect : SystemEffect s label out s' := initStep_effect stepped
    exact ⟨inv.retries effect, inv.step effect⟩
  · intro proper
    have start : AllTaken (fun _ => false)
        (InitState.initial p vars ctrl : InitState Process Thread) := by
      intro q proc found
      rw [initial_found found]
      exact fun locked => absurd locked (by simp)
    refine lockKept_of_taken (run.invariant start ?_ proper)
    intro failed s label out s' before stepped now
    exact (initStep_effect stepped).taken before now

/-- A call that maps the descriptors, a second one that finds the flag, and a fork. -/
def properLabels (p q : Process) (t u : Thread) : List (InitLabel Process Thread) :=
  [.enter p t, .lock p t, .enter p u, .check p t, .map p t 0 0x4000 0x3010, .unlock p t,
    .lock p u, .check p u, .unlock p u, .fork p u q, .enter q u, .lock q u, .check q u]

def VedmaVars.zero : VedmaVars := ⟨0, 0, 0, fun _ => 0⟩

instance decidableProper [Fintype Thread] (failed : Process → Bool) :
    (e : InitEntry Process Thread) → Decidable (Proper failed e)
  | ⟨_, .map _ _ ret _ _, _, _⟩ => inferInstanceAs (Decidable (ret = 0))
  | ⟨s, .fork p t _, _, _⟩ =>
    inferInstanceAs (Decidable (∀ proc ∈ s p, ∀ t', t' ≠ t → (proc.call t').holdsLock = false))
  | ⟨_, .enter .., _, _⟩ => isTrue trivial
  | ⟨_, .lock .., _, _⟩ => isTrue trivial
  | ⟨_, .lockError .., _, _⟩ => isTrue trivial
  | ⟨_, .check .., _, _⟩ => isTrue trivial
  | ⟨_, .unlock .., _, _⟩ => isTrue trivial

theorem init_lock_kept_forked :
    ∃ trace final, (initMachine (Fin 2) (Fin 2)).exec (.initial 0 .zero 0)
        (properLabels 0 1 0 1) = some (trace, final) ∧
      ((final 1).map fun proc => proc.call 1) = some .mapping ∧
      (Monitor.mk (fun _ => false) observeFailed Retries).Safe trace ∧ LockKept final := by
  have checked : ((initMachine (Fin 2) (Fin 2)).exec (.initial 0 .zero 0)
      (properLabels 0 1 0 1)).any (fun done =>
        decide (((done.2 1).map fun proc => proc.call 1) = some .mapping ∧
        (Monitor.mk (fun _ => false) observeFailed Proper).SafeFrom (fun _ => false) done.1)) =
      true := by
    decide +kernel
  rw [Option.any_eq_true] at checked
  obtain ⟨⟨trace, final⟩, ran, holds⟩ := checked
  obtain ⟨maps, now⟩ := of_decide_eq_true holds
  have proper := (Monitor.mk (fun _ => false) observeFailed Proper).safe_of_safeFrom trace now
  have kept := init_lock_kept 0 .zero 0 trace final (Machine.exec_run ran)
  exact ⟨trace, final, ran, maps, kept.1, kept.2 proper⟩

/-- The lock is left behind by a call whose mapping fails, without any fork, and by a fork
while another thread has it, without any failure. -/
theorem init_lock_left_behind :
    (¬ ∀ trace final, (initMachine (Fin 2) (Fin 2)).Run (.initial 0 .zero 0) trace final →
        (∀ e ∈ trace, e.label.forks = false) → LockKept final) ∧
      ¬ ∀ trace final, (initMachine (Fin 2) (Fin 2)).Run (.initial 0 .zero 0) trace final →
        (∀ e ∈ trace, e.label.mapFails = false) → LockKept final := by
  constructor
  · intro kept
    have checked : ((initMachine (Fin 2) (Fin 2)).exec (.initial 0 .zero 0)
        [.enter 0 0, .lock 0 0, .check 0 0, .map 0 0 (-1) 0 0]).any (fun done =>
          decide ((∀ e ∈ done.1, e.label.forks = false) ∧
            (done.2 0).any fun proc => proc.initLock ∧ ∀ t, proc.call t = .outside)) = true := by
      decide +kernel
    simp only [Option.any_eq_true, decide_eq_true_eq, Prod.exists] at checked
    obtain ⟨trace, final, ran, noFork, proc, here, locked, outside⟩ := checked
    have free := (kept trace final (Machine.exec_run ran) noFork 0 proc here outside).1
    rw [free] at locked
    exact absurd locked (by decide)
  · intro kept
    have checked : ((initMachine (Fin 2) (Fin 2)).exec (.initial 0 .zero 0)
        [.enter 0 0, .lock 0 0, .fork 0 1 1]).any (fun done =>
          decide ((∀ e ∈ done.1, e.label.mapFails = false) ∧
            (done.2 1).any fun proc => proc.initLock ∧ ∀ t, proc.call t = .outside)) = true := by
      decide +kernel
    simp only [Option.any_eq_true, decide_eq_true_eq, Prod.exists] at checked
    obtain ⟨trace, final, ran, mapped, proc, here, locked, outside⟩ := checked
    have free := (kept trace final (Machine.exec_run ran) mapped 1 proc here outside).1
    rw [free] at locked
    exact absurd locked (by decide)

end Libsysve.Vedma
