import Libsysve.Vedma.Ring

/-!
# The lock of `ve_dma_init`

The calls of `ve_dma_init` in all threads of all processes, one access to shared data a step.
`ve_map_dmades` gives any value.  fork copies the memory of a process, `init_lock` included,
and keeps the forking thread; the handler of the child clears `ve_dma_initialized` only.
-/

set_option autoImplicit false

namespace Libsysve.Vedma

/-- How far a thread is in `ve_dma_init`: from `locked` to `unlocking` it has the lock. -/
inductive InitCall where
  | outside
  | locking
  | locked
  | mapping
  | unlocking (ret : Int)
deriving DecidableEq

def InitCall.holdsLock : InitCall → Bool
  | .outside => false
  | .locking => false
  | .locked => true
  | .mapping => true
  | .unlocking _ => true

/-- `vedma_vars` with the pointers of `vedma_status[]` as they are stored. -/
structure VedmaVars where
  vedmaDesc : BitVec 64
  vedmaLock : BitVec 64
  vedmaIndex : DescIndex
  vedmaStatus : DescIndex → BitVec 64

structure InitProcess (Thread : Type) where
  initLock : Bool
  veDmaInitialized : Bool
  vedmaVars : VedmaVars
  vedmaCtrl : BitVec 64
  call : Thread → InitCall

inductive InitLabel (Process Thread : Type) where
  | enter (p : Process) (t : Thread)
  | lock (p : Process) (t : Thread)
  | lockError (p : Process) (t : Thread)
  | check (p : Process) (t : Thread)
  | map (p : Process) (t : Thread) (ret : Int) (desc ctrl : BitVec 64)
  | unlock (p : Process) (t : Thread)
  | fork (p : Process) (t : Thread) (child : Process)
deriving DecidableEq

variable {Process Thread : Type} [DecidableEq Thread]

def InitProcess.setCall (s : InitProcess Thread) (t : Thread) (c : InitCall) :
    InitProcess Thread :=
  { s with call := Function.update s.call t c }

/-- The child of thread `t`, after `ve_dma_clear_skip_flag`. -/
def InitProcess.child (s : InitProcess Thread) (t : Thread) : InitProcess Thread :=
  { s with
    veDmaInitialized := false
    call := fun t' => if t' = t then s.call t else .outside }

/-- The state of the DMA is set up, once the descriptors are mapped. -/
def InitProcess.initVars (s : InitProcess Thread) (desc ctrl : BitVec 64) :
    InitProcess Thread :=
  { s with
    vedmaVars := { vedmaDesc := desc, vedmaLock := 0, vedmaIndex := 0, vedmaStatus := fun _ => 0 }
    vedmaCtrl := ctrl
    veDmaInitialized := true }

/-- A step of `ve_dma_init` inside one process, with the value it returns if it does.  The
unlocking thread has the lock, so `pthread_mutex_unlock` succeeds. -/
def veDmaInitStep (s : InitProcess Thread) :
    InitLabel Process Thread → Option (Option Int × InitProcess Thread)
  | .enter _ t => if s.call t = .outside then some (none, s.setCall t .locking) else none
  | .lock _ t =>
    if s.call t = .locking ∧ s.initLock = false then
      some (none, { s.setCall t .locked with initLock := true })
    else none
  | .lockError _ t =>
    if s.call t = .locking then some (some (-1), s.setCall t .outside) else none
  | .check _ t =>
    if s.call t = .locked then
      some (none, s.setCall t (if s.veDmaInitialized then .unlocking 0 else .mapping))
    else none
  | .map _ t ret desc ctrl =>
    if s.call t = .mapping then
      if ret ≠ 0 then some (some ret, s.setCall t .outside)
      else some (none, (s.initVars desc ctrl).setCall t (.unlocking ret))
    else none
  | .unlock _ t =>
    match s.call t with
    | .unlocking ret => some (some ret, { s.setCall t .outside with initLock := false })
    | _ => none
  | .fork _ _ _ => none

inductive InitEffect (s : InitProcess Thread) :
    InitLabel Process Thread → Option Int → InitProcess Thread → Prop
  | enter (p t) (call : s.call t = .outside) :
      InitEffect s (.enter p t) none (s.setCall t .locking)
  | lock (p t) (call : s.call t = .locking) (free : s.initLock = false) :
      InitEffect s (.lock p t) none { s.setCall t .locked with initLock := true }
  | lockError (p t) (call : s.call t = .locking) :
      InitEffect s (.lockError p t) (some (-1)) (s.setCall t .outside)
  | check (p t) (call : s.call t = .locked) :
      InitEffect s (.check p t) none
        (s.setCall t (if s.veDmaInitialized then .unlocking 0 else .mapping))
  | mapFailed (p t ret desc ctrl) (call : s.call t = .mapping) (failed : ret ≠ 0) :
      InitEffect s (.map p t ret desc ctrl) (some ret) (s.setCall t .outside)
  | mapped (p t desc ctrl) (call : s.call t = .mapping) :
      InitEffect s (.map p t 0 desc ctrl) none ((s.initVars desc ctrl).setCall t (.unlocking 0))
  | unlock (p t ret) (call : s.call t = .unlocking ret) :
      InitEffect s (.unlock p t) (some ret) { s.setCall t .outside with initLock := false }

theorem veDmaInitStep_effect {s s' : InitProcess Thread} {label : InitLabel Process Thread}
    {out : Option Int} (stepped : veDmaInitStep s label = some (out, s')) :
    InitEffect s label out s' := by
  cases label with
  | enter p t =>
    simp only [veDmaInitStep, Option.ite_none_right_eq_some, Option.some.injEq,
      Prod.mk.injEq] at stepped
    obtain ⟨call, rfl, rfl⟩ := stepped
    exact .enter p t call
  | lock p t =>
    simp only [veDmaInitStep, Option.ite_none_right_eq_some, Option.some.injEq,
      Prod.mk.injEq] at stepped
    obtain ⟨⟨call, free⟩, rfl, rfl⟩ := stepped
    exact .lock p t call free
  | lockError p t =>
    simp only [veDmaInitStep, Option.ite_none_right_eq_some, Option.some.injEq,
      Prod.mk.injEq] at stepped
    obtain ⟨call, rfl, rfl⟩ := stepped
    exact .lockError p t call
  | check p t =>
    simp only [veDmaInitStep, Option.ite_none_right_eq_some, Option.some.injEq,
      Prod.mk.injEq] at stepped
    obtain ⟨call, rfl, rfl⟩ := stepped
    exact .check p t call
  | map p t ret desc ctrl =>
    by_cases failed : ret = 0
    · subst failed
      simp only [veDmaInitStep, ne_eq, not_true_eq_false, if_false,
        Option.ite_none_right_eq_some, Option.some.injEq, Prod.mk.injEq] at stepped
      obtain ⟨call, rfl, rfl⟩ := stepped
      exact .mapped p t desc ctrl call
    · simp only [veDmaInitStep, ne_eq, failed, not_false_eq_true, if_true,
        Option.ite_none_right_eq_some, Option.some.injEq, Prod.mk.injEq] at stepped
      obtain ⟨call, rfl, rfl⟩ := stepped
      exact .mapFailed p t ret desc ctrl call failed
  | unlock p t =>
    cases call : s.call t with
    | unlocking ret =>
      simp only [veDmaInitStep, call, Option.some.injEq, Prod.mk.injEq] at stepped
      obtain ⟨rfl, rfl⟩ := stepped
      exact .unlock p t ret call
    | outside => simp [veDmaInitStep, call] at stepped
    | locking => simp [veDmaInitStep, call] at stepped
    | locked => simp [veDmaInitStep, call] at stepped
    | mapping => simp [veDmaInitStep, call] at stepped
  | fork p t child => simp [veDmaInitStep] at stepped

def InitLabel.process : InitLabel Process Thread → Process
  | .enter p _ => p
  | .lock p _ => p
  | .lockError p _ => p
  | .check p _ => p
  | .map p _ _ _ _ => p
  | .unlock p _ => p
  | .fork p _ _ => p

def InitLabel.mapFails : InitLabel Process Thread → Bool
  | .map _ _ ret _ _ => ret != 0
  | _ => false

def InitLabel.forks : InitLabel Process Thread → Bool
  | .fork _ _ _ => true
  | _ => false

abbrev InitState (Process Thread : Type) := Process → Option (InitProcess Thread)

variable [DecidableEq Process]

def initStep (s : InitState Process Thread) (label : InitLabel Process Thread) :
    Option (Option Int × InitState Process Thread) :=
  match s label.process with
  | none => none
  | some proc =>
    match label with
    | .fork _ t child =>
      if (s child).isSome then none
      else some (none, Function.update s child (some (proc.child t)))
    | _ =>
      (veDmaInitStep proc label).map fun (out, proc') =>
        (out, Function.update s label.process (some proc'))

abbrev InitEntry (Process Thread : Type) :=
  Entry (InitState Process Thread) (InitLabel Process Thread) (Option Int)

variable (Process Thread) in
def initMachine : Machine (InitState Process Thread) (InitLabel Process Thread) (Option Int) where
  step := initStep

inductive SystemEffect (s : InitState Process Thread) :
    InitLabel Process Thread → Option Int → InitState Process Thread → Prop
  | inside (label out) (proc proc' : InitProcess Thread) (found : s label.process = some proc)
      (effect : InitEffect proc label out proc') :
      SystemEffect s label out (Function.update s label.process (some proc'))
  | fork (p t child) (proc : InitProcess Thread) (found : s p = some proc)
      (unused : s child = none) :
      SystemEffect s (.fork p t child) none (Function.update s child (some (proc.child t)))

theorem initStep_effect {s s' : InitState Process Thread} {label : InitLabel Process Thread}
    {out : Option Int} (stepped : initStep s label = some (out, s')) :
    SystemEffect s label out s' := by
  unfold initStep at stepped
  cases found : s label.process with
  | none => simp [found] at stepped
  | some proc =>
    rw [found] at stepped
    cases label with
    | fork p t child =>
      cases used : s child with
      | some other => simp [used] at stepped
      | none =>
        simp only [used, Option.isSome_none, Bool.false_eq_true, if_false, Option.some.injEq,
          Prod.mk.injEq] at stepped
        obtain ⟨rfl, rfl⟩ := stepped
        exact .fork p t child proc found used
    | _ =>
      simp only [Option.map_eq_some_iff, Prod.exists, Prod.mk.injEq] at stepped
      obtain ⟨out', proc', step, rfl, rfl⟩ := stepped
      exact .inside _ _ proc proc' found (veDmaInitStep_effect step)

end Libsysve.Vedma
