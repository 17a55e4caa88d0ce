import Libsysve.Veaio.Context

/-!
# The contexts of one process

`ve_aio_init` and `ve_aio_fini` of libveaio.c, and the calls on any number of contexts, in all
threads of one process.  A context is named by its address, and `calloc` gives an address that is
free.  Memory that was released keeps what it holds, and VH does not know of `free`: the requests
in flight of an address stay in flight.
-/

set_option autoImplicit false

namespace Libsysve.Veaio

def enomem : Int := 12

/-- Where a thread is in `ve_aio_init` or `ve_aio_fini`; in a call on a context the context says
where. -/
inductive AioPoint (Context : Type) where
  | outside
  | call (c : Context)
  | setupTest
  | setupInit
  | setupUnlock (errno : Option Int)
  | calloc
  | mutexInit (c : Context)
  | initFree (c : Context)
  | finiFree (c : Context)
deriving DecidableEq

def AioPoint.inSetup {Context : Type} : AioPoint Context → Bool
  | .setupTest | .setupInit | .setupUnlock _ => true
  | _ => false

/-- The context that `ve_aio_init` has not returned yet, or that `ve_aio_fini` is releasing. -/
def AioPoint.unshared {Context : Type} : AioPoint Context → Option Context
  | .mutexInit c | .initFree c | .finiFree c => some c
  | _ => none

/-- `ready` counts the calls of VE_SYSVE_AIO2_INIT that succeeded. -/
structure AioProcess (Context Thread : Type) where
  veAioSetupLock : Bool
  veAioSetup : Int
  ready : Nat
  allocated : Context → Bool
  context : Context → AioState Thread
  point : Thread → AioPoint Context

inductive AioProcessLabel (Context Thread : Type) where
  | nullContext (t : Thread)
  | call (c : Context) (label : AioLabel Thread)
  | lockSetup (t : Thread)
  | testSetup (t : Thread)
  | aio2Init (t : Thread) (ret errno : Int)
  | unlockSetup (t : Thread)
  | calloc (t : Thread) (c : Option Context)
  | mutexInit (t : Thread) (ret : Int)
  | initFree (t : Thread)
  | fini (t : Thread) (c : Context)
  | finiFree (t : Thread)
deriving DecidableEq

inductive AioProcessReturn (Context : Type) where
  | context (c : Context)
  | null (errno : Int)
  | call (ret : AioReturn)
deriving DecidableEq

variable {Context Thread : Type}

/-- The thread that takes the step; VH completes the requests. -/
def AioLabel.thread : AioLabel Thread → Option Thread
  | .nullContext t | .submit t _ | .accept t | .reject t _ | .submitted t | .unmark t
  | .query t _ | .wait t _ | .waitReturn t _ _ | .waitCheck t | .readRetval t
  | .readErrnoval t => some t
  | .complete _ _ _ => none

/-- Every call but one with NULL is on a context. -/
def AioLabel.onContext : AioLabel Thread → Bool
  | .nullContext _ => false
  | _ => true

namespace AioProcess

def initial : AioProcess Context Thread where
  veAioSetupLock := false
  veAioSetup := 0
  ready := 0
  allocated _ := false
  context _ := .initial
  point _ := .outside

variable [DecidableEq Context] [DecidableEq Thread] (s : AioProcess Context Thread)

def setPoint (t : Thread) (p : AioPoint Context) : AioProcess Context Thread :=
  { s with point := Function.update s.point t p }

def setContext (c : Context) (x : AioState Thread) : AioProcess Context Thread :=
  { s with context := Function.update s.context c x }

def setAllocated (c : Context) (allocated : Bool) : AioProcess Context Thread :=
  { s with allocated := Function.update s.allocated c allocated }

/-- `calloc` clears the result, and `ve_aio_init` stores it. -/
def storeResult (c : Context) : AioProcess Context Thread :=
  s.setContext c { s.context c with result := .initial }

variable {s} {t t' : Thread} {p : AioPoint Context} {c c' : Context} {x : AioState Thread}
  {allocated : Bool}

omit [DecidableEq Context] in
@[simp] theorem setPoint_self : (s.setPoint t p).point t = p := Function.update_self ..

omit [DecidableEq Context] in
theorem setPoint_other (other : t' ≠ t) : (s.setPoint t p).point t' = s.point t' :=
  Function.update_of_ne other ..

omit [DecidableEq Context] in
theorem setPoint_cases (s : AioProcess Context Thread) (t : Thread) (p : AioPoint Context)
    (t' : Thread) : t' = t ∧ (s.setPoint t p).point t' = p ∨
      t' ≠ t ∧ (s.setPoint t p).point t' = s.point t' := by
  by_cases here : t' = t
  · exact .inl ⟨here, here ▸ setPoint_self⟩
  · exact .inr ⟨here, setPoint_other here⟩

omit [DecidableEq Context] in
@[simp] theorem setPoint_context : (s.setPoint t p).context = s.context := rfl

omit [DecidableEq Thread] in
@[simp] theorem setContext_self : (s.setContext c x).context c = x := Function.update_self ..

omit [DecidableEq Thread] in
theorem setContext_other (other : c' ≠ c) : (s.setContext c x).context c' = s.context c' :=
  Function.update_of_ne other ..

omit [DecidableEq Thread] in
@[simp] theorem setAllocated_self : (s.setAllocated c allocated).allocated c = allocated :=
  Function.update_self ..

omit [DecidableEq Thread] in
theorem setAllocated_other (other : c' ≠ c) :
    (s.setAllocated c allocated).allocated c' = s.allocated c' :=
  Function.update_of_ne other ..

end AioProcess

variable [DecidableEq Context] [DecidableEq Thread]

/-- One step; `none` when the label is not enabled. -/
def aioProcessStep (s : AioProcess Context Thread) : AioProcessLabel Context Thread →
    Option (Option (AioProcessReturn Context) × AioProcess Context Thread)
  | .nullContext t =>
    if s.point t = .outside then some (some (.call (.fail (-1) einval)), s) else none
  | .call c label =>
    if label.onContext = true ∧
        ∀ t ∈ label.thread, s.point t = .outside ∨ s.point t = .call c then
      match aioStep (s.context c) label, label.thread with
      | none, _ => none
      | some (ret, after), none => some (ret.map .call, s.setContext c after)
      | some (ret, after), some t =>
        some (ret.map .call, (s.setContext c after).setPoint t
          (if after.call t = .outside then .outside else .call c))
    else none
  | .lockSetup t =>
    if s.point t = .outside ∧ s.veAioSetupLock = false then
      some (none, { s with veAioSetupLock := true }.setPoint t .setupTest)
    else none
  | .testSetup t =>
    if s.point t = .setupTest then
      some (none, s.setPoint t (if s.veAioSetup = 0 then .setupInit else .setupUnlock none))
    else none
  | .aio2Init t ret errno =>
    if s.point t = .setupInit then
      if ret ≠ 0 then some (none, s.setPoint t (.setupUnlock (some errno)))
      else some (none, { s with veAioSetup := s.veAioSetup + 1, ready := s.ready + 1 }.setPoint t
        (.setupUnlock none))
    else none
  | .unlockSetup t =>
    match s.point t with
    | .setupUnlock none => some (none, { s with veAioSetupLock := false }.setPoint t .calloc)
    | .setupUnlock (some errno) =>
      some (some (.null errno), { s with veAioSetupLock := false }.setPoint t .outside)
    | _ => none
  | .calloc t none =>
    if s.point t = .calloc then some (some (.null enomem), s.setPoint t .outside) else none
  | .calloc t (some c) =>
    if s.point t = .calloc ∧ s.allocated c = false then
      some (none, ((s.setAllocated c true).storeResult c).setPoint t (.mutexInit c))
    else none
  | .mutexInit t ret =>
    match s.point t with
    | .mutexInit c =>
      if ret ≠ 0 then some (none, s.setPoint t (.initFree c))
      else some (some (.context c), (s.storeResult c).setPoint t .outside)
    | _ => none
  | .initFree t =>
    match s.point t with
    | .initFree c => some (some (.null enomem), (s.setAllocated c false).setPoint t .outside)
    | _ => none
  | .fini t c =>
    if s.point t = .outside then
      if (s.context c).result.active then some (some (.call (.fail (-1) ebusy)), s)
      else some (none, s.setPoint t (.finiFree c))
    else none
  | .finiFree t =>
    match s.point t with
    | .finiFree c => some (some (.call (.plain 0)), (s.setAllocated c false).setPoint t .outside)
    | _ => none

def aioProcessMachine (Context Thread : Type) [DecidableEq Context] [DecidableEq Thread] :
    Machine (AioProcess Context Thread) (AioProcessLabel Context Thread)
      (Option (AioProcessReturn Context)) where
  step := aioProcessStep

abbrev AioProcessEntry (Context Thread : Type) :=
  Entry (AioProcess Context Thread) (AioProcessLabel Context Thread)
    (Option (AioProcessReturn Context))

inductive ProcessEffect (s : AioProcess Context Thread) : AioProcessLabel Context Thread →
    Option (AioProcessReturn Context) → AioProcess Context Thread → Prop
  | nullContext (t) (outside : s.point t = .outside) :
      ProcessEffect s (.nullContext t) (some (.call (.fail (-1) einval))) s
  | host (c label ret after) (stepped : aioStep (s.context c) label = some (ret, after))
      (host : label.thread = none) :
      ProcessEffect s (.call c label) (ret.map .call) (s.setContext c after)
  | call (c label ret after t) (stepped : aioStep (s.context c) label = some (ret, after))
      (actor : label.thread = some t) (here : s.point t = .outside ∨ s.point t = .call c) :
      ProcessEffect s (.call c label) (ret.map .call) ((s.setContext c after).setPoint t
        (if after.call t = .outside then .outside else .call c))
  | lockSetup (t) (outside : s.point t = .outside) (free : s.veAioSetupLock = false) :
      ProcessEffect s (.lockSetup t) none
        ({ s with veAioSetupLock := true }.setPoint t .setupTest)
  | testSetup (t) (here : s.point t = .setupTest) :
      ProcessEffect s (.testSetup t) none
        (s.setPoint t (if s.veAioSetup = 0 then .setupInit else .setupUnlock none))
  | aio2InitFail (t ret errno) (here : s.point t = .setupInit) (fails : ret ≠ 0) :
      ProcessEffect s (.aio2Init t ret errno) none (s.setPoint t (.setupUnlock (some errno)))
  | aio2Init (t errno) (here : s.point t = .setupInit) :
      ProcessEffect s (.aio2Init t 0 errno) none
        ({ s with veAioSetup := s.veAioSetup + 1, ready := s.ready + 1 }.setPoint t
          (.setupUnlock none))
  | unlockSetup (t) (here : s.point t = .setupUnlock none) :
      ProcessEffect s (.unlockSetup t) none
        ({ s with veAioSetupLock := false }.setPoint t .calloc)
  | unlockSetupFail (t errno) (here : s.point t = .setupUnlock (some errno)) :
      ProcessEffect s (.unlockSetup t) (some (.null errno))
        ({ s with veAioSetupLock := false }.setPoint t .outside)
  | callocFail (t) (here : s.point t = .calloc) :
      ProcessEffect s (.calloc t none) (some (.null enomem)) (s.setPoint t .outside)
  | calloc (t c) (here : s.point t = .calloc) (free : s.allocated c = false) :
      ProcessEffect s (.calloc t (some c)) none
        (((s.setAllocated c true).storeResult c).setPoint t (.mutexInit c))
  | mutexInitFail (t c ret) (here : s.point t = .mutexInit c) (fails : ret ≠ 0) :
      ProcessEffect s (.mutexInit t ret) none (s.setPoint t (.initFree c))
  | mutexInit (t c) (here : s.point t = .mutexInit c) :
      ProcessEffect s (.mutexInit t 0) (some (.context c)) ((s.storeResult c).setPoint t .outside)
  | initFree (t c) (here : s.point t = .initFree c) :
      ProcessEffect s (.initFree t) (some (.null enomem))
        ((s.setAllocated c false).setPoint t .outside)
  | finiBusy (t c) (outside : s.point t = .outside) (busy : (s.context c).result.active = true) :
      ProcessEffect s (.fini t c) (some (.call (.fail (-1) ebusy))) s
  | fini (t c) (outside : s.point t = .outside) (idle : (s.context c).result.active = false) :
      ProcessEffect s (.fini t c) none (s.setPoint t (.finiFree c))
  | finiFree (t c) (here : s.point t = .finiFree c) :
      ProcessEffect s (.finiFree t) (some (.call (.plain 0)))
        ((s.setAllocated c false).setPoint t .outside)

theorem aioProcessStep_effect {s s' : AioProcess Context Thread}
    {label : AioProcessLabel Context Thread} {ret : Option (AioProcessReturn Context)}
    (stepped : aioProcessStep s label = some (ret, s')) : ProcessEffect s label ret s' := by
  cases label with
  | nullContext t =>
    obtain ⟨outside, done⟩ := Option.ite_none_right_eq_some.mp stepped
    obtain ⟨rfl, rfl⟩ := Prod.mk.inj (Option.some.inj done)
    exact .nullContext t outside
  | call c label =>
    obtain ⟨⟨_, here⟩, done⟩ := Option.ite_none_right_eq_some.mp stepped
    split at done
    · exact absurd done (by simp)
    · rename_i code after taken host
      obtain ⟨rfl, rfl⟩ := Prod.mk.inj (Option.some.inj done)
      exact .host c label code after taken host
    · rename_i code after t taken actor
      obtain ⟨rfl, rfl⟩ := Prod.mk.inj (Option.some.inj done)
      exact .call c label code after t taken actor (here t actor)
  | lockSetup t =>
    obtain ⟨⟨outside, free⟩, done⟩ := Option.ite_none_right_eq_some.mp stepped
    obtain ⟨rfl, rfl⟩ := Prod.mk.inj (Option.some.inj done)
    exact .lockSetup t outside free
  | testSetup t =>
    obtain ⟨here, done⟩ := Option.ite_none_right_eq_some.mp stepped
    obtain ⟨rfl, rfl⟩ := Prod.mk.inj (Option.some.inj done)
    exact .testSetup t here
  | aio2Init t code errno =>
    obtain ⟨here, done⟩ := Option.ite_none_right_eq_some.mp stepped
    split at done
    · rename_i fails
      obtain ⟨rfl, rfl⟩ := Prod.mk.inj (Option.some.inj done)
      exact .aio2InitFail t code errno here fails
    · rename_i zero
      obtain rfl := not_not.mp zero
      obtain ⟨rfl, rfl⟩ := Prod.mk.inj (Option.some.inj done)
      exact .aio2Init t errno here
  | unlockSetup t =>
    simp only [aioProcessStep] at stepped
    split at stepped
    · rename_i here
      obtain ⟨rfl, rfl⟩ := Prod.mk.inj (Option.some.inj stepped)
      exact .unlockSetup t here
    · rename_i errno here
      obtain ⟨rfl, rfl⟩ := Prod.mk.inj (Option.some.inj stepped)
      exact .unlockSetupFail t errno here
    · exact absurd stepped (by simp)
  | calloc t given =>
    cases given with
    | none =>
      obtain ⟨here, done⟩ := Option.ite_none_right_eq_some.mp stepped
      obtain ⟨rfl, rfl⟩ := Prod.mk.inj (Option.some.inj done)
      exact .callocFail t here
    | some c =>
      obtain ⟨⟨here, free⟩, done⟩ := Option.ite_none_right_eq_some.mp stepped
      obtain ⟨rfl, rfl⟩ := Prod.mk.inj (Option.some.inj done)
      exact .calloc t c here free
  | mutexInit t code =>
    simp only [aioProcessStep] at stepped
    split at stepped
    · rename_i c here
      split at stepped
      · rename_i fails
        obtain ⟨rfl, rfl⟩ := Prod.mk.inj (Option.some.inj stepped)
        exact .mutexInitFail t c code here fails
      · rename_i zero
        obtain rfl := not_not.mp zero
        obtain ⟨rfl, rfl⟩ := Prod.mk.inj (Option.some.inj stepped)
        exact .mutexInit t c here
    · exact absurd stepped (by simp)
  | initFree t =>
    simp only [aioProcessStep] at stepped
    split at stepped
    · rename_i c here
      obtain ⟨rfl, rfl⟩ := Prod.mk.inj (Option.some.inj stepped)
      exact .initFree t c here
    · exact absurd stepped (by simp)
  | fini t c =>
    obtain ⟨outside, done⟩ := Option.ite_none_right_eq_some.mp stepped
    split at done
    · rename_i busy
      obtain ⟨rfl, rfl⟩ := Prod.mk.inj (Option.some.inj done)
      exact .finiBusy t c outside busy
    · rename_i idle
      obtain ⟨rfl, rfl⟩ := Prod.mk.inj (Option.some.inj done)
      exact .fini t c outside (eq_false_of_ne_true idle)
  | finiFree t =>
    simp only [aioProcessStep] at stepped
    split at stepped
    · rename_i c here
      obtain ⟨rfl, rfl⟩ := Prod.mk.inj (Option.some.inj stepped)
      exact .finiFree t c here
    · exact absurd stepped (by simp)

end Libsysve.Veaio
