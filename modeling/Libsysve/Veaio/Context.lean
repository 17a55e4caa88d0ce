import Mathlib.Algebra.Ring.Int.Defs
import Mathlib.Algebra.Ring.Nat
import Mathlib.Logic.Function.Basic
import Libsysve.Library.Machine

/-!
# Asynchronous requests of libveaio.c on one context

A section of `ve_aio_read` and `ve_aio_write` that holds `ve_aio_status_lock`, a system call,
the test of `binary` and the read of one field of the result are one step each.  VH completes
accepted requests; its message writes the whole result.  `active` is set exactly while
`binary` is negative.
-/

set_option autoImplicit false

namespace Libsysve.Veaio

def ebusy : Int := 16
def einval : Int := 22

structure AioResult where
  active : Bool
  retval : Int
  errnoval : Int
deriving DecidableEq

/-- What `ve_aio_init` stores. -/
def AioResult.initial : AioResult where
  active := false
  retval := 0
  errnoval := 0

inductive AioOp where
  | read
  | write
deriving DecidableEq

/-- The arguments of VE_SYSVE_AIO2_READ and VE_SYSVE_AIO2_WRITE. -/
structure AioRequest where
  op : AioOp
  fd : Int
  count : Int
  buf : BitVec 64
  offset : Int
deriving DecidableEq

/-- Which of the pointers given to `ve_aio_query` and `ve_aio_wait` are not NULL. -/
structure AioPointers where
  retval : Bool
  errnoval : Bool
deriving DecidableEq

inductive AioCall where
  | outside
  | marked (request : AioRequest)
  | accepted
  | rejected (errno : Int)
  | waiting (out : AioPointers)
  | waited (out : AioPointers)
  | idleSeen (out : AioPointers)
  | retvalRead (out : AioPointers) (retval : Option Int)
deriving DecidableEq

/-- What a call returns, and what it has stored behind its pointers. -/
structure AioReturn where
  ret : Int
  errno : Option Int
  retval : Option Int
  errnoval : Option Int
deriving DecidableEq

/-- `flight` are the requests that were accepted and not completed. -/
structure AioState (Thread : Type) where
  result : AioResult
  flight : List AioRequest
  call : Thread → AioCall

inductive AioLabel (Thread : Type) where
  | nullContext (t : Thread)
  | submit (t : Thread) (request : AioRequest)
  | accept (t : Thread)
  | reject (t : Thread) (errno : Int)
  | submitted (t : Thread)
  | unmark (t : Thread)
  | complete (request : AioRequest) (retval errnoval : Int)
  | query (t : Thread) (out : AioPointers)
  | wait (t : Thread) (out : AioPointers)
  | waitReturn (t : Thread) (ret : Int) (errno : Int)
  | waitCheck (t : Thread)
  | readRetval (t : Thread)
  | readErrnoval (t : Thread)
deriving DecidableEq

namespace AioState

variable {Thread : Type}

def initial : AioState Thread where
  result := .initial
  flight := []
  call _ := .outside

variable [DecidableEq Thread] (s : AioState Thread)

def setCall (t : Thread) (c : AioCall) : AioState Thread :=
  { s with call := Function.update s.call t c }

def setActive (active : Bool) : AioState Thread :=
  { s with result := { s.result with active := active } }

variable {s} {t t' : Thread} {c : AioCall}

@[simp] theorem setCall_self : (s.setCall t c).call t = c := Function.update_self ..

theorem setCall_other (other : t' ≠ t) : (s.setCall t c).call t' = s.call t' :=
  Function.update_of_ne other ..

@[simp] theorem setCall_flight : (s.setCall t c).flight = s.flight := rfl

end AioState

variable {Thread : Type} [DecidableEq Thread]

def AioReturn.fail (ret : Int) (errno : Int) : AioReturn :=
  { ret := ret, errno := some errno, retval := none, errnoval := none }

def AioReturn.plain (ret : Int) : AioReturn :=
  { ret := ret, errno := none, retval := none, errnoval := none }

/-- One step; `none` when the label is not enabled. -/
def aioStep (s : AioState Thread) :
    AioLabel Thread → Option (Option AioReturn × AioState Thread)
  | .nullContext t =>
    if s.call t = .outside then some (some (.fail (-1) einval), s) else none
  | .submit t request =>
    if s.call t = .outside then
      if s.result.active then some (some (.fail (-1) ebusy), s)
      else some (none, (s.setActive true).setCall t (.marked request))
    else none
  | .accept t =>
    match s.call t with
    | .marked request => some (none, { s with flight := request :: s.flight }.setCall t .accepted)
    | _ => none
  | .reject t errno =>
    match s.call t with
    | .marked _ => some (none, s.setCall t (.rejected errno))
    | _ => none
  | .submitted t =>
    if s.call t = .accepted then some (some (.plain 0), s.setCall t .outside) else none
  | .unmark t =>
    match s.call t with
    | .rejected errno =>
      some (some (.fail (-1) errno), (s.setActive false).setCall t .outside)
    | _ => none
  | .complete request retval errnoval =>
    if request ∈ s.flight then
      some (none, { s with
        result := { active := false, retval := retval, errnoval := errnoval }
        flight := s.flight.erase request })
    else none
  | .query t out =>
    if s.call t = .outside then
      if s.result.active then some (some (.plain 1), s)
      else some (none, s.setCall t (.idleSeen out))
    else none
  | .wait t out =>
    if s.call t = .outside then
      if s.result.active then some (none, s.setCall t (.waiting out))
      else some (none, s.setCall t (.idleSeen out))
    else none
  | .waitReturn t ret errno =>
    match s.call t with
    | .waiting out =>
      if ret ≠ 0 then some (some (.fail ret errno), s.setCall t .outside)
      else some (none, s.setCall t (.waited out))
    | _ => none
  | .waitCheck t =>
    match s.call t with
    | .waited out =>
      if s.result.active then some (some (.fail (-1) ebusy), s.setCall t .outside)
      else some (none, s.setCall t (.idleSeen out))
    | _ => none
  | .readRetval t =>
    match s.call t with
    | .idleSeen out =>
      some (none, s.setCall t
        (.retvalRead out (if out.retval then some s.result.retval else none)))
    | _ => none
  | .readErrnoval t =>
    match s.call t with
    | .retvalRead out retval =>
      some (some { ret := 0, errno := none, retval := retval,
                   errnoval := if out.errnoval then some s.result.errnoval else none },
        s.setCall t .outside)
    | _ => none

def aioMachine (Thread : Type) [DecidableEq Thread] :
    Machine (AioState Thread) (AioLabel Thread) (Option AioReturn) where
  step := aioStep

abbrev AioEntry (Thread : Type) :=
  Entry (AioState Thread) (AioLabel Thread) (Option AioReturn)

inductive Effect (s : AioState Thread) : AioLabel Thread → Option AioReturn → AioState Thread → Prop
  | nullContext (t) (outside : s.call t = .outside) :
      Effect s (.nullContext t) (some (.fail (-1) einval)) s
  | submitBusy (t request) (outside : s.call t = .outside) (busy : s.result.active = true) :
      Effect s (.submit t request) (some (.fail (-1) ebusy)) s
  | submit (t request) (outside : s.call t = .outside) (free : s.result.active = false) :
      Effect s (.submit t request) none ((s.setActive true).setCall t (.marked request))
  | accept (t request) (here : s.call t = .marked request) :
      Effect s (.accept t) none ({ s with flight := request :: s.flight }.setCall t .accepted)
  | reject (t request errno) (here : s.call t = .marked request) :
      Effect s (.reject t errno) none (s.setCall t (.rejected errno))
  | submitted (t) (here : s.call t = .accepted) :
      Effect s (.submitted t) (some (.plain 0)) (s.setCall t .outside)
  | unmark (t errno) (here : s.call t = .rejected errno) :
      Effect s (.unmark t) (some (.fail (-1) errno)) ((s.setActive false).setCall t .outside)
  | complete (request retval errnoval) (flying : request ∈ s.flight) :
      Effect s (.complete request retval errnoval) none
        { s with
          result := { active := false, retval := retval, errnoval := errnoval }
          flight := s.flight.erase request }
  | queryBusy (t out) (outside : s.call t = .outside) (busy : s.result.active = true) :
      Effect s (.query t out) (some (.plain 1)) s
  | query (t out) (outside : s.call t = .outside) (free : s.result.active = false) :
      Effect s (.query t out) none (s.setCall t (.idleSeen out))
  | waitBusy (t out) (outside : s.call t = .outside) (busy : s.result.active = true) :
      Effect s (.wait t out) none (s.setCall t (.waiting out))
  | wait (t out) (outside : s.call t = .outside) (free : s.result.active = false) :
      Effect s (.wait t out) none (s.setCall t (.idleSeen out))
  | waitFail (t out ret errno) (here : s.call t = .waiting out) (fails : ret ≠ 0) :
      Effect s (.waitReturn t ret errno) (some (.fail ret errno)) (s.setCall t .outside)
  | waitReturn (t out errno) (here : s.call t = .waiting out) :
      Effect s (.waitReturn t 0 errno) none (s.setCall t (.waited out))
  | waitCheckBusy (t out) (here : s.call t = .waited out) (busy : s.result.active = true) :
      Effect s (.waitCheck t) (some (.fail (-1) ebusy)) (s.setCall t .outside)
  | waitCheck (t out) (here : s.call t = .waited out) (free : s.result.active = false) :
      Effect s (.waitCheck t) none (s.setCall t (.idleSeen out))
  | readRetval (t out) (here : s.call t = .idleSeen out) :
      Effect s (.readRetval t) none (s.setCall t
        (.retvalRead out (if out.retval then some s.result.retval else none)))
  | readErrnoval (t out retval) (here : s.call t = .retvalRead out retval) :
      Effect s (.readErrnoval t)
        (some { ret := 0, errno := none, retval := retval,
                errnoval := if out.errnoval then some s.result.errnoval else none })
        (s.setCall t .outside)

theorem aioStep_effect {s s' : AioState Thread} {label : AioLabel Thread}
    {ret : Option AioReturn} (stepped : aioStep s label = some (ret, s')) :
    Effect s label ret s' := by
  cases label with
  | nullContext t =>
    obtain ⟨outside, done⟩ := Option.ite_none_right_eq_some.mp stepped
    obtain ⟨rfl, rfl⟩ := Prod.mk.inj (Option.some.inj done)
    exact .nullContext t outside
  | submit t request =>
    obtain ⟨outside, done⟩ := Option.ite_none_right_eq_some.mp stepped
    split at done
    · rename_i busy
      obtain ⟨rfl, rfl⟩ := Prod.mk.inj (Option.some.inj done)
      exact .submitBusy t request outside busy
    · rename_i free
      obtain ⟨rfl, rfl⟩ := Prod.mk.inj (Option.some.inj done)
      exact .submit t request outside (eq_false_of_ne_true free)
  | accept t =>
    simp only [aioStep] at stepped
    split at stepped
    · rename_i request here
      obtain ⟨rfl, rfl⟩ := Prod.mk.inj (Option.some.inj stepped)
      exact .accept t request here
    · exact absurd stepped (by simp)
  | reject t errno =>
    simp only [aioStep] at stepped
    split at stepped
    · rename_i request here
      obtain ⟨rfl, rfl⟩ := Prod.mk.inj (Option.some.inj stepped)
      exact .reject t request errno here
    · exact absurd stepped (by simp)
  | submitted t =>
    obtain ⟨here, done⟩ := Option.ite_none_right_eq_some.mp stepped
    obtain ⟨rfl, rfl⟩ := Prod.mk.inj (Option.some.inj done)
    exact .submitted t here
  | unmark t =>
    simp only [aioStep] at stepped
    split at stepped
    · rename_i errno here
      obtain ⟨rfl, rfl⟩ := Prod.mk.inj (Option.some.inj stepped)
      exact .unmark t errno here
    · exact absurd stepped (by simp)
  | complete request retval errnoval =>
    obtain ⟨flying, done⟩ := Option.ite_none_right_eq_some.mp stepped
    obtain ⟨rfl, rfl⟩ := Prod.mk.inj (Option.some.inj done)
    exact .complete request retval errnoval flying
  | query t out =>
    obtain ⟨outside, done⟩ := Option.ite_none_right_eq_some.mp stepped
    split at done
    · rename_i busy
      obtain ⟨rfl, rfl⟩ := Prod.mk.inj (Option.some.inj done)
      exact .queryBusy t out outside busy
    · rename_i free
      obtain ⟨rfl, rfl⟩ := Prod.mk.inj (Option.some.inj done)
      exact .query t out outside (eq_false_of_ne_true free)
  | wait t out =>
    obtain ⟨outside, done⟩ := Option.ite_none_right_eq_some.mp stepped
    split at done
    · rename_i busy
      obtain ⟨rfl, rfl⟩ := Prod.mk.inj (Option.some.inj done)
      exact .waitBusy t out outside busy
    · rename_i free
      obtain ⟨rfl, rfl⟩ := Prod.mk.inj (Option.some.inj done)
      exact .wait t out outside (eq_false_of_ne_true free)
  | waitReturn t code errno =>
    simp only [aioStep] at stepped
    split at stepped
    · rename_i out here
      split at stepped
      · rename_i fails
        obtain ⟨rfl, rfl⟩ := Prod.mk.inj (Option.some.inj stepped)
        exact .waitFail t out code errno here fails
      · rename_i zero
        obtain rfl := not_not.mp zero
        obtain ⟨rfl, rfl⟩ := Prod.mk.inj (Option.some.inj stepped)
        exact .waitReturn t out errno here
    · exact absurd stepped (by simp)
  | waitCheck t =>
    simp only [aioStep] at stepped
    split at stepped
    · rename_i out here
      split at stepped
      · rename_i busy
        obtain ⟨rfl, rfl⟩ := Prod.mk.inj (Option.some.inj stepped)
        exact .waitCheckBusy t out here busy
      · rename_i free
        obtain ⟨rfl, rfl⟩ := Prod.mk.inj (Option.some.inj stepped)
        exact .waitCheck t out here (eq_false_of_ne_true free)
    · exact absurd stepped (by simp)
  | readRetval t =>
    simp only [aioStep] at stepped
    split at stepped
    · rename_i out here
      obtain ⟨rfl, rfl⟩ := Prod.mk.inj (Option.some.inj stepped)
      exact .readRetval t out here
    · exact absurd stepped (by simp)
  | readErrnoval t =>
    simp only [aioStep] at stepped
    split at stepped
    · rename_i out retval here
      obtain ⟨rfl, rfl⟩ := Prod.mk.inj (Option.some.inj stepped)
      exact .readErrnoval t out retval here
    · exact absurd stepped (by simp)

end Libsysve.Veaio
