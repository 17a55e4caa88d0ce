import Mathlib.Data.Fintype.Basic
import Libsysve.Veaio.Context

/-!
# Results of completed requests

`ve_aio_query` and `ve_aio_wait` read the two fields of the result without the lock.  The
fields belong to one request as long as no request is completed between the reads.
-/

set_option autoImplicit false

namespace Libsysve.Veaio

variable {Thread : Type}

def bothPointers : AioPointers := { retval := true, errnoval := true }

def observeDone (done : List (Int × Int)) (e : AioEntry Thread) : List (Int × Int) :=
  match e.label with
  | .complete _ retval errnoval => done ++ [(retval, errnoval)]
  | _ => done

/-- A call that returns 0 has stored the result of one completed request. -/
def Paired (done : List (Int × Int)) (e : AioEntry Thread) : Prop :=
  ∀ t ret, e.label = .readErrnoval t → e.out = some ret → ret.ret = 0 →
    ∀ retval errnoval, ret.retval = some retval → ret.errnoval = some errnoval →
      (retval, errnoval) ∈ done

/-- The call has read `retval` and not yet `errnoval`. -/
def AioCall.midRead : AioCall → Bool
  | .retvalRead out _ => out == bothPointers
  | _ => false

def AioCall.waitedBoth : AioCall → Bool
  | .waited out => out == bothPointers
  | _ => false

/-- No request is completed between the two reads of a call, and a call for both fields finds
the context idle only after a request was completed. -/
def Careful (done : List (Int × Int)) (e : AioEntry Thread) : Prop :=
  match e.label with
  | .complete .. => ∀ t, (e.before.call t).midRead = false
  | .query _ out => out = bothPointers → e.before.result.active = true ∨ done ≠ []
  | .wait _ out => out = bothPointers → e.before.result.active = true ∨ done ≠ []
  | .waitCheck t =>
    (e.before.call t).waitedBoth = true → e.before.result.active = true ∨ done ≠ []
  | _ => True

/-- What a call that has seen the context idle, or has read `retval`, may rely on. -/
structure ReadInv (done : List (Int × Int)) (s : AioState Thread) : Prop where
  result : done ≠ [] → (s.result.retval, s.result.errnoval) ∈ done
  seen : ∀ t, s.call t = .idleSeen bothPointers → done ≠ []
  mid : ∀ t retval, s.call t = .retvalRead bothPointers retval →
    retval = some s.result.retval ∧ done ≠ []
  given : ∀ t out retval, s.call t = .retvalRead out (some retval) → out.retval = true

theorem readInv_initial : ReadInv [] (.initial : AioState Thread) where
  result some := absurd rfl some
  seen _ never := AioCall.noConfusion never
  mid _ _ never := AioCall.noConfusion never
  given _ _ _ never := AioCall.noConfusion never

variable {done : List (Int × Int)} {s s' : AioState Thread}

theorem ReadInv.setActive (inv : ReadInv done s) (active : Bool) :
    ReadInv done (s.setActive active) :=
  ⟨inv.result, inv.seen, inv.mid, inv.given⟩

theorem ReadInv.complete {request : AioRequest} {retval errnoval : Int} (inv : ReadInv done s)
    (nobody : ∀ t, (s.call t).midRead = false) :
    ReadInv (done ++ [(retval, errnoval)])
      { s with
        result := { active := false, retval := retval, errnoval := errnoval }
        flight := s.flight.erase request } where
  result _ := List.mem_append_right done (List.mem_singleton_self _)
  seen _ _ := by simp
  mid t before reads := by
    have mid : (s.call t).midRead = true := by
      rw [reads]
      exact beq_self_eq_true bothPointers
    exact absurd ((nobody t).symm.trans mid) Bool.false_ne_true
  given := inv.given

variable [DecidableEq Thread] {t : Thread} {c : AioCall}

theorem ReadInv.setCall (inv : ReadInv done s)
    (seen : c = .idleSeen bothPointers → done ≠ [])
    (mid : ∀ retval, c = .retvalRead bothPointers retval →
      retval = some s.result.retval ∧ done ≠ [])
    (given : ∀ out retval, c = .retvalRead out (some retval) → out.retval = true) :
    ReadInv done (s.setCall t c) where
  result := inv.result
  seen t' sees := by
    by_cases here : t' = t
    · rw [here, AioState.setCall_self] at sees
      exact seen sees
    · rw [AioState.setCall_other here] at sees
      exact inv.seen t' sees
  mid t' retval reads := by
    by_cases here : t' = t
    · rw [here, AioState.setCall_self] at reads
      exact mid retval reads
    · rw [AioState.setCall_other here] at reads
      exact inv.mid t' retval reads
  given t' out retval reads := by
    by_cases here : t' = t
    · rw [here, AioState.setCall_self] at reads
      exact given out retval reads
    · rw [AioState.setCall_other here] at reads
      exact inv.given t' out retval reads

theorem ReadInv.seesIdle {out : AioPointers} (inv : ReadInv done s)
    (free : s.result.active = false)
    (careful : out = bothPointers → s.result.active = true ∨ done ≠ []) :
    ReadInv done (s.setCall t (.idleSeen out)) := by
  refine inv.setCall (fun sees => ?_) (fun _ never => AioCall.noConfusion never)
    (fun _ _ never => AioCall.noConfusion never)
  rcases careful (AioCall.idleSeen.inj sees) with busy | some
  · exact absurd (free.symm.trans busy) Bool.false_ne_true
  · exact some

theorem ReadInv.goesOn (inv : ReadInv done s) (test : c ≠ .idleSeen bothPointers)
    (read : ∀ out retval, c ≠ .retvalRead out retval) : ReadInv done (s.setCall t c) :=
  inv.setCall (fun sees => absurd sees test) (fun retval reads => absurd reads (read _ retval))
    (fun out _ reads => absurd reads (read out _))

variable {label : AioLabel Thread} {ret : Option AioReturn}

theorem ReadInv.step (inv : ReadInv done s) (effect : Effect s label ret s')
    (careful : Careful done ⟨s, label, ret, s'⟩) :
    ReadInv (observeDone done ⟨s, label, ret, s'⟩) s' := by
  cases effect with
  | nullContext t outside => exact inv
  | submitBusy t request outside busy => exact inv
  | submit t request outside free =>
    exact (inv.setActive true).goesOn (fun never => AioCall.noConfusion never)
      (fun _ _ never => AioCall.noConfusion never)
  | accept t request here =>
    have flying : ReadInv done { s with flight := request :: s.flight } :=
      ⟨inv.result, inv.seen, inv.mid, inv.given⟩
    exact flying.goesOn (fun never => AioCall.noConfusion never)
      (fun _ _ never => AioCall.noConfusion never)
  | reject t request errno here =>
    exact inv.goesOn (fun never => AioCall.noConfusion never)
      (fun _ _ never => AioCall.noConfusion never)
  | submitted t here =>
    exact inv.goesOn (fun never => AioCall.noConfusion never)
      (fun _ _ never => AioCall.noConfusion never)
  | unmark t errno here =>
    exact (inv.setActive false).goesOn (fun never => AioCall.noConfusion never)
      (fun _ _ never => AioCall.noConfusion never)
  | complete request retval errnoval flying => exact inv.complete careful
  | queryBusy t out outside busy => exact inv
  | query t out outside free => exact inv.seesIdle free careful
  | waitBusy t out outside busy =>
    exact inv.goesOn (fun never => AioCall.noConfusion never)
      (fun _ _ never => AioCall.noConfusion never)
  | wait t out outside free => exact inv.seesIdle free careful
  | waitFail t out code errno here fails =>
    exact inv.goesOn (fun never => AioCall.noConfusion never)
      (fun _ _ never => AioCall.noConfusion never)
  | waitReturn t out errno here =>
    exact inv.goesOn (fun never => AioCall.noConfusion never)
      (fun _ _ never => AioCall.noConfusion never)
  | waitCheckBusy t out here busy =>
    exact inv.goesOn (fun never => AioCall.noConfusion never)
      (fun _ _ never => AioCall.noConfusion never)
  | waitCheck t out here free =>
    refine inv.seesIdle free (fun both => careful ?_)
    rw [here, both]
    exact beq_self_eq_true bothPointers
  | readRetval t out here =>
    refine inv.setCall (fun never => AioCall.noConfusion never) (fun retval reads => ?_)
      (fun out' retval reads => ?_)
    · obtain ⟨both, read⟩ := AioCall.retvalRead.inj reads
      subst both
      exact ⟨read.symm, inv.seen t here⟩
    · obtain ⟨same, read⟩ := AioCall.retvalRead.inj reads
      obtain ⟨asked, _⟩ := Option.ite_none_right_eq_some.mp read
      exact same ▸ asked
  | readErrnoval t out retval here =>
    exact inv.goesOn (fun never => AioCall.noConfusion never)
      (fun _ _ never => AioCall.noConfusion never)

theorem ReadInv.paired (inv : ReadInv done s) (effect : Effect s label ret s') :
    Paired done ⟨s, label, ret, s'⟩ := by
  intro t r reads returns _ retval errnoval storedRetval storedErrnoval
  obtain rfl : label = .readErrnoval t := reads
  cases effect with
  | readErrnoval _ out read here =>
    obtain rfl := Option.some.inj returns
    obtain rfl : read = some retval := storedRetval
    have stored : (if out.errnoval then some s.result.errnoval else none) = some errnoval :=
      storedErrnoval
    obtain ⟨errnoGiven, same⟩ := Option.ite_none_right_eq_some.mp stored
    have both : out = bothPointers := by
      obtain ⟨first, second⟩ := out
      have retvalGiven := inv.given t _ _ here
      simp only [bothPointers, AioPointers.mk.injEq]
      exact ⟨retvalGiven, errnoGiven⟩
    obtain ⟨read, some⟩ := inv.mid t _ (both ▸ here)
    rw [Option.some.inj read, ← Option.some.inj same]
    exact inv.result some

/-- In every careful run a call that returns 0 with both fields has those of one request. -/
theorem careful_results_paired (trace : List (AioEntry Thread)) (final : AioState Thread)
    (run : (aioMachine Thread).Run .initial trace final)
    (careful : (Monitor.mk [] observeDone Careful).Safe trace) :
    (Monitor.mk [] observeDone Paired).Safe trace := by
  refine run.guarantee readInv_initial ?_ careful
  intro done s label ret s' inv stepped now
  have effect := aioStep_effect stepped
  exact ⟨inv.paired effect, inv.step effect now⟩

instance decidableCareful [Fintype Thread] (done : List (Int × Int)) :
    (e : AioEntry Thread) → Decidable (Careful done e)
  | ⟨s, .complete .., _, _⟩ => inferInstanceAs (Decidable (∀ t, (s.call t).midRead = false))
  | ⟨s, .query _ out, _, _⟩ =>
    inferInstanceAs (Decidable (out = bothPointers → s.result.active = true ∨ done ≠ []))
  | ⟨s, .wait _ out, _, _⟩ =>
    inferInstanceAs (Decidable (out = bothPointers → s.result.active = true ∨ done ≠ []))
  | ⟨s, .waitCheck t, _, _⟩ =>
    inferInstanceAs (Decidable ((s.call t).waitedBoth = true →
      s.result.active = true ∨ done ≠ []))
  | ⟨_, .nullContext _, _, _⟩ => isTrue trivial
  | ⟨_, .submit .., _, _⟩ => isTrue trivial
  | ⟨_, .accept _, _, _⟩ => isTrue trivial
  | ⟨_, .reject .., _, _⟩ => isTrue trivial
  | ⟨_, .submitted _, _, _⟩ => isTrue trivial
  | ⟨_, .unmark _, _, _⟩ => isTrue trivial
  | ⟨_, .waitReturn .., _, _⟩ => isTrue trivial
  | ⟨_, .readRetval _, _, _⟩ => isTrue trivial
  | ⟨_, .readErrnoval _, _, _⟩ => isTrue trivial

def someRequest : AioRequest := { op := .read, fd := 3, count := 8, buf := 0, offset := 0 }

/-- Thread `u` submits again while thread `t` has the context seen idle, and the request is
completed before both reads. -/
def pairedLabels (t u : Thread) : List (AioLabel Thread) :=
  [.submit u someRequest, .accept u, .complete someRequest 8 0, .submitted u,
    .query t bothPointers, .submit u someRequest, .accept u, .complete someRequest (-1) 5,
    .readRetval t, .readErrnoval t]

theorem careful_results_paired_resubmitted :
    ∃ trace final, (aioMachine (Fin 2)).exec .initial (pairedLabels 0 1) = some (trace, final) ∧
      trace.getLast?.bind Entry.out =
        some { ret := 0, errno := none, retval := some (-1), errnoval := some 5 } ∧
      (Monitor.mk [] observeDone Paired).Safe trace := by
  have checked : ((aioMachine (Fin 2)).exec .initial (pairedLabels 0 1)).any (fun done =>
      decide (done.1.getLast?.bind Entry.out =
          some { ret := 0, errno := none, retval := some (-1), errnoval := some 5 } ∧
        (Monitor.mk [] observeDone Careful).SafeFrom [] done.1)) = true := by
    decide +kernel
  rw [Option.any_eq_true] at checked
  obtain ⟨⟨trace, final⟩, ran, holds⟩ := checked
  obtain ⟨last, now⟩ := of_decide_eq_true holds
  have careful := (Monitor.mk [] observeDone Careful).safe_of_safeFrom trace now
  exact ⟨trace, final, ran, last,
    careful_results_paired trace final (Machine.exec_run ran) careful⟩

/-- The second request is completed between the reads: its error number comes with the return
value of the first one. -/
def mixedLabels (t u : Thread) : List (AioLabel Thread) :=
  [.submit u someRequest, .accept u, .complete someRequest 8 0, .submitted u,
    .query t bothPointers, .readRetval t, .submit u someRequest, .accept u,
    .complete someRequest (-1) 5]

theorem results_mixed :
    ¬ ∀ trace final, (aioMachine (Fin 2)).Run .initial trace final →
      (Monitor.mk [] observeDone Paired).Safe trace := by
  intro always
  have checked : ((aioMachine (Fin 2)).exec .initial (mixedLabels 0 1)).any (fun a =>
      ((aioMachine (Fin 2)).exec a.2 [.readErrnoval 0]).any (fun b =>
        decide (a.1.foldl observeDone [] = [(8, 0), (-1, 5)] ∧
          b.1.map (fun e => (e.label, e.out)) = [(.readErrnoval 0,
            some { ret := 0, errno := none, retval := some 8, errnoval := some 5 })]))) =
      true := by
    decide +kernel
  simp only [Option.any_eq_true, decide_eq_true_eq, Prod.exists, List.map_eq_singleton_iff,
    Prod.mk.injEq] at checked
  obtain ⟨before, s₁, ran₁, _, s₂, ran₂, done, e, rfl, reads, returns⟩ := checked
  have run := (Machine.exec_run ran₁).append (Machine.exec_run ran₂)
  have paired := always _ _ run before e [] rfl
  have member := paired 0 _ reads returns rfl 8 5 rfl rfl
  rw [Monitor.stateAfter, done] at member
  exact absurd member (by decide)

end Libsysve.Veaio
