import Libsysve.Veaio.Context

/-!
# One request in flight

A context that is marked busy has either one accepted request that is not completed, or one
thread between its two locked sections whose request was not accepted.
-/

set_option autoImplicit false

namespace Libsysve.Veaio

variable {Thread : Type}

/-- The thread has marked the context and its request is not accepted. -/
def AioCall.holdsMark : AioCall → Bool
  | .marked _ => true
  | .rejected _ => true
  | _ => false

structure MarkInv (s : AioState Thread) : Prop where
  one : s.flight.length ≤ 1
  flying : s.flight ≠ [] → s.result.active = true
  held : ∀ t, (s.call t).holdsMark = true → s.result.active = true ∧ s.flight = []
  unique : ∀ t t', (s.call t).holdsMark = true → (s.call t').holdsMark = true → t = t'

theorem markInv_initial : MarkInv (.initial : AioState Thread) where
  one := Nat.zero_le 1
  flying some := absurd rfl some
  held _ holds := absurd holds Bool.false_ne_true
  unique _ _ holds _ := absurd holds Bool.false_ne_true

theorem MarkInv.idle {s : AioState Thread} (inv : MarkInv s) (free : s.result.active = false) :
    s.flight = [] ∧ ∀ t, (s.call t).holdsMark = false := by
  constructor
  · by_contra some
    exact Bool.false_ne_true (free.symm.trans (inv.flying some))
  · intro t
    refine eq_false_of_ne_true (fun holds => ?_)
    exact Bool.false_ne_true (free.symm.trans (inv.held t holds).1)

theorem MarkInv.flying_nobody {s : AioState Thread} {request : AioRequest} (inv : MarkInv s)
    (flying : request ∈ s.flight) (t : Thread) : (s.call t).holdsMark = false := by
  refine eq_false_of_ne_true (fun holds => ?_)
  exact List.ne_nil_of_mem flying (inv.held t holds).2

theorem MarkInv.complete {s : AioState Thread} {request : AioRequest} {result : AioResult}
    (inv : MarkInv s) (flying : request ∈ s.flight) :
    MarkInv { s with result := result, flight := s.flight.erase request } := by
  have none : s.flight.erase request = [] := by
    have short := List.length_erase_of_mem flying
    have one := inv.one
    exact List.eq_nil_of_length_eq_zero (by omega)
  have nobody := inv.flying_nobody flying
  refine ⟨?_, fun some => absurd none some, fun t' holds => ?_, fun t' _ holds _ => ?_⟩
  · exact none ▸ Nat.zero_le 1
  · exact absurd ((nobody t').symm.trans holds) Bool.false_ne_true
  · exact absurd ((nobody t').symm.trans holds) Bool.false_ne_true

/-- While a thread has the mark the result is the one it has found. -/
def Kept (found : Thread → AioResult) (s : AioState Thread) : Prop :=
  ∀ t, (s.call t).holdsMark = true →
    s.result.retval = (found t).retval ∧ s.result.errnoval = (found t).errnoval

structure SubmitInv (found : Thread → AioResult) (s : AioState Thread) : Prop where
  mark : MarkInv s
  kept : Kept found s

theorem submitInv_initial (found : Thread → AioResult) :
    SubmitInv found (.initial : AioState Thread) :=
  ⟨markInv_initial, fun _ holds => absurd holds Bool.false_ne_true⟩

variable [DecidableEq Thread] {s s' : AioState Thread} {t : Thread} {c : AioCall}

theorem MarkInv.setCall (inv : MarkInv s)
    (fewer : c.holdsMark = true → (s.call t).holdsMark = true) : MarkInv (s.setCall t c) := by
  have only : ∀ t', ((s.setCall t c).call t').holdsMark = true →
      (s.call t').holdsMark = true := by
    intro t' holds
    by_cases here : t' = t
    · rw [here, AioState.setCall_self] at holds
      exact here ▸ fewer holds
    · rwa [AioState.setCall_other here] at holds
  exact ⟨inv.one, inv.flying, fun t' holds => inv.held t' (only t' holds),
    fun t₁ t₂ holds holds' => inv.unique t₁ t₂ (only t₁ holds) (only t₂ holds')⟩

theorem MarkInv.submit (inv : MarkInv s) (free : s.result.active = false)
    (request : AioRequest) : MarkInv ((s.setActive true).setCall t (.marked request)) := by
  obtain ⟨empty, nobody⟩ := inv.idle free
  have only : ∀ t', (((s.setActive true).setCall t (.marked request)).call t').holdsMark = true →
      t' = t := by
    intro t' holds
    by_contra other
    rw [AioState.setCall_other other] at holds
    exact Bool.false_ne_true ((nobody t').symm.trans holds)
  exact ⟨inv.one, fun _ => rfl, fun t' _ => ⟨rfl, empty⟩,
    fun t₁ t₂ holds holds' => (only t₁ holds).trans (only t₂ holds').symm⟩

theorem MarkInv.nobody (inv : MarkInv s) (holds : (s.call t).holdsMark = true)
    (given : c.holdsMark = false) (t' : Thread) : ((s.setCall t c).call t').holdsMark = false := by
  by_cases here : t' = t
  · rw [here, AioState.setCall_self, given]
  · rw [AioState.setCall_other here]
    refine eq_false_of_ne_true (fun holds' => ?_)
    exact here (inv.unique t' t holds' holds)

theorem MarkInv.accept (inv : MarkInv s) (holds : (s.call t).holdsMark = true)
    (request : AioRequest) :
    MarkInv ({ s with flight := request :: s.flight }.setCall t .accepted) := by
  obtain ⟨active, empty⟩ := inv.held t holds
  have nobody := inv.nobody (c := .accepted) holds rfl
  refine ⟨?_, fun _ => active, fun t' holds' => ?_, fun t' _ holds' _ => ?_⟩
  · rw [AioState.setCall_flight, empty]
    exact le_refl 1
  · exact absurd ((nobody t').symm.trans holds') Bool.false_ne_true
  · exact absurd ((nobody t').symm.trans holds') Bool.false_ne_true

theorem MarkInv.unmark (inv : MarkInv s) (holds : (s.call t).holdsMark = true) :
    MarkInv ((s.setActive false).setCall t .outside) := by
  have empty := (inv.held t holds).2
  have nobody := inv.nobody (c := .outside) holds rfl
  refine ⟨inv.one, fun some => absurd empty some, fun t' holds' => ?_, fun t' _ holds' _ => ?_⟩
  · exact absurd ((nobody t').symm.trans holds') Bool.false_ne_true
  · exact absurd ((nobody t').symm.trans holds') Bool.false_ne_true

theorem MarkInv.step {label : AioLabel Thread} {ret : Option AioReturn} (inv : MarkInv s)
    (effect : Effect s label ret s') : MarkInv s' := by
  cases effect with
  | nullContext t outside => exact inv
  | submitBusy t request outside busy => exact inv
  | submit t request outside free => exact inv.submit free request
  | accept t request here => exact inv.accept (by rw [here]; rfl) request
  | reject t request errno here => exact inv.setCall (fun _ => by rw [here]; rfl)
  | submitted t here => exact inv.setCall (fun never => absurd never Bool.false_ne_true)
  | unmark t errno here => exact inv.unmark (by rw [here]; rfl)
  | complete request retval errnoval flying => exact inv.complete flying
  | queryBusy t out outside busy => exact inv
  | query t out outside free =>
    exact inv.setCall (fun never => absurd never Bool.false_ne_true)
  | waitBusy t out outside busy =>
    exact inv.setCall (fun never => absurd never Bool.false_ne_true)
  | wait t out outside free => exact inv.setCall (fun never => absurd never Bool.false_ne_true)
  | waitFail t out code errno here fails =>
    exact inv.setCall (fun never => absurd never Bool.false_ne_true)
  | waitReturn t out errno here =>
    exact inv.setCall (fun never => absurd never Bool.false_ne_true)
  | waitCheckBusy t out here busy =>
    exact inv.setCall (fun never => absurd never Bool.false_ne_true)
  | waitCheck t out here free =>
    exact inv.setCall (fun never => absurd never Bool.false_ne_true)
  | readRetval t out here => exact inv.setCall (fun never => absurd never Bool.false_ne_true)
  | readErrnoval t out retval here =>
    exact inv.setCall (fun never => absurd never Bool.false_ne_true)

/-! ## What a submission that fails leaves -/

def AioLabel.submits : AioLabel Thread → Option Thread
  | .submit t _ => some t
  | _ => none

/-- The result each thread has found at its latest submission. -/
def observeSubmit (found : Thread → AioResult) (e : AioEntry Thread) : Thread → AioResult :=
  match e.label with
  | .submit t _ => Function.update found t e.before.result
  | _ => found

/-- EBUSY and a rejected request leave the result as the submission has found it, and only the
thread's own mark is cleared; a test that finds the context idle finds no request in flight. -/
structure StepClean (found : Thread → AioResult) (e : AioEntry Thread) : Prop where
  refused : ∀ t request, e.label = .submit t request → e.out ≠ none → e.after = e.before
  rejected : ∀ t, e.label = .unmark t →
    e.after.result.retval = (found t).retval ∧ e.after.result.errnoval = (found t).errnoval ∧
      e.before.flight = [] ∧ ∀ t', t' ≠ t → (e.before.call t').holdsMark = false
  idle : ∀ t out, e.after.call t = .idleSeen out → e.before.call t ≠ .idleSeen out →
    e.before.flight = []

variable {found : Thread → AioResult} {label : AioLabel Thread} {ret : Option AioReturn}

theorem Kept.setCall (kept : Kept found s)
    (fewer : c.holdsMark = true → (s.call t).holdsMark = true) : Kept found (s.setCall t c) := by
  intro t' holds
  by_cases here : t' = t
  · rw [here, AioState.setCall_self] at holds
    exact here ▸ kept t (fewer holds)
  · rw [AioState.setCall_other here] at holds
    exact kept t' holds

theorem Kept.step (inv : MarkInv s) (kept : Kept found s) (effect : Effect s label ret s') :
    Kept (observeSubmit found ⟨s, label, ret, s'⟩) s' := by
  cases effect with
  | nullContext t outside => exact kept
  | submitBusy t request outside busy =>
    intro t' holds
    have other : t' ≠ t := by
      rintro rfl
      rw [outside] at holds
      exact Bool.false_ne_true holds
    simp only [observeSubmit, Function.update_of_ne other]
    exact kept t' holds
  | submit t request outside free =>
    intro t' holds
    by_cases here : t' = t
    · subst here
      simp only [observeSubmit, Function.update_self]
      exact ⟨rfl, rfl⟩
    · rw [AioState.setCall_other here] at holds
      exact absurd ((inv.idle free).2 t' ▸ holds) Bool.false_ne_true
  | accept t request here =>
    have fewer : AioCall.accepted.holdsMark = true → (s.call t).holdsMark = true :=
      fun never => absurd never Bool.false_ne_true
    exact kept.setCall fewer
  | reject t request errno here => exact kept.setCall (fun _ => by rw [here]; rfl)
  | submitted t here => exact kept.setCall (fun never => absurd never Bool.false_ne_true)
  | unmark t errno here =>
    have holds : (s.call t).holdsMark = true := by rw [here]; rfl
    intro t' holds'
    have nobody := inv.nobody (c := .outside) holds rfl t'
    exact absurd (nobody.symm.trans holds') Bool.false_ne_true
  | complete request retval errnoval flying =>
    intro t' holds
    exact absurd ((inv.flying_nobody flying t').symm.trans holds) Bool.false_ne_true
  | queryBusy t out outside busy => exact kept
  | query t out outside free =>
    exact kept.setCall (fun never => absurd never Bool.false_ne_true)
  | waitBusy t out outside busy =>
    exact kept.setCall (fun never => absurd never Bool.false_ne_true)
  | wait t out outside free =>
    exact kept.setCall (fun never => absurd never Bool.false_ne_true)
  | waitFail t out code errno here fails =>
    exact kept.setCall (fun never => absurd never Bool.false_ne_true)
  | waitReturn t out errno here =>
    exact kept.setCall (fun never => absurd never Bool.false_ne_true)
  | waitCheckBusy t out here busy =>
    exact kept.setCall (fun never => absurd never Bool.false_ne_true)
  | waitCheck t out here free =>
    exact kept.setCall (fun never => absurd never Bool.false_ne_true)
  | readRetval t out here => exact kept.setCall (fun never => absurd never Bool.false_ne_true)
  | readErrnoval t out retval here =>
    exact kept.setCall (fun never => absurd never Bool.false_ne_true)

theorem idleSeen_of_setCall {t' : Thread} {out : AioPointers}
    (after : (s.setCall t c).call t' = .idleSeen out) (before : s.call t' ≠ .idleSeen out) :
    c = .idleSeen out := by
  by_cases here : t' = t
  · rwa [here, AioState.setCall_self] at after
  · rw [AioState.setCall_other here] at after
    exact absurd after before

theorem MarkInv.idle_check {t : Thread} {out : AioPointers} (inv : MarkInv s)
    (effect : Effect s label ret s') (after : s'.call t = .idleSeen out)
    (before : s.call t ≠ .idleSeen out) : s.flight = [] := by
  cases effect with
  | nullContext t' outside => exact absurd after before
  | submitBusy t' request outside busy => exact absurd after before
  | queryBusy t' out' outside busy => exact absurd after before
  | complete request retval errnoval flying => exact absurd after before
  | query t' out' outside free => exact (inv.idle free).1
  | wait t' out' outside free => exact (inv.idle free).1
  | waitCheck t' out' here free => exact (inv.idle free).1
  | submit t' request outside free => exact (inv.idle free).1
  | accept t' request here =>
    have seen : AioCall.accepted = .idleSeen out := idleSeen_of_setCall after before
    exact absurd seen (by simp)
  | reject t' request errno here => exact absurd (idleSeen_of_setCall after before) (by simp)
  | submitted t' here => exact absurd (idleSeen_of_setCall after before) (by simp)
  | unmark t' errno here => exact (inv.held t' (by rw [here]; rfl)).2
  | waitBusy t' out' outside busy => exact absurd (idleSeen_of_setCall after before) (by simp)
  | waitFail t' out' code errno here fails =>
    exact absurd (idleSeen_of_setCall after before) (by simp)
  | waitReturn t' out' errno here => exact absurd (idleSeen_of_setCall after before) (by simp)
  | waitCheckBusy t' out' here busy => exact absurd (idleSeen_of_setCall after before) (by simp)
  | readRetval t' out' here => exact absurd (idleSeen_of_setCall after before) (by simp)
  | readErrnoval t' out' retval here =>
    exact absurd (idleSeen_of_setCall after before) (by simp)

theorem StepClean.of_effect (inv : MarkInv s) (kept : Kept found s)
    (effect : Effect s label ret s') : StepClean found ⟨s, label, ret, s'⟩ where
  refused t request submits returns := by
    obtain rfl : label = .submit t request := submits
    cases effect with
    | submitBusy _ _ outside busy => rfl
    | submit _ _ outside free => exact absurd rfl returns
  rejected t unmarks := by
    obtain rfl : label = .unmark t := unmarks
    cases effect with
    | unmark _ errno here =>
      have holds : (s.call t).holdsMark = true := by rw [here]; rfl
      obtain ⟨retval, errnoval⟩ := kept t holds
      refine ⟨retval, errnoval, (inv.held t holds).2, fun t' other => ?_⟩
      refine eq_false_of_ne_true (fun holds' => ?_)
      exact other (inv.unique t' t holds' holds)
  idle t out after before := inv.idle_check effect after before

/-! ## Runs -/

theorem foldl_observeSubmit {mid : List (AioEntry Thread)}
    (none : ∀ e ∈ mid, e.label.submits ≠ some t) :
    mid.foldl observeSubmit found t = found t := by
  induction mid generalizing found with
  | nil => rfl
  | cons e rest ih =>
    have later : rest.foldl observeSubmit (observeSubmit found e) t = observeSubmit found e t :=
      ih (fun x member => none x (List.mem_cons_of_mem e member))
    have here : observeSubmit found e t = found t := by
      obtain ⟨before, label, ret, after⟩ := e
      have other := none _ List.mem_cons_self
      cases label with
      | submit t' request =>
        have differ : t ≠ t' := fun same => other (congrArg some same.symm)
        exact Function.update_of_ne differ ..
      | _ => rfl
    exact later.trans here

/-- A submission that returns -1 leaves `retval` and `errnoval` as they were and clears no
mark but its own; `binary` is not negative only while no accepted request is incomplete. -/
structure ResultsKept (trace : List (AioEntry Thread)) : Prop where
  refused : ∀ e ∈ trace, ∀ t request, e.label = .submit t request → e.out ≠ none →
    e.after = e.before
  rejected : ∀ before e mid e' rest t request, trace = before ++ e :: mid ++ e' :: rest →
    e.label = .submit t request → (∀ x ∈ mid, x.label.submits ≠ some t) →
      e'.label = .unmark t →
        e'.after.result.retval = e.before.result.retval ∧
          e'.after.result.errnoval = e.before.result.errnoval ∧
          e'.before.flight = [] ∧ ∀ t', t' ≠ t → (e'.before.call t').holdsMark = false
  idle : ∀ e ∈ trace, ∀ t out, e.after.call t = .idleSeen out →
    e.before.call t ≠ .idleSeen out → e.before.flight = []

theorem resultsKept_of_safe {first : Thread → AioResult} {trace : List (AioEntry Thread)}
    (safe : (Monitor.mk first observeSubmit StepClean).Safe trace) : ResultsKept trace where
  refused e member := by
    obtain ⟨before, rest, split⟩ := List.append_of_mem member
    exact (safe before e rest split).refused
  rejected before e mid e' rest t request split submits others unmarks := by
    have clean := safe (before ++ e :: mid) e' rest split
    have seen : (Monitor.mk first observeSubmit StepClean).stateAfter (before ++ e :: mid) t =
        e.before.result := by
      rw [Monitor.stateAfter, List.foldl_append, List.foldl_cons, foldl_observeSubmit others]
      simp only [observeSubmit, submits, Function.update_self]
    rw [← seen]
    exact clean.rejected t unmarks
  idle e member := by
    obtain ⟨before, rest, split⟩ := List.append_of_mem member
    exact (safe before e rest split).idle

theorem SubmitInv.step (inv : SubmitInv found s) (effect : Effect s label ret s') :
    SubmitInv (observeSubmit found ⟨s, label, ret, s'⟩) s' :=
  ⟨inv.mark.step effect, inv.kept.step inv.mark effect⟩

theorem one_in_flight (trace : List (AioEntry Thread)) (final : AioState Thread)
    (run : (aioMachine Thread).Run .initial trace final) :
    final.flight.length ≤ 1 ∧ ResultsKept trace := by
  have always : (Monitor.mk (fun _ : Thread => AioResult.initial) observeSubmit
      (fun _ (_ : AioEntry Thread) => True)).Safe trace := Monitor.safe_true _ _ trace
  constructor
  · have inv := run.invariant (submitInv_initial _)
      (fun found s label ret s' before stepped _ => before.step (aioStep_effect stepped)) always
    exact inv.mark.one
  · refine resultsKept_of_safe (run.guarantee (submitInv_initial _) ?_ always)
    intro found s label ret s' inv stepped _
    have effect := aioStep_effect stepped
    exact ⟨.of_effect inv.mark inv.kept effect, inv.step effect⟩

/-- The request of thread 0 is completed before its system call returns, thread 1 finds the
context busy first and is rejected later, thread 2 asks for the result. -/
def flightLabels : List (AioLabel Nat) :=
  let request : AioRequest := { op := .read, fd := 3, count := 8, buf := 0, offset := 0 }
  [.submit 0 request, .submit 1 request, .accept 0, .complete request 8 0, .submit 1 request,
    .reject 1 12, .submitted 0, .unmark 1, .query 2 ⟨true, true⟩, .readRetval 2, .readErrnoval 2]

theorem one_in_flight_shared :
    ∃ trace final, (aioMachine Nat).exec .initial flightLabels = some (trace, final) ∧
      trace.getLast?.bind Entry.out =
        some { ret := 0, errno := none, retval := some 8, errnoval := some 0 } ∧
      final.flight.length ≤ 1 ∧ ResultsKept trace := by
  have checked : ((aioMachine Nat).exec .initial flightLabels).any (fun done =>
      decide (done.1.getLast?.bind Entry.out =
        some { ret := 0, errno := none, retval := some 8, errnoval := some 0 })) = true := by
    decide +kernel
  rw [Option.any_eq_true] at checked
  obtain ⟨⟨trace, final⟩, ran, holds⟩ := checked
  exact ⟨trace, final, ran, of_decide_eq_true holds,
    one_in_flight trace final (Machine.exec_run ran)⟩

end Libsysve.Veaio
