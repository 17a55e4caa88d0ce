import Mathlib.Data.List.Induction

/-!
# Monitors of event logs

A monitor reads a log from the left with a state and says of every event whether it is
allowed in the state before it.  `Monitor.Safe` quantifies over all positions of the log;
`safe_snoc` is the rule for a log that grows at its end.
-/

set_option autoImplicit false

namespace Libsysve

universe u v

structure Monitor (State : Type u) (Event : Type v) where
  start : State
  after : State → Event → State
  allowed : State → Event → Prop

namespace Monitor

variable {State : Type u} {Event : Type v} (m : Monitor State Event)

def stateAfter (log : List Event) : State := log.foldl m.after m.start

/-- Every event of the log is allowed where it happens. -/
def Safe (log : List Event) : Prop :=
  ∀ before event rest, log = before ++ event :: rest → m.allowed (m.stateAfter before) event

@[simp] theorem stateAfter_nil : m.stateAfter [] = m.start := rfl

@[simp] theorem stateAfter_snoc (log : List Event) (event : Event) :
    m.stateAfter (log ++ [event]) = m.after (m.stateAfter log) event := by
  simp [stateAfter]

@[simp] theorem safe_nil : m.Safe [] := by
  intro before event rest split
  simp at split

theorem safe_true (start : State) (after : State → Event → State) (log : List Event) :
    (Monitor.mk start after fun _ _ => True).Safe log :=
  fun _ _ _ _ => trivial

@[simp] theorem safe_snoc (log : List Event) (event : Event) :
    m.Safe (log ++ [event]) ↔ m.Safe log ∧ m.allowed (m.stateAfter log) event := by
  constructor
  · intro safe
    refine ⟨?_, safe log event [] rfl⟩
    intro before earlier rest split
    exact safe before earlier (rest ++ [event]) (by simp [split])
  · rintro ⟨safe, last⟩ before earlier rest split
    rcases List.eq_nil_or_concat rest with rfl | ⟨rest', final, rfl⟩
    · have parts := List.append_inj' split rfl
      obtain ⟨sameLog, sameEvent⟩ := parts
      rw [← sameLog]
      simp only [List.cons.injEq, and_true] at sameEvent
      exact sameEvent ▸ last
    · have shape : log ++ [event] = (before ++ earlier :: rest') ++ [final] := by
        simpa using split
      exact safe before earlier rest' (List.append_inj' shape rfl).1

theorem Safe.initial {m : Monitor State Event} {log more : List Event}
    (safe : m.Safe (log ++ more)) : m.Safe log := by
  intro before event rest split
  exact safe before event (rest ++ more) (by simp [split])

/-- What a monitor says of the events that `part` takes from a log, said of the log. -/
def through {Event' : Type*} (part : Event' → Option Event) : Monitor State Event' where
  start := m.start
  after state event := ((part event).map (m.after state)).getD state
  allowed state event := ∀ event' ∈ part event, m.allowed state event'

theorem through_stateAfter {Event' : Type*} (part : Event' → Option Event)
    (log : List Event') :
    (m.through part).stateAfter log = m.stateAfter (log.filterMap part) := by
  induction log using List.reverseRecOn with
  | nil => rfl
  | append_singleton log event ih =>
    rw [stateAfter_snoc, ih, List.filterMap_append]
    cases taken : part event with
    | none => simp [through, taken]
    | some event' => simp [through, taken]

theorem through_safe {Event' : Type*} (part : Event' → Option Event) (log : List Event') :
    (m.through part).Safe log ↔ m.Safe (log.filterMap part) := by
  induction log using List.reverseRecOn with
  | nil => simp
  | append_singleton log event ih =>
    rw [safe_snoc, ih, through_stateAfter, List.filterMap_append]
    cases taken : part event with
    | none => simp [through, taken]
    | some event' => simp [through, taken]

theorem Safe.last {m : Monitor State Event} {log : List Event} {event : Event} (safe : m.Safe log)
    (last : log.getLast? = some event) : m.allowed (m.stateAfter log.dropLast) event := by
  obtain ⟨before, rfl⟩ := List.getLast?_eq_some_iff.mp last
  rw [List.dropLast_concat]
  exact safe before event [] rfl

/-- `Safe`, read from the left; this form can be evaluated. -/
def SafeFrom (s : State) : List Event → Prop
  | [] => True
  | event :: rest => m.allowed s event ∧ SafeFrom (m.after s event) rest

instance decidableSafeFrom [allowed : ∀ s event, Decidable (m.allowed s event)] :
    (log : List Event) → (s : State) → Decidable (m.SafeFrom s log)
  | [], _ => isTrue trivial
  | event :: rest, s =>
    match allowed s event, decidableSafeFrom rest (m.after s event) with
    | isTrue now, isTrue later => isTrue ⟨now, later⟩
    | isFalse never, _ => isFalse fun safe => never safe.1
    | _, isFalse never => isFalse fun safe => never safe.2

theorem safeFrom_snoc (log : List Event) (event : Event) (s : State) :
    m.SafeFrom s (log ++ [event]) ↔
      m.SafeFrom s log ∧ m.allowed (log.foldl m.after s) event := by
  induction log generalizing s with
  | nil => simp [SafeFrom]
  | cons first rest ih =>
    simp only [List.cons_append, SafeFrom, List.foldl_cons]
    rw [ih, and_assoc]

theorem safe_of_safeFrom (log : List Event) (safe : m.SafeFrom m.start log) : m.Safe log := by
  induction log using List.reverseRecOn with
  | nil => exact m.safe_nil
  | append_singleton log event ih =>
    rw [safeFrom_snoc] at safe
    exact (m.safe_snoc log event).mpr ⟨ih safe.1, safe.2⟩

theorem safeFrom_of_safe (log : List Event) (safe : m.Safe log) : m.SafeFrom m.start log := by
  induction log using List.reverseRecOn with
  | nil => trivial
  | append_singleton log event ih =>
    rw [safe_snoc] at safe
    exact (m.safeFrom_snoc log event m.start).mpr ⟨ih safe.1, safe.2⟩

theorem safeFrom_append (log log' : List Event) (s : State) :
    m.SafeFrom s (log ++ log') ↔ m.SafeFrom s log ∧ m.SafeFrom (log.foldl m.after s) log' := by
  induction log generalizing s with
  | nil => simp [SafeFrom]
  | cons event log ih =>
    simp only [List.cons_append, SafeFrom, List.foldl_cons]
    rw [ih, and_assoc]

theorem Safe.map {State' : Type*} {m : Monitor State Event} {m' : Monitor State' Event}
    {log : List Event} (safe : m.Safe log) (part : State → State')
    (start : part m.start = m'.start)
    (after : ∀ s event, part (m.after s event) = m'.after (part s) event)
    (weaker : ∀ s event, m.allowed s event → m'.allowed (part s) event) : m'.Safe log := by
  have state : ∀ log, part (m.stateAfter log) = m'.stateAfter log := by
    intro log
    induction log using List.reverseRecOn with
    | nil => exact start
    | append_singleton log event ih => rw [stateAfter_snoc, stateAfter_snoc, after, ih]
  intro before event rest split
  rw [← state]
  exact weaker _ _ (safe before event rest split)

end Monitor

end Libsysve
