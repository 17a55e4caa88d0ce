import Libsysve.Library.Family
import Libsysve.Library.Simulation

/-!
# Simulations of families member by member

When every member of a family is matched by a member of another one, the other family runs
along with it, and every member is related to its counterpart.
-/

set_option autoImplicit false

namespace Libsysve.Forking

variable {Name State Label How Out Parted State' Label' How' Out' Parted' Event : Type}

/-- The step of the other family that goes with a step: an event that is not marked has none. -/
def familyMark (markStep : State → Label → Option Label') (markFork : State → How → How')
    (e : FamilyEntry Name State Label How Out Parted) : Option (FamilyLabel Name Label' How') :=
  match e.out with
  | .step before label _ _ => (markStep before label).map (.step e.label.actor)
  | .fork parent how _ _ => some (.fork e.label.actor (markFork parent how) e.label.changed)

/-- What is shown of a step of a family, and of which members. -/
def familyShown (shown : MemberEvent State Label How Out Parted → Option Event)
    (e : FamilyEntry Name State Label How Out Parted) : Option (Name × Name × Event) :=
  (shown e.out).map fun event => (e.label.actor, e.label.changed, event)

def EachRelated (rel : State → State' → Prop) (s : Name → Option State)
    (c : Name → Option State') : Prop :=
  ∀ q, Option.Rel rel (s q) (c q)

/-- A member of `m` is matched by one of `a`, as far as `assume` holds of its events. -/
structure MemberSimulation (m : Forking State Label How Out Parted)
    (a : Forking State' Label' How' Out' Parted') (rel : State → State' → Prop)
    (markStep : State → Label → Option Label') (markFork : State → How → How')
    (shown : MemberEvent State Label How Out Parted → Option Event)
    (shown' : MemberEvent State' Label' How' Out' Parted' → Option Event)
    (assume : MemberEvent State Label How Out Parted → Prop) : Prop where
  stutter : ∀ s c label out s', rel s c → m.step s label = some (out, s') →
    assume (.step s label out s') → markStep s label = none →
      shown (.step s label out s') = none ∧ rel s' c
  step : ∀ s c label out s' label', rel s c → m.step s label = some (out, s') →
    assume (.step s label out s') → markStep s label = some label' →
      ∃ out' c', a.step c label' = some (out', c') ∧
        shown (.step s label out s') = shown' (.step c label' out' c') ∧ rel s' c'
  fork : ∀ s c how out child, rel s c → m.fork s how = some (out, child) →
    assume (.fork s how out child) →
      ∃ out' child', a.fork c (markFork s how) = some (out', child') ∧
        shown (.fork s how out child) = shown' (.fork c (markFork s how) out' child') ∧
        rel child child'

variable [DecidableEq Name] {m : Forking State Label How Out Parted}
  {a : Forking State' Label' How' Out' Parted'} {rel : State → State' → Prop}
  {markStep : State → Label → Option Label'} {markFork : State → How → How'}
  {shown : MemberEvent State Label How Out Parted → Option Event}
  {shown' : MemberEvent State' Label' How' Out' Parted' → Option Event}
  {assume : MemberEvent State Label How Out Parted → Prop}

theorem eachRelated_alone {p : Name} {start : State} {start' : State'}
    (related : rel start start') : EachRelated rel (alone p start) (alone p start') := by
  intro q
  by_cases same : q = p
  · subst same
    rw [alone, alone, Function.update_self, Function.update_self]
    exact .some related
  · rw [alone, alone, Function.update_of_ne same, Function.update_of_ne same]
    exact .none

theorem EachRelated.update {s : Name → Option State} {c : Name → Option State'} {q : Name}
    {after : State} {after' : State'} (before : EachRelated rel s c) (related : rel after after') :
    EachRelated rel (Function.update s q (some after)) (Function.update c q (some after')) := by
  intro r
  by_cases same : r = q
  · subst same
    rw [Function.update_self, Function.update_self]
    exact .some related
  · rw [Function.update_of_ne same, Function.update_of_ne same]
    exact before r

theorem EachRelated.update_left {s : Name → Option State} {c : Name → Option State'} {q : Name}
    {after : State} {here : State'} (before : EachRelated rel s c) (found : c q = some here)
    (related : rel after here) : EachRelated rel (Function.update s q (some after)) c := by
  have moved := before.update (q := q) related
  rwa [← found, Function.update_eq_self] at moved

omit [DecidableEq Name] in
theorem EachRelated.found {s : Name → Option State} {c : Name → Option State'} {q : Name}
    {here : State} (each : EachRelated rel s c) (found : s q = some here) :
    ∃ here', c q = some here' ∧ rel here here' := by
  have related := each q
  rw [found] at related
  cases other : c q with
  | none =>
    rw [other] at related
    cases related
  | some here' =>
    rw [other] at related
    cases related with
    | some holds => exact ⟨here', rfl, holds⟩

omit [DecidableEq Name] in
theorem EachRelated.free {s : Name → Option State} {c : Name → Option State'} {q : Name}
    (each : EachRelated rel s c) (free : s q = none) : c q = none := by
  have related := each q
  rw [free] at related
  cases other : c q with
  | none => rfl
  | some here' =>
    rw [other] at related
    cases related

omit [DecidableEq Name] in
theorem EachRelated.isSome {s : Name → Option State} {c : Name → Option State'}
    (each : EachRelated rel s c) (q : Name) : (s q).isSome = (c q).isSome := by
  cases here : s q with
  | none =>
    rw [each.free here]
    rfl
  | some found =>
    obtain ⟨other, there, _⟩ := each.found here
    rw [there]
    rfl

theorem family_moves {s : Name → Option State} {p : Name} {before after : State} {label : Label}
    {out : Out} (found : s p = some before) (moved : m.step before label = some (out, after)) :
    m.family.step s (.step p label) =
      some (.step before label out after, Function.update s p (some after)) := by
  simp [family, found, moved]

theorem family_forks {s : Name → Option State} {p q : Name} {parent child : State} {how : How}
    {out : Parted} (found : s p = some parent) (free : s q = none)
    (forked : m.fork parent how = some (out, child)) :
    m.family.step s (.fork p how q) =
      some (.fork parent how out child, Function.update s q (some child)) := by
  simp [family, found, free, forked]

/-- The rule for families. -/
theorem family_simulated {p : Name} {start : State} {start' : State'}
    {final : Name → Option State} {trace : List (FamilyEntry Name State Label How Out Parted)}
    (sim : MemberSimulation m a rel markStep markFork shown shown' assume)
    (initially : rel start start') (run : m.family.Run (alone p start) trace final)
    (assumed : ∀ e ∈ trace, assume e.out) :
    a.family.Simulated (familyMark markStep markFork) (EachRelated rel) (familyShown shown)
      (familyShown shown') (alone p start') trace final := by
  induction run with
  | nil => exact .nil (eachRelated_alone initially)
  | @snoc trace s label out s' ran stepped ih =>
    have before := ih fun e member => assumed e (List.mem_append_left _ member)
    have now : assume out := assumed _ (List.mem_append_right _ (List.mem_singleton_self _))
    cases label with
    | step p label =>
      simp only [family, Option.bind_eq_bind, Option.bind_eq_some_iff] at stepped
      obtain ⟨here, found, ⟨result, after⟩, moved, same⟩ := stepped
      obtain ⟨rfl, rfl⟩ := Prod.mk.inj (Option.some.inj same)
      obtain ⟨here', found', related⟩ := before.related.found found
      cases marked : markStep here label with
      | none =>
        obtain ⟨hidden, related'⟩ := sim.stutter _ _ _ _ _ related moved now marked
        refine before.stutter ?_ ?_ (before.related.update_left found' related')
        · simp [familyMark, marked]
        · simp [familyShown, hidden]
      | some label' =>
        obtain ⟨out', c', moved', seen, related'⟩ := sim.step _ _ _ _ _ _ related moved now marked
        refine before.step ?_ (family_moves found' moved') ?_ (before.related.update related')
        · simp [familyMark, marked, FamilyLabel.actor]
        · simp [familyShown, seen, FamilyLabel.actor, FamilyLabel.changed]
    | fork p how q =>
      cases taken : s q with
      | some other => simp [family, taken] at stepped
      | none =>
        simp only [family, taken, Option.bind_eq_bind, Option.bind_eq_some_iff] at stepped
        obtain ⟨here, found, ⟨result, child⟩, moved, same⟩ := stepped
        obtain ⟨rfl, rfl⟩ := Prod.mk.inj (Option.some.inj same)
        obtain ⟨here', found', related⟩ := before.related.found found
        obtain ⟨out', child', moved', seen, related'⟩ := sim.fork _ _ _ _ _ related moved now
        refine before.step ?_ (family_forks found' (before.related.free taken) moved') ?_
          (before.related.update related')
        · simp [familyMark, FamilyLabel.actor, FamilyLabel.changed]
        · simp [familyShown, seen, FamilyLabel.actor, FamilyLabel.changed]

end Libsysve.Forking
