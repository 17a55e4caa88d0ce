import Mathlib.Logic.Function.Basic
import Libsysve.Library.Machine

/-!
# Families of machines that fork

A member takes steps of its own, or forks: the child starts in a state that depends on that
of its parent, which stays as it is.  Members share nothing.  An observer keeps one record
for each member, and a child's record starts from its parent's.
-/

set_option autoImplicit false

namespace Libsysve

structure Forking (State Label How Out Parted : Type) where
  step : State → Label → Option (Out × State)
  fork : State → How → Option (Parted × State)

inductive MemberEvent (State Label How Out Parted : Type) where
  | step (before : State) (label : Label) (out : Out) (after : State)
  | fork (parent : State) (how : How) (out : Parted) (child : State)

inductive FamilyLabel (Name Label How : Type) where
  | step (p : Name) (label : Label)
  | fork (p : Name) (how : How) (q : Name)

variable {Name State Label How Out Parted Record : Type}

namespace MemberEvent

def source : MemberEvent State Label How Out Parted → State
  | .step before _ _ _ => before
  | .fork parent _ _ _ => parent

def target : MemberEvent State Label How Out Parted → State
  | .step _ _ _ after => after
  | .fork _ _ _ child => child

end MemberEvent

namespace FamilyLabel

def actor : FamilyLabel Name Label How → Name
  | .step p _ => p
  | .fork p _ _ => p

def changed : FamilyLabel Name Label How → Name
  | .step p _ => p
  | .fork _ _ q => q

end FamilyLabel

namespace Forking

variable (m : Forking State Label How Out Parted)

/-- An event that the functions of the family give. -/
def Happens : MemberEvent State Label How Out Parted → Prop
  | .step before label out after => m.step before label = some (out, after)
  | .fork parent how out child => m.fork parent how = some (out, child)

/-- The members act in any order; a child takes a name that is free. -/
def family [DecidableEq Name] : Machine (Name → Option State) (FamilyLabel Name Label How)
    (MemberEvent State Label How Out Parted) where
  step s label :=
    match label with
    | .step p label => do
      let before ← s p
      let (out, after) ← m.step before label
      some (.step before label out after, Function.update s p (some after))
    | .fork p how q =>
      match s q with
      | some _ => none
      | none => do
        let parent ← s p
        let (out, child) ← m.fork parent how
        some (.fork parent how out child, Function.update s q (some child))

def alone [DecidableEq Name] (p : Name) (start : State) : Name → Option State :=
  Function.update (fun _ => none) p (some start)

abbrev FamilyEntry (Name State Label How Out Parted : Type) :=
  Entry (Name → Option State) (FamilyLabel Name Label How)
    (MemberEvent State Label How Out Parted)

def observeMembers [DecidableEq Name]
    (observe : Record → MemberEvent State Label How Out Parted → Record)
    (records : Name → Record) (e : FamilyEntry Name State Label How Out Parted) :
    Name → Record :=
  Function.update records e.label.changed (observe (records e.label.actor) e.out)

/-- The monitor that reads the record of the member that acts. -/
def members [DecidableEq Name] (first : Record)
    (observe : Record → MemberEvent State Label How Out Parted → Record)
    (allowed : Record → MemberEvent State Label How Out Parted → Prop) :
    Monitor (Name → Record) (FamilyEntry Name State Label How Out Parted) where
  start _ := first
  after := observeMembers observe
  allowed records e := allowed (records e.label.actor) e.out

instance decidableMembers [DecidableEq Name] {first : Record}
    {observe : Record → MemberEvent State Label How Out Parted → Record}
    {allowed : Record → MemberEvent State Label How Out Parted → Prop}
    [decided : ∀ r e, Decidable (allowed r e)] (records : Name → Record)
    (e : FamilyEntry Name State Label How Out Parted) :
    Decidable ((members first observe allowed).allowed records e) :=
  decided (records e.label.actor) e.out

variable {m} [DecidableEq Name] {s s' : Name → Option State} {label : FamilyLabel Name Label How}
  {out : MemberEvent State Label How Out Parted}

theorem family_step (stepped : m.family.step s label = some (out, s')) :
    s label.actor = some out.source ∧ m.Happens out ∧
      s' = Function.update s label.changed (some out.target) := by
  cases label with
  | step p label =>
    simp only [family, Option.bind_eq_bind, Option.bind_eq_some_iff] at stepped
    obtain ⟨before, found, ⟨result, after⟩, moved, same⟩ := stepped
    obtain ⟨rfl, rfl⟩ := Prod.mk.inj (Option.some.inj same)
    exact ⟨found, moved, rfl⟩
  | fork p how q =>
    cases taken : s q with
    | some other => simp [family, taken] at stepped
    | none =>
      simp only [family, taken, Option.bind_eq_bind, Option.bind_eq_some_iff] at stepped
      obtain ⟨parent, found, ⟨result, child⟩, forked, same⟩ := stepped
      obtain ⟨rfl, rfl⟩ := Prod.mk.inj (Option.some.inj same)
      exact ⟨found, forked, rfl⟩

theorem alone_found {p q : Name} {start found : State} (here : alone p start q = some found) :
    found = start := by
  by_cases same : q = p
  · rw [alone, same, Function.update_self, Option.some.injEq] at here
    exact here.symm
  · rw [alone, Function.update_of_ne same] at here
    exact absurd here (by simp)

variable {first : Record} {observe : Record → MemberEvent State Label How Out Parted → Record}
  {assume guarantee : Record → MemberEvent State Label How Out Parted → Prop}
  {inv : Record → State → Prop}

def EachMember (inv : Record → State → Prop) (records : Name → Record)
    (s : Name → Option State) : Prop :=
  ∀ q found, s q = some found → inv (records q) found

theorem eachMember_alone {p : Name} {start : State} (initially : inv first start) :
    EachMember inv (fun _ => first) (alone p start) :=
  fun _ _ here => (alone_found here).symm ▸ initially

/-- What every event keeps, of the member that acts, every member keeps. -/
theorem EachMember.step {records : Name → Record} (before : EachMember inv records s)
    (preserved : ∀ r e, inv r e.source → m.Happens e → assume r e → inv (observe r e) e.target)
    (stepped : m.family.step s label = some (out, s'))
    (assumed : assume (records label.actor) out) :
    EachMember inv (observeMembers observe records ⟨s, label, out, s'⟩) s' := by
  obtain ⟨source, happens, rfl⟩ := family_step stepped
  intro q found here
  by_cases same : q = label.changed
  · subst same
    rw [Function.update_self, Option.some.injEq] at here
    rw [observeMembers, Function.update_self, ← here]
    exact preserved _ _ (before _ _ source) happens assumed
  · rw [Function.update_of_ne same] at here
    rw [observeMembers, Function.update_of_ne same]
    exact before q found here

/-- The rule for families: what the first member has and every event keeps holds of every
member of every family that is reached. -/
theorem family_invariant {p : Name} {start : State} {final : Name → Option State}
    {trace : List (FamilyEntry Name State Label How Out Parted)} (initially : inv first start)
    (preserved : ∀ r e, inv r e.source → m.Happens e → assume r e → inv (observe r e) e.target)
    (run : m.family.Run (alone p start) trace final)
    (assumed : (members first observe assume).Safe trace) :
    EachMember inv (trace.foldl (observeMembers observe) (fun _ => first)) final :=
  run.invariant (eachMember_alone initially)
    (fun _ _ _ _ _ before stepped now => before.step preserved stepped now) assumed

theorem family_guarantee {p : Name} {start : State} {final : Name → Option State}
    {trace : List (FamilyEntry Name State Label How Out Parted)} (initially : inv first start)
    (preserved : ∀ r e, inv r e.source → m.Happens e → assume r e → inv (observe r e) e.target)
    (gives : ∀ r e, inv r e.source → m.Happens e → assume r e → guarantee r e)
    (run : m.family.Run (alone p start) trace final)
    (assumed : (members first observe assume).Safe trace) :
    (members first observe guarantee).Safe trace := by
  refine run.guarantee (eachMember_alone initially) ?_ assumed
  intro records s label out s' before stepped now
  obtain ⟨source, happens, _⟩ := family_step stepped
  exact ⟨gives _ _ (before _ _ source) happens now, before.step preserved stepped now⟩

end Forking

end Libsysve
