import Libsysve.Library.Machine

/-!
# A machine that runs along with another

Some steps of a machine `m` are marked with a label of a machine `a`, which takes that step
then; at the other steps it stands still.  `Run.simulated` is the rule for a forward
simulation under an assumption on the steps of `a`: every run of `m` has a run of `a` along
with it that shows the same events, and what the steps of `a` guarantee holds in it.
-/

set_option autoImplicit false

namespace Libsysve.Machine

universe u v w

variable {State Label Out : Type u} {State' Label' Out' : Type v} {Event : Type w}

/-- The step of `a` that goes with a step of the other machine. -/
def companion (a : Machine State' Label' Out') (mark : Entry State Label Out → Option Label')
    (s : State') (e : Entry State Label Out) : Option (Entry State' Label' Out') := do
  let label ← mark e
  let (out, s') ← a.step s label
  return ⟨s, label, out, s'⟩

def advance (a : Machine State' Label' Out') (mark : Entry State Label Out → Option Label')
    (s : State') (e : Entry State Label Out) : State' :=
  ((a.companion mark s e).map Entry.after).getD s

def stateAlong (a : Machine State' Label' Out') (mark : Entry State Label Out → Option Label')
    (s : State') (trace : List (Entry State Label Out)) : State' :=
  trace.foldl (a.advance mark) s

/-- The steps that `a` takes along with a run of the other machine. -/
def along (a : Machine State' Label' Out') (mark : Entry State Label Out → Option Label') :
    State' → List (Entry State Label Out) → List (Entry State' Label' Out')
  | _, [] => []
  | s, e :: rest => (a.companion mark s e).toList ++ along a mark (a.advance mark s e) rest

variable {m : Machine State Label Out} {a : Machine State' Label' Out'}
  {mark : Entry State Label Out → Option Label'}

theorem stateAlong_snoc (s : State') (trace : List (Entry State Label Out))
    (e : Entry State Label Out) :
    a.stateAlong mark s (trace ++ [e]) = a.advance mark (a.stateAlong mark s trace) e := by
  simp [stateAlong]

theorem along_snoc (s : State') (trace : List (Entry State Label Out))
    (e : Entry State Label Out) :
    a.along mark s (trace ++ [e]) =
      a.along mark s trace ++ (a.companion mark (a.stateAlong mark s trace) e).toList := by
  induction trace generalizing s with
  | nil => simp [along, stateAlong]
  | cons first rest ih =>
    simp only [List.cons_append, along, stateAlong, List.foldl_cons, List.append_assoc]
    rw [ih]
    rfl

theorem along_stutter (s : State') (trace : List (Entry State Label Out))
    {e : Entry State Label Out} (unmarked : mark e = none) :
    a.along mark s (trace ++ [e]) = a.along mark s trace ∧
      a.stateAlong mark s (trace ++ [e]) = a.stateAlong mark s trace := by
  have still : a.companion mark (a.stateAlong mark s trace) e = none := by
    simp [companion, unmarked]
  constructor
  · rw [along_snoc, still, Option.toList_none, List.append_nil]
  · rw [stateAlong_snoc, advance, still, Option.map_none, Option.getD_none]

theorem companion_step {s s' : State'} {e : Entry State Label Out} {label : Label'} {out : Out'}
    (marked : mark e = some label) (stepped : a.step s label = some (out, s')) :
    a.companion mark s e = some ⟨s, label, out, s'⟩ := by
  simp [companion, marked, stepped]

theorem along_step (s : State') (trace : List (Entry State Label Out))
    {e : Entry State Label Out} {label : Label'} {out : Out'} {s' : State'}
    (marked : mark e = some label)
    (stepped : a.step (a.stateAlong mark s trace) label = some (out, s')) :
    a.along mark s (trace ++ [e]) =
        a.along mark s trace ++ [⟨a.stateAlong mark s trace, label, out, s'⟩] ∧
      a.stateAlong mark s (trace ++ [e]) = s' := by
  have next := companion_step marked stepped
  constructor
  · rw [along_snoc, next, Option.toList_some]
  · rw [stateAlong_snoc, advance, next, Option.map_some, Option.getD_some]

theorem along_run (a : Machine State' Label' Out') (mark : Entry State Label Out → Option Label')
    (s : State') (trace : List (Entry State Label Out)) :
    a.Run s (a.along mark s trace) (a.stateAlong mark s trace) := by
  induction trace using List.reverseRecOn with
  | nil => exact Run.nil
  | append_singleton trace e ih =>
    rw [along_snoc, stateAlong_snoc, advance]
    cases marked : mark e with
    | none => simpa [companion, marked] using ih
    | some label =>
      cases stepped : a.step (a.stateAlong mark s trace) label with
      | none => simpa [companion, marked, stepped] using ih
      | some result => simpa [companion, marked, stepped] using Run.snoc ih stepped

/-- How a step of `m` is matched from the state `s` of `a`, by the label it is marked with:
`ok` is assumed of the step that `a` takes. -/
inductive Matched (a : Machine State' Label' Out') (rel : State → State' → Prop)
    (visible : Entry State Label Out → Option Event)
    (visible' : Entry State' Label' Out' → Option Event) (ok : Entry State' Label' Out' → Prop)
    (s : State') (e : Entry State Label Out) : Option Label' → Prop
  | stutter (hidden : visible e = none) (related : rel e.after s) :
      Matched a rel visible visible' ok s e none
  | step (label : Label') (out : Out') (s' : State')
      (stepped : a.step s label = some (out, s'))
      (seen : visible e = visible' ⟨s, label, out, s'⟩)
      (related : ok ⟨s, label, out, s'⟩ → rel e.after s') :
      Matched a rel visible visible' ok s e (some label)

/-- What a simulation gives of a whole run of `m`. -/
structure Simulated (a : Machine State' Label' Out')
    (mark : Entry State Label Out → Option Label') (rel : State → State' → Prop)
    (visible : Entry State Label Out → Option Event)
    (visible' : Entry State' Label' Out' → Option Event) (s : State')
    (trace : List (Entry State Label Out)) (final : State) : Prop where
  run : a.Run s (a.along mark s trace) (a.stateAlong mark s trace)
  related : rel final (a.stateAlong mark s trace)
  history : trace.filterMap visible = (a.along mark s trace).filterMap visible'

section
variable {rel : State → State' → Prop} {visible : Entry State Label Out → Option Event}
  {visible' : Entry State' Label' Out' → Option Event} {s : State'}
  {trace : List (Entry State Label Out)} {c c' : State} {label : Label} {out : Out}

theorem Simulated.nil (related : rel c s) :
    Simulated a mark rel visible visible' s [] c :=
  ⟨Run.nil, related, rfl⟩

theorem Simulated.stutter (before : Simulated a mark rel visible visible' s trace c)
    (unmarked : mark ⟨c, label, out, c'⟩ = none) (hidden : visible ⟨c, label, out, c'⟩ = none)
    (related : rel c' (a.stateAlong mark s trace)) :
    Simulated a mark rel visible visible' s (trace ++ [⟨c, label, out, c'⟩]) c' := by
  obtain ⟨sameSteps, sameState⟩ := along_stutter (a := a) s trace unmarked
  constructor
  · rw [sameSteps, sameState]
    exact before.run
  · rw [sameState]
    exact related
  · rw [sameSteps, ← before.history]
    simp [hidden]

theorem Simulated.step (before : Simulated a mark rel visible visible' s trace c)
    {label' : Label'} {out' : Out'} {s' : State'}
    (marked : mark ⟨c, label, out, c'⟩ = some label')
    (stepped : a.step (a.stateAlong mark s trace) label' = some (out', s'))
    (seen : visible ⟨c, label, out, c'⟩ =
      visible' ⟨a.stateAlong mark s trace, label', out', s'⟩)
    (related : rel c' s') :
    Simulated a mark rel visible visible' s (trace ++ [⟨c, label, out, c'⟩]) c' := by
  obtain ⟨nextStep, nextState⟩ := along_step s trace marked stepped
  constructor
  · rw [nextStep, nextState]
    exact Run.snoc before.run stepped
  · rw [nextState]
    exact related
  · rw [nextStep, List.filterMap_append, List.filterMap_append, ← before.history]
    simp only [List.filterMap_cons, List.filterMap_nil, seen]

end

theorem Run.simulated {Record : Type*} {first : Record}
    {observe : Record → Entry State' Label' Out' → Record}
    {assume : Record → Entry State' Label' Out' → Prop} {inv : Record → State' → Prop}
    {rel : State → State' → Prop} {visible : Entry State Label Out → Option Event}
    {visible' : Entry State' Label' Out' → Option Event} {start final : State} {s₀ : State'}
    {trace : List (Entry State Label Out)} (initially : inv first s₀) (related : rel start s₀)
    (preserved : ∀ record s label out s', inv record s → a.step s label = some (out, s') →
      assume record ⟨s, label, out, s'⟩ → inv (observe record ⟨s, label, out, s'⟩) s')
    (matched : ∀ record c s label out c', inv record s → rel c s →
      m.step c label = some (out, c') →
        Matched a rel visible visible' (assume record) s ⟨c, label, out, c'⟩
          (mark ⟨c, label, out, c'⟩))
    (run : m.Run start trace final)
    (assumed : (Monitor.mk first observe assume).Safe (a.along mark s₀ trace)) :
    Simulated a mark rel visible visible' s₀ trace final ∧
      inv ((a.along mark s₀ trace).foldl observe first) (a.stateAlong mark s₀ trace) := by
  induction run with
  | nil => exact ⟨Simulated.nil related, initially⟩
  | @snoc trace c label out c' ran stepped ih =>
    have earlier : (Monitor.mk first observe assume).Safe (a.along mark s₀ trace) := by
      rw [along_snoc] at assumed
      exact assumed.initial
    obtain ⟨before, holds⟩ := ih earlier
    have now := matched _ _ _ _ _ _ holds before.related stepped
    generalize marked : mark ⟨c, label, out, c'⟩ = label' at now
    cases now with
    | stutter hidden related' =>
      obtain ⟨sameSteps, sameState⟩ := along_stutter (a := a) s₀ trace marked
      refine ⟨before.stutter marked hidden related', ?_⟩
      rw [sameSteps, sameState]
      exact holds
    | step label' out' s' stepped' seen related' =>
      obtain ⟨nextStep, nextState⟩ := along_step s₀ trace marked stepped'
      rw [nextStep, Monitor.safe_snoc] at assumed
      refine ⟨before.step marked stepped' seen (related' assumed.2), ?_⟩
      rw [nextStep, nextState, List.foldl_append]
      exact preserved _ _ _ _ _ holds stepped' assumed.2

/-- What is known of `m` from its own steps and from the record of those of `a`. -/
theorem Run.tracked {Record : Type*} {first : Record}
    {observe : Record → Entry State' Label' Out' → Record}
    {assume : Record → Entry State' Label' Out' → Prop} {inv : Record → State' → Prop}
    {rel : State → State' → Prop} {visible : Entry State Label Out → Option Event}
    {visible' : Entry State' Label' Out' → Option Event} {start final : State} {s₀ : State'}
    {trace : List (Entry State Label Out)}
    (known : Record → List (Entry State Label Out) → State → Prop)
    (simulated : ∀ trace final, m.Run start trace final →
      (Monitor.mk first observe assume).Safe (a.along mark s₀ trace) →
        Simulated a mark rel visible visible' s₀ trace final ∧
          inv ((a.along mark s₀ trace).foldl observe first) (a.stateAlong mark s₀ trace))
    (begun : known first [] start)
    (kept : ∀ record trace c s label out c', inv record s → rel c s → known record trace c →
      m.step c label = some (out, c') →
      (∀ e ∈ (a.companion mark s ⟨c, label, out, c'⟩).toList, assume record e) →
        known ((a.companion mark s ⟨c, label, out, c'⟩).toList.foldl observe record)
          (trace ++ [⟨c, label, out, c'⟩]) c')
    (run : m.Run start trace final)
    (assumed : (Monitor.mk first observe assume).Safe (a.along mark s₀ trace)) :
    known ((a.along mark s₀ trace).foldl observe first) trace final := by
  induction run with
  | nil => exact begun
  | @snoc trace c label out c' ran stepped ih =>
    rw [along_snoc] at assumed ⊢
    have earlier := assumed.initial
    obtain ⟨before, holds⟩ := simulated _ _ ran earlier
    rw [List.foldl_append]
    refine kept _ _ _ _ _ _ _ holds before.related (ih earlier) stepped (fun e member => ?_)
    rw [Option.mem_toList] at member
    rw [member, Option.toList_some, Monitor.safe_snoc] at assumed
    exact assumed.2

end Libsysve.Machine
