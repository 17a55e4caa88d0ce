import Libsysve.Library.Monitor

/-!
# Machines that take labelled steps

A machine is a partial step function: a label that is not enabled has no step.  A run is
the list of the steps taken, each with the states before and after it.  `Run.guarantee` is
the assume-guarantee rule: an observer reads the run, and an invariant relates what it has
recorded to the state of the machine.
-/

set_option autoImplicit false

namespace Libsysve

universe u v

structure Machine (State Label Out : Type u) where
  step : State → Label → Option (Out × State)

structure Entry (State Label Out : Type u) where
  before : State
  label : Label
  out : Out
  after : State

namespace Machine

variable {State Label Out : Type u} (m : Machine State Label Out)

inductive Run (start : State) : List (Entry State Label Out) → State → Prop
  | nil : Run start [] start
  | snoc {trace s label out s'} (ran : Run start trace s)
      (stepped : m.step s label = some (out, s')) :
      Run start (trace ++ [⟨s, label, out, s'⟩]) s'

/-- The steps the labels take from a state, when all of them are enabled. -/
def exec (s : State) : List Label → Option (List (Entry State Label Out) × State)
  | [] => some ([], s)
  | label :: rest => do
    let (out, s') ← m.step s label
    let (trace, final) ← exec s' rest
    return (⟨s, label, out, s'⟩ :: trace, final)

variable {m}

theorem Run.append {start mid final : State} {trace trace' : List (Entry State Label Out)}
    (first : m.Run start trace mid) (second : m.Run mid trace' final) :
    m.Run start (trace ++ trace') final := by
  induction second with
  | nil =>
    rw [List.append_nil]
    exact first
  | snoc ran stepped ih =>
    rw [← List.append_assoc]
    exact Run.snoc ih stepped

theorem exec_run {s final : State} {labels : List Label}
    {trace : List (Entry State Label Out)} (done : m.exec s labels = some (trace, final)) :
    m.Run s trace final := by
  induction labels generalizing s trace final with
  | nil =>
    obtain ⟨rfl, rfl⟩ := Prod.mk.inj (Option.some.inj done)
    exact Run.nil
  | cons label rest ih =>
    simp only [exec, Option.bind_eq_bind, Option.bind_eq_some_iff] at done
    obtain ⟨⟨out, s'⟩, stepped, ⟨tail, last⟩, tailDone, result⟩ := done
    obtain ⟨rfl, rfl⟩ := Prod.mk.inj (Option.some.inj result)
    exact Run.append (Run.snoc Run.nil stepped) (ih tailDone)

/-- What every step keeps, as long as the run keeps `assume`, holds at its end: `record` is
what an observer has of the run. -/
theorem Run.invariant {Record : Type v} {first : Record}
    {observe : Record → Entry State Label Out → Record}
    {assume : Record → Entry State Label Out → Prop} {inv : Record → State → Prop}
    {start final : State} {trace : List (Entry State Label Out)} (initially : inv first start)
    (preserved : ∀ record s label out s', inv record s → m.step s label = some (out, s') →
      assume record ⟨s, label, out, s'⟩ → inv (observe record ⟨s, label, out, s'⟩) s')
    (run : m.Run start trace final)
    (assumed : (Monitor.mk first observe assume).Safe trace) :
    inv (trace.foldl observe first) final := by
  induction run with
  | nil => exact initially
  | snoc ran stepped ih =>
    rw [Monitor.safe_snoc] at assumed
    rw [List.foldl_append]
    exact preserved _ _ _ _ _ (ih assumed.1) stepped assumed.2

/-- A run of which every step keeps `assume` gives `guarantee` at every step, when an
invariant carries one to the other. -/
theorem Run.guarantee {Record : Type v} {first : Record}
    {observe : Record → Entry State Label Out → Record}
    {assume guarantee : Record → Entry State Label Out → Prop}
    {inv : Record → State → Prop} {start final : State}
    {trace : List (Entry State Label Out)} (initially : inv first start)
    (preserved : ∀ record s label out s', inv record s → m.step s label = some (out, s') →
      assume record ⟨s, label, out, s'⟩ →
        guarantee record ⟨s, label, out, s'⟩ ∧ inv (observe record ⟨s, label, out, s'⟩) s')
    (run : m.Run start trace final)
    (assumed : (Monitor.mk first observe assume).Safe trace) :
    (Monitor.mk first observe guarantee).Safe trace := by
  induction run with
  | nil => exact Monitor.safe_nil _
  | snoc ran stepped ih =>
    rw [Monitor.safe_snoc] at assumed ⊢
    obtain ⟨earlier, now⟩ := assumed
    have holds := ran.invariant initially
      (fun record s label out s' before step used =>
        (preserved record s label out s' before step used).2) earlier
    exact ⟨ih earlier, (preserved _ _ _ _ _ holds stepped now).1⟩

theorem Run.every {inv : State → Prop} {holds : Entry State Label Out → Prop}
    {start final : State} {trace : List (Entry State Label Out)} (initially : inv start)
    (preserved : ∀ s label out s', inv s → m.step s label = some (out, s') →
      inv s' ∧ holds ⟨s, label, out, s'⟩)
    (run : m.Run start trace final) : inv final ∧ ∀ e ∈ trace, holds e := by
  induction run with
  | nil => exact ⟨initially, by simp⟩
  | snoc ran stepped ih =>
    obtain ⟨before, earlier⟩ := ih
    obtain ⟨after, now⟩ := preserved _ _ _ _ before stepped
    refine ⟨after, fun e member => ?_⟩
    rcases List.mem_append.mp member with old | last
    · exact earlier e old
    · exact List.mem_singleton.mp last ▸ now

theorem Run.steps {start final : State} {trace : List (Entry State Label Out)}
    (run : m.Run start trace final) :
    ∀ e ∈ trace, m.step e.before e.label = some (e.out, e.after) := by
  induction run with
  | nil => simp
  | snoc ran stepped ih =>
    intro e member
    rcases List.mem_append.mp member with old | last
    · exact ih e old
    · rw [List.mem_singleton.mp last]
      exact stepped

end Machine

end Libsysve
