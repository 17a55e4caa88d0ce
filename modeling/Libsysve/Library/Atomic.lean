import Libsysve.Library.Machine
import Mathlib.Logic.Function.Basic

/-!
# Calls that take effect at once

`atomic` makes an object that threads call out of a machine.  Between the call and the return
of a thread the object takes steps on its behalf, and the thread gets back the value that one
of them gave.  The history of a run is what the threads see: the calls and the returns.
-/

set_option autoImplicit false

namespace Libsysve.Machine

universe u

variable {State Op Value Call Thread : Type u}

/-- Which steps a call of a thread may take, and which ones happen by themselves. -/
structure Interface (Thread Call Op : Type u) where
  serves : Thread → Call → Op → Bool
  spontaneous : Op → Bool

/-- Where a thread is with its call. -/
inductive Phase (Call Value : Type u) where
  | idle
  | called (c : Call)
  | answered (v : Value)

structure Served (State Thread Call Value : Type u) where
  object : State
  phase : Thread → Phase Call Value

inductive AtomicLabel (Thread Call Op : Type u) where
  | call (t : Thread) (c : Call)
  | serve (t : Thread) (op : Op)
  | ret (t : Thread)
  | spontaneous (op : Op)

def AtomicLabel.op : AtomicLabel Thread Call Op → Option Op
  | .call _ _ | .ret _ => none
  | .serve _ op | .spontaneous op => some op

inductive HistoryEvent (Thread Call Value : Type u) where
  | call (t : Thread) (c : Call)
  | ret (t : Thread) (v : Value)
deriving DecidableEq

variable [DecidableEq Thread]

def Served.setPhase (s : Served State Thread Call Value) (t : Thread) (p : Phase Call Value) :
    Served State Thread Call Value :=
  { s with phase := Function.update s.phase t p }

/-- A step for thread `t`: the value it gives, if any, is what the call will return. -/
def Served.answer (s : Served State Thread Call Value) (t : Thread) (out : Option Value)
    (object : State) : Served State Thread Call Value :=
  match out with
  | none => { s with object := object }
  | some v => { s.setPhase t (.answered v) with object := object }

def atomic (m : Machine State Op (Option Value)) (i : Interface Thread Call Op) :
    Machine (Served State Thread Call Value) (AtomicLabel Thread Call Op) (Option Value) where
  step s
    | .call t c =>
      match s.phase t with
      | .idle => some (none, s.setPhase t (.called c))
      | _ => none
    | .serve t op =>
      match s.phase t with
      | .called c =>
        if i.serves t c op then
          (m.step s.object op).map fun (out, object) => (out, s.answer t out object)
        else none
      | _ => none
    | .ret t =>
      match s.phase t with
      | .answered v => some (some v, s.setPhase t .idle)
      | _ => none
    | .spontaneous op =>
      if i.spontaneous op then
        (m.step s.object op).map fun (out, object) => (out, { s with object := object })
      else none

def operation (e : Entry (Served State Thread Call Value) (AtomicLabel Thread Call Op)
    (Option Value)) : Option (Entry State Op (Option Value)) :=
  match e.label with
  | .call _ _ => none
  | .serve _ op => some ⟨e.before.object, op, e.out, e.after.object⟩
  | .ret _ => none
  | .spontaneous op => some ⟨e.before.object, op, e.out, e.after.object⟩

def historyEvent (e : Entry (Served State Thread Call Value) (AtomicLabel Thread Call Op)
    (Option Value)) : Option (HistoryEvent Thread Call Value) :=
  match e.label with
  | .call t c => some (.call t c)
  | .serve _ _ => none
  | .ret t => e.out.map (.ret t)
  | .spontaneous _ => none

variable {m : Machine State Op (Option Value)} {i : Interface Thread Call Op}
  {s s' : Served State Thread Call Value} {t : Thread} {c : Call} {op : Op}
  {out : Option Value} {object : State}

@[simp] theorem answer_object : (s.answer t out object).object = object := by
  cases out with
  | none => rfl
  | some v => rfl

theorem atomic_call (idle : s.phase t = .idle) :
    (m.atomic i).step s (.call t c) = some (none, s.setPhase t (.called c)) := by
  simp only [atomic, idle]

theorem atomic_serve (called : s.phase t = .called c) (serves : i.serves t c op = true)
    (stepped : m.step s.object op = some (out, object)) :
    (m.atomic i).step s (.serve t op) = some (out, s.answer t out object) := by
  simp [atomic, called, serves, stepped]

theorem atomic_ret {v : Value} (answered : s.phase t = .answered v) :
    (m.atomic i).step s (.ret t) = some (some v, s.setPhase t .idle) := by
  simp only [atomic, answered]

theorem atomic_spontaneous (allowed : i.spontaneous op = true)
    (stepped : m.step s.object op = some (out, object)) :
    (m.atomic i).step s (.spontaneous op) = some (out, { s with object := object }) := by
  simp [atomic, allowed, stepped]

theorem atomic_operation {label : AtomicLabel Thread Call Op}
    (stepped : (m.atomic i).step s label = some (out, s')) :
    (operation ⟨s, label, out, s'⟩ = none ∧ s'.object = s.object) ∨
      ∃ op, operation ⟨s, label, out, s'⟩ = some ⟨s.object, op, out, s'.object⟩ ∧
        m.step s.object op = some (out, s'.object) := by
  cases label with
  | call t c =>
    cases phase : s.phase t <;> simp only [atomic, phase, reduceCtorEq, Option.some.injEq,
      Prod.mk.injEq] at stepped
    rw [← stepped.2]
    exact Or.inl ⟨rfl, rfl⟩
  | serve t op =>
    cases phase : s.phase t with
    | idle => simp [atomic, phase] at stepped
    | called c =>
      by_cases serves : i.serves t c op = true
      · simp only [atomic, phase, if_pos serves, Option.map_eq_some_iff, Prod.mk.injEq] at stepped
        obtain ⟨⟨out', object⟩, inner, rfl, rfl⟩ := stepped
        refine Or.inr ⟨op, rfl, ?_⟩
        rw [answer_object]
        exact inner
      · simp [atomic, phase, serves] at stepped
    | answered v => simp [atomic, phase] at stepped
  | ret t =>
    cases phase : s.phase t <;> simp only [atomic, phase, reduceCtorEq, Option.some.injEq,
      Prod.mk.injEq] at stepped
    rw [← stepped.2]
    exact Or.inl ⟨rfl, rfl⟩
  | spontaneous op =>
    by_cases allowed : i.spontaneous op = true
    · simp only [atomic, if_pos allowed, Option.map_eq_some_iff, Prod.mk.injEq] at stepped
      obtain ⟨⟨out', object⟩, inner, rfl, rfl⟩ := stepped
      exact Or.inr ⟨op, rfl, inner⟩
    · simp [atomic, allowed] at stepped

/-- The steps of the object in a run of `atomic` are a run of the machine. -/
theorem Run.operations
    {trace : List (Entry (Served State Thread Call Value) (AtomicLabel Thread Call Op)
      (Option Value))}
    (run : (m.atomic i).Run s trace s') :
    m.Run s.object (trace.filterMap operation) s'.object := by
  induction run with
  | nil => exact Run.nil
  | snoc ran stepped ih =>
    rw [List.filterMap_append]
    rcases atomic_operation stepped with ⟨none, same⟩ | ⟨op, taken, inner⟩
    · simp only [List.filterMap_cons, List.filterMap_nil, none, List.append_nil]
      rw [same]
      exact ih
    · simp only [List.filterMap_cons, List.filterMap_nil, taken]
      exact Run.snoc ih inner

end Libsysve.Machine
