import Mathlib.Init

/-!
# Programs of labelled blocks

A block is a list of instructions; control leaves it by a jump or a return, or falls through to
the next label.  `Ends` is total correctness: from a label and a state the program returns, in a
state with the property.  `Ends.loop` is the rule for a label that control comes back to.
-/

set_option autoImplicit false

namespace Libsysve.Blocks

universe u v w

/-- Where an instruction leaves control, and the state; `trap` is an exception. -/
inductive Flow (Label : Type u) (State : Type v) where
  | next (s : State)
  | jump (l : Label) (s : State)
  | ret (s : State)
  | trap

structure Program (Label : Type u) (Instr : Type w) (State : Type v) where
  code : Label → List Instr
  after : Label → Option Label
  exec : Instr → State → Flow Label State

namespace Program

variable {Label : Type u} {Instr : Type w} {State : Type v} (p : Program Label Instr State)

/-- A list of instructions, up to the first that does not go on with the next one. -/
def runList : List Instr → State → Flow Label State
  | [], s => .next s
  | i :: rest, s =>
    match p.exec i s with
    | .next s' => runList rest s'
    | flow => flow

/-- At most `n` blocks from label `l` on; there is no result when the program has not returned
after them, or has trapped. -/
def run : Nat → Label → State → Option State
  | 0, _, _ => none
  | n + 1, l, s =>
    match p.runList (p.code l) s with
    | .next s' => (p.after l).bind fun l' => run n l' s'
    | .jump l' s' => run n l' s'
    | .ret s' => some s'
    | .trap => none

/-- From `l` and `s` the program returns, and `post` holds then. -/
def Ends (l : Label) (s : State) (post : State → Prop) : Prop :=
  ∃ n s', p.run n l s = some s' ∧ post s'

variable {p} {l l' : Label} {s s' : State} {post : State → Prop}

theorem runList_cons {i : Instr} {rest : List Instr} (goes : p.exec i s = .next s') :
    p.runList (i :: rest) s = p.runList rest s' := by
  rw [runList, goes]

theorem Ends.ret (flow : p.runList (p.code l) s = .ret s') (holds : post s') :
    p.Ends l s post := ⟨1, s', by rw [run, flow], holds⟩

theorem Ends.jump (flow : p.runList (p.code l) s = .jump l' s') (ends : p.Ends l' s' post) :
    p.Ends l s post := by
  obtain ⟨n, final, done, holds⟩ := ends
  exact ⟨n + 1, final, by rw [run, flow]; exact done, holds⟩

theorem Ends.fall (flow : p.runList (p.code l) s = .next s') (follows : p.after l = some l')
    (ends : p.Ends l' s' post) : p.Ends l s post := by
  obtain ⟨n, final, done, holds⟩ := ends
  exact ⟨n + 1, final, by rw [run, flow, follows]; exact done, holds⟩

/-- A loop whose states get smaller, as long as control comes back to its label. -/
theorem Ends.loop {inv : State → Prop} (size : State → Nat)
    (body : ∀ s, inv s → (∀ s', inv s' → size s' < size s → p.Ends l s' post) →
      p.Ends l s post) : ∀ s, inv s → p.Ends l s post := by
  have bounded : ∀ n s, size s < n → inv s → p.Ends l s post := by
    intro n
    induction n with
    | zero => intro s lt; omega
    | succ n ih =>
      intro s lt holds
      exact body s holds fun s' again smaller => ih s' (by omega) again
  exact fun s holds => bounded (size s + 1) s (Nat.lt_succ_self _) holds

end Program

end Libsysve.Blocks
