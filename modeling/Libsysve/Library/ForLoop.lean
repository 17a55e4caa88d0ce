import Mathlib.Logic.Function.Basic
import Mathlib.Tactic.Ring

/-!
# Counted loops with a break

`forLoop body n i s` is `for (; n remaining; i++)` with a body that may leave the
loop early.  `forLoop_rule` is the invariant rule: an invariant indexed by the loop
counter, and one postcondition that every exit (a break or the end of the count)
has to establish.  `forLoop_related` compares two such loops step by step.  The index of
`forLoopUpTo` is bounded.
-/

set_option autoImplicit false

namespace Libsysve.ForLoop

universe u v

variable {State : Type u} {State' : Type v}

/-- What one execution of a loop body does: go on, or leave the loop. -/
inductive LoopCtl (State : Type u) where
  | next (s : State)
  | brk (s : State)

namespace LoopCtl

/-- `cont` on the state a body goes on with, `exit` on the state it breaks with. -/
def Sat (c : LoopCtl State) (cont exit : State → Prop) : Prop :=
  match c with
  | .next s => cont s
  | .brk s => exit s

@[simp] theorem sat_next (s : State) (cont exit : State → Prop) :
    (LoopCtl.next s).Sat cont exit ↔ cont s := Iff.rfl

@[simp] theorem sat_brk (s : State) (cont exit : State → Prop) :
    (LoopCtl.brk s).Sat cont exit ↔ exit s := Iff.rfl

theorem Sat.mono {c : LoopCtl State} {cont exit cont' exit' : State → Prop}
    (h : c.Sat cont exit) (goOn : ∀ s, cont s → cont' s) (leave : ∀ s, exit s → exit' s) :
    c.Sat cont' exit' := by
  cases c with
  | next s => exact goOn s h
  | brk s => exact leave s h

/-- Two bodies end alike, in states related by `cont` or by `exit`. -/
def Related (cont exit : State → State' → Prop) : LoopCtl State → LoopCtl State' → Prop
  | .next s, .next t => cont s t
  | .brk s, .brk t => exit s t
  | .next _, .brk _ => False
  | .brk _, .next _ => False

@[simp] theorem related_next (s : State) (t : State') (cont exit : State → State' → Prop) :
    Related cont exit (.next s) (.next t) ↔ cont s t := Iff.rfl

@[simp] theorem related_brk (s : State) (t : State') (cont exit : State → State' → Prop) :
    Related cont exit (.brk s) (.brk t) ↔ exit s t := Iff.rfl

theorem Related.ite {cont exit : State → State' → Prop} {p q : Prop} [Decidable p] [Decidable q]
    {c c' : LoopCtl State} {d d' : LoopCtl State'} (same : p ↔ q)
    (yes : q → Related cont exit c d) (no : ¬q → Related cont exit c' d') :
    Related cont exit (if p then c else c') (if q then d else d') := by
  by_cases holds : q
  · rw [if_pos holds, if_pos (same.mpr holds)]
    exact yes holds
  · rw [if_neg holds, if_neg (fun h => holds (same.mp h))]
    exact no holds

/-- What each body establishes on its own can be used in the relation. -/
theorem Related.and_sat {cont exit : State → State' → Prop} {c : LoopCtl State}
    {d : LoopCtl State'} {p q : State → Prop} {p' q' : State' → Prop}
    (h : Related cont exit c d) (left : c.Sat p q) (right : d.Sat p' q') :
    Related (fun s t => cont s t ∧ p s ∧ p' t) exit c d := by
  cases c with
  | next s =>
    cases d with
    | next t => exact ⟨h, left, right⟩
    | brk t => exact h
  | brk s =>
    cases d with
    | next t => exact h
    | brk t => exact h

end LoopCtl

def forLoop (body : Nat → State → LoopCtl State) : Nat → Nat → State → State
  | 0, _, s => s
  | n + 1, i, s =>
    match body i s with
    | .next s' => forLoop body n (i + 1) s'
    | .brk s' => s'

theorem forLoop_rule {body : Nat → State → LoopCtl State} {bound : Nat}
    {inv : Nat → State → Prop} {post : State → Prop}
    (step : ∀ i s, i < bound → inv i s → (body i s).Sat (inv (i + 1)) post)
    (done : ∀ s, inv bound s → post s) :
    ∀ n i s, i + n = bound → inv i s → post (forLoop body n i s) := by
  intro n
  induction n with
  | zero =>
    intro i s reached holds
    have atBound : i = bound := by omega
    subst atBound
    exact done s holds
  | succ n ih =>
    intro i s reached holds
    have once := step i s (by omega) holds
    simp only [forLoop]
    cases outcome : body i s with
    | next s' =>
      rw [outcome] at once
      exact ih (i + 1) s' (by omega) once
    | brk s' =>
      rw [outcome] at once
      exact once

/-- The loop ends by its count, or by a break. -/
theorem forLoop_ends {body : Nat → State → LoopCtl State} {bound : Nat}
    {inv : Nat → State → Prop} {broken : State → Prop}
    (step : ∀ i s, i < bound → inv i s → (body i s).Sat (inv (i + 1)) broken) {s : State}
    (start : inv 0 s) :
    inv bound (forLoop body bound 0 s) ∨ broken (forLoop body bound 0 s) := by
  have once : ∀ i s, i < bound → inv i s →
      (body i s).Sat (inv (i + 1)) fun s => inv bound s ∨ broken s := by
    intro i s inside holds
    exact (step i s inside holds).mono (fun _ next => next) fun _ left => .inr left
  exact forLoop_rule once (fun _ last => .inl last) bound 0 s (Nat.zero_add bound) start

/-! ## A bounded index -/

/-- The loop with an index that cannot be counted beyond `max`: then there is no result. -/
def forLoopUpTo (max : Nat) (body : Nat → State → LoopCtl State) :
    Nat → Nat → State → Option State
  | 0, _, s => some s
  | n + 1, i, s =>
    match body i s with
    | .next s' => if i < max then forLoopUpTo max body n (i + 1) s' else none
    | .brk s' => some s'

theorem forLoopUpTo_eq {max : Nat} {body : Nat → State → LoopCtl State} :
    ∀ {n i : Nat} {s : State}, i + n ≤ max →
      forLoopUpTo max body n i s = some (forLoop body n i s) := by
  intro n
  induction n with
  | zero => intro i s _; rfl
  | succ n ih =>
    intro i s small
    simp only [forLoopUpTo, forLoop]
    cases body i s with
    | next s' =>
      dsimp only
      rw [if_pos (by omega), ih (by omega)]
    | brk s' => rfl

theorem forLoopUpTo_ends {max bound : Nat} {body : Nat → State → LoopCtl State}
    {inv : Nat → State → Prop} {broken : State → Prop}
    (step : ∀ i s, i < bound → i ≤ max → inv i s → (body i s).Sat (inv (i + 1)) broken) :
    ∀ n i s t, i + n = bound → i ≤ max → inv i s → forLoopUpTo max body n i s = some t →
      bound ≤ max ∧ inv bound t ∨ broken t := by
  intro n
  induction n with
  | zero =>
    intro i s t reached inside holds result
    obtain rfl := Option.some.inj result
    obtain rfl : i = bound := by omega
    exact .inl ⟨inside, holds⟩
  | succ n ih =>
    intro i s t reached inside holds result
    have once := step i s (by omega) inside holds
    rw [forLoopUpTo] at result
    cases outcome : body i s with
    | next s' =>
      simp only [outcome] at once result
      by_cases more : i < max
      · rw [if_pos more] at result
        exact ih (i + 1) s' t (by omega) more once result
      · rw [if_neg more] at result
        exact absurd result (by simp)
    | brk s' =>
      simp only [outcome] at once result
      obtain rfl := Option.some.inj result
      exact .inr once

theorem forLoopUpTo_none {max : Nat} {body : Nat → State → LoopCtl State}
    {inv : Nat → State → Prop}
    (step : ∀ i s, i ≤ max → inv i s → ∃ s', body i s = .next s' ∧ inv (i + 1) s') :
    ∀ {n i : Nat} {s : State}, i ≤ max → max < i + n → inv i s →
      forLoopUpTo max body n i s = none := by
  intro n
  induction n with
  | zero => intro i s inside beyond _; omega
  | succ n ih =>
    intro i s inside beyond holds
    obtain ⟨s', goesOn, later⟩ := step i s inside holds
    simp only [forLoopUpTo, goesOn]
    by_cases more : i < max
    · rw [if_pos more]
      exact ih (by omega) (by omega) later
    · rw [if_neg more]

/-- Two loops whose bodies end alike from related states end in related states. -/
theorem forLoop_related {body : Nat → State → LoopCtl State}
    {body' : Nat → State' → LoopCtl State'} {bound : Nat} {rel : Nat → State → State' → Prop}
    {exit : State → State' → Prop}
    (step : ∀ i s t, i < bound → rel i s t →
      LoopCtl.Related (rel (i + 1)) exit (body i s) (body' i t))
    (done : ∀ s t, rel bound s t → exit s t) :
    ∀ n i s t, i + n = bound → rel i s t → exit (forLoop body n i s) (forLoop body' n i t) := by
  intro n
  induction n with
  | zero =>
    intro i s t reached holds
    have atBound : i = bound := by omega
    subst atBound
    exact done s t holds
  | succ n ih =>
    intro i s t reached holds
    have once := step i s t (by omega) holds
    simp only [forLoop]
    cases outcome : body i s with
    | next s' =>
      cases outcome' : body' i t with
      | next t' =>
        rw [outcome, outcome'] at once
        exact ih (i + 1) s' t' (by omega) once
      | brk t' =>
        rw [outcome, outcome'] at once
        exact absurd once id
    | brk s' =>
      cases outcome' : body' i t with
      | next t' =>
        rw [outcome, outcome'] at once
        exact absurd once id
      | brk t' =>
        rw [outcome, outcome'] at once
        exact once

end Libsysve.ForLoop
