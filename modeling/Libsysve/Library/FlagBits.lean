import Mathlib.Data.Nat.Bitwise

/-!
# Flag bits in an address

A word whose bits are free in an address can be or-ed into it, goes through an addition
that leaves its bits free, and can be cleared again.
-/

set_option autoImplicit false

namespace Libsysve.FlagBits

/-- No bit is set in both. -/
def Apart (a b : Nat) : Prop := a &&& b = 0

instance (a b : Nat) : Decidable (Apart a b) := inferInstanceAs (Decidable (a &&& b = 0))

theorem Apart.testBit {a b : Nat} (apart : Apart a b) (i : Nat) :
    ¬(a.testBit i = true ∧ b.testBit i = true) := by
  intro both
  have bit : (a &&& b).testBit i = true := by
    rw [Nat.testBit_and, both.1, both.2]
    rfl
  rw [apart, Nat.zero_testBit] at bit
  exact absurd bit (by decide)

theorem apart_or {a f g : Nat} : Apart a (f ||| g) ↔ Apart a f ∧ Apart a g := by
  rw [Apart, Nat.and_or_distrib_left, Nat.or_eq_zero_iff]
  rfl

/-- Words without a common bit are added without a carry. -/
theorem Apart.add_eq_or {a b : Nat} (apart : Apart a b) : a + b = a ||| b := by
  induction a using Nat.strongRecOn generalizing b with
  | ind a ih =>
    by_cases zero : a = 0
    · rw [zero, Nat.zero_add, Nat.zero_or]
    · have halves : a / 2 + b / 2 = a / 2 ||| b / 2 := by
        apply ih (a / 2) (Nat.div_lt_self (Nat.pos_of_ne_zero zero) (by decide))
        rw [Apart, ← Nat.and_div_two, apart]
      have low := apart.testBit 0
      simp only [Nat.testBit_zero, decide_eq_true_eq] at low
      have quotient : (a ||| b) / 2 = a / 2 ||| b / 2 := Nat.or_div_two
      have remainder : (a ||| b) % 2 = 1 ↔ a % 2 = 1 ∨ b % 2 = 1 := Nat.or_mod_two_eq_one
      omega

theorem or_add {a f d : Nat} (before : Apart a f) (after : Apart (a + d) f) :
    (a ||| f) + d = (a + d) ||| f := by
  rw [← before.add_eq_or, ← after.add_eq_or]
  exact Nat.add_right_comm a f d

theorem or_and_self (a f : Nat) : (a ||| f) &&& f = f := by
  apply Nat.eq_of_testBit_eq
  intro i
  rw [Nat.testBit_and, Nat.testBit_or]
  cases a.testBit i <;> cases f.testBit i <;> rfl

theorem ldiff_or {a f : Nat} (apart : Apart a f) : (a ||| f).ldiff f = a := by
  apply Nat.eq_of_testBit_eq
  intro i
  have notBoth := apart.testBit i
  rw [Nat.testBit_ldiff, Nat.testBit_or]
  cases inAddress : a.testBit i <;> cases inFlag : f.testBit i <;> simp_all

end Libsysve.FlagBits
