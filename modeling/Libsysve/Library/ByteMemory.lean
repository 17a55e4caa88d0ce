import Mathlib.Data.List.Basic
import Mathlib.Data.List.Range
import Mathlib.Tactic.Ring

/-!
# Byte memories

A memory is a function from addresses to bytes.  `readRange` reads a range as a list and
`overlay` stores a range from another memory; the lemmas say how the two meet and how
adjacent ranges join.
-/

set_option autoImplicit false

namespace Libsysve.ByteMemory

abbrev Memory := Nat → UInt8

def readRange (m : Memory) (a n : Nat) : List UInt8 :=
  (List.range n).map fun i => m (a + i)

/-- `m` with the `n` bytes of `src` from offset 0 stored at address `a`. -/
def overlay (m : Memory) (a : Nat) (src : Memory) (n : Nat) : Memory :=
  fun x => if a ≤ x ∧ x < a + n then src (x - a) else m x

@[simp] theorem readRange_length (m : Memory) (a n : Nat) : (readRange m a n).length = n := by
  simp [readRange]

theorem readRange_congr {m m' : Memory} {a a' n : Nat}
    (same : ∀ i, i < n → m (a + i) = m' (a' + i)) : readRange m a n = readRange m' a' n := by
  simp only [readRange]
  apply List.map_congr_left
  intro i member
  exact same i (List.mem_range.mp member)

theorem byte_eq_of_readRange {m m' : Memory} {a a' n i : Nat}
    (same : readRange m a n = readRange m' a' n) (lt : i < n) : m (a + i) = m' (a' + i) :=
  List.map_inj_left.mp same i (List.mem_range.mpr lt)

theorem getD_readRange (m : Memory) (a : Nat) {n i : Nat} (lt : i < n) :
    (readRange m a n).getD i 0 = m (a + i) := by
  simp [readRange, lt]

theorem readRange_add (m : Memory) (a k n : Nat) :
    readRange m a (k + n) = readRange m a k ++ readRange m (a + k) n := by
  simp only [readRange, List.range_add, List.map_append, List.map_map]
  congr 1
  apply List.map_congr_left
  intro i _
  simp only [Function.comp_apply, Nat.add_assoc]

theorem take_readRange (m : Memory) (a : Nat) {k n : Nat} (le : k ≤ n) :
    (readRange m a n).take k = readRange m a k := by
  obtain ⟨rest, rfl⟩ := Nat.exists_eq_add_of_le le
  rw [readRange_add, List.take_left' (readRange_length m a k)]

theorem overlay_inside (m : Memory) (a : Nat) (src : Memory) {n i : Nat} (lt : i < n) :
    overlay m a src n (a + i) = src i := by
  have within : a ≤ a + i ∧ a + i < a + n := by omega
  simp only [overlay, if_pos within, Nat.add_sub_cancel_left]

theorem overlay_outside (m : Memory) {a : Nat} (src : Memory) {n x : Nat}
    (out : x < a ∨ a + n ≤ x) : overlay m a src n x = m x := by
  have outside : ¬(a ≤ x ∧ x < a + n) := by omega
  simp only [overlay, if_neg outside]

theorem overlay_none (m : Memory) (a : Nat) (src : Memory) : overlay m a src 0 = m := by
  funext x
  exact overlay_outside m src (by omega)

theorem overlay_overlay (m : Memory) (a : Nat) (src src' : Memory) (k n : Nat)
    (same : ∀ i, i < n → src' i = src (k + i)) :
    overlay (overlay m a src k) (a + k) src' n = overlay m a src (k + n) := by
  funext x
  by_cases first : a ≤ x ∧ x < a + k
  · have notSecond : ¬(a + k ≤ x ∧ x < a + k + n) := by omega
    have both : a ≤ x ∧ x < a + (k + n) := by omega
    simp only [overlay, if_neg notSecond, if_pos first, if_pos both]
  · by_cases second : a + k ≤ x ∧ x < a + k + n
    · have both : a ≤ x ∧ x < a + (k + n) := by omega
      have offset : k + (x - (a + k)) = x - a := by omega
      simp only [overlay, if_pos second, if_pos both, same _ (by omega : x - (a + k) < n), offset]
    · have neither : ¬(a ≤ x ∧ x < a + (k + n)) := by omega
      simp only [overlay, if_neg second, if_neg first, if_neg neither]

theorem readRange_overlay (m : Memory) (a : Nat) (src : Memory) (n : Nat) :
    readRange (overlay m a src n) a n = readRange src 0 n := by
  apply readRange_congr
  intro i lt
  rw [overlay_inside m a src lt, Nat.zero_add]

/-! ## Scattered stores -/

/-- `m` with byte `i` of `src` stored at address `addr i`, for `i` from 0 to `n - 1`. -/
def scatter (m : Memory) (addr : Nat → Nat) (src : Memory) : Nat → Memory
  | 0 => m
  | n + 1 => Function.update (scatter m addr src n) (addr n) (src n)

@[simp] theorem scatter_zero (m : Memory) (addr : Nat → Nat) (src : Memory) :
    scatter m addr src 0 = m := rfl

theorem scatter_congr {m : Memory} {addr addr' : Nat → Nat} {src src' : Memory} {n : Nat}
    (sameAddr : ∀ i, i < n → addr i = addr' i) (sameByte : ∀ i, i < n → src i = src' i) :
    scatter m addr src n = scatter m addr' src' n := by
  induction n with
  | zero => rfl
  | succ n ih =>
    have before := ih (fun i lt => sameAddr i (by omega)) (fun i lt => sameByte i (by omega))
    simp only [scatter, before, sameAddr n (by omega), sameByte n (by omega)]

theorem scatter_add (m : Memory) (addr : Nat → Nat) (src : Memory) (k n : Nat) :
    scatter m addr src (k + n) =
      scatter (scatter m addr src k) (fun i => addr (k + i)) (fun i => src (k + i)) n := by
  induction n with
  | zero => rfl
  | succ n ih => rw [← Nat.add_assoc, scatter, scatter, ih]

theorem scatter_other {m : Memory} {addr : Nat → Nat} {src : Memory} {n x : Nat}
    (other : ∀ i, i < n → addr i ≠ x) : scatter m addr src n x = m x := by
  induction n with
  | zero => rfl
  | succ n ih =>
    have last : x ≠ addr n := (other n (by omega)).symm
    rw [scatter, Function.update_of_ne last, ih (fun i lt => other i (by omega))]

theorem scatter_at {m : Memory} {addr : Nat → Nat} {src : Memory} {n i : Nat} (lt : i < n)
    (distinct : ∀ j, i < j → j < n → addr j ≠ addr i) :
    scatter m addr src n (addr i) = src i := by
  induction n with
  | zero => omega
  | succ n ih =>
    by_cases last : i = n
    · subst last
      rw [scatter, Function.update_self]
    · have other : addr i ≠ addr n := (distinct n (by omega) (by omega)).symm
      rw [scatter, Function.update_of_ne other]
      exact ih (by omega) (fun j after before => distinct j after (by omega))

theorem scatter_contiguous (m : Memory) (a : Nat) (src : Memory) (n : Nat) :
    scatter m (fun i => a + i) src n = overlay m a src n := by
  funext x
  by_cases inside : a ≤ x ∧ x < a + n
  · obtain ⟨i, rfl⟩ := Nat.exists_eq_add_of_le inside.1
    rw [overlay_inside m a src (by omega)]
    exact scatter_at (by omega) (fun j after _ => by omega)
  · rw [overlay_outside m src (by omega)]
    exact scatter_other (fun i lt => by omega)

end Libsysve.ByteMemory
