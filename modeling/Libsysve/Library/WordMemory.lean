import Libsysve.Library.ByteMemory

/-!
# Words in a byte memory

Loads and stores of little-endian words of any size, one word or a row of them.  Storing what
was loaded is a copy of bytes, and `copyRange` is what a copy loop has done after `n` bytes:
`copyRange_more` is its step.
-/

set_option autoImplicit false

namespace Libsysve.ByteMemory

/-- The little-endian value of the `k` bytes at `a`. -/
def loadWord (m : Memory) (a : Nat) : Nat → Nat
  | 0 => 0
  | k + 1 => (m a).toNat + 256 * loadWord m (a + 1) k

/-- The `k` low bytes of `v` stored at `a`. -/
def storeWord (m : Memory) (a v : Nat) : Nat → Memory
  | 0 => m
  | k + 1 => storeWord (Function.update m a v.toUInt8) (a + 1) (v / 256) k

/-- `n` words of `k` bytes, the first at `a` and each `stride` after the one before. -/
def storeRow (m : Memory) (a stride k : Nat) (v : Nat → Nat) : Nat → Memory
  | 0 => m
  | n + 1 => storeWord (storeRow m a stride k v n) (a + stride * n) (v n) k

theorem loadWord_lt (m : Memory) (a k : Nat) : loadWord m a k < 256 ^ k := by
  induction k generalizing a with
  | zero => simp [loadWord]
  | succ k ih =>
    have byte := (m a).toNat_lt
    have rest := ih (a + 1)
    rw [loadWord, pow_succ]
    omega

theorem storeWord_outside (m : Memory) (v : Nat) {a k x : Nat} (out : x < a ∨ a + k ≤ x) :
    storeWord m a v k x = m x := by
  induction k generalizing m a v with
  | zero => rfl
  | succ k ih =>
    rw [storeWord, ih _ _ (by omega), Function.update_of_ne (by omega)]

theorem storeWord_mod (m : Memory) (a v k : Nat) :
    storeWord m a (v % 256 ^ k) k = storeWord m a v k := by
  induction k generalizing m a v with
  | zero => rfl
  | succ k ih =>
    have low : (v % 256 ^ (k + 1)).toUInt8 = v.toUInt8 := by
      rw [← UInt8.toNat_inj, UInt8.toNat_ofNat', UInt8.toNat_ofNat', pow_succ',
        Nat.mod_mul_right_mod]
    have high : v % 256 ^ (k + 1) / 256 = v / 256 % 256 ^ k := by
      rw [pow_succ', Nat.mod_mul_right_div_self]
    rw [storeWord, storeWord, low, high, ih]

theorem update_eq_overlay (m : Memory) (a : Nat) (src : Memory) :
    Function.update m a (src 0) = overlay m a src 1 := by
  funext x
  by_cases here : x = a
  · subst here
    rw [Function.update_self]
    exact (overlay_inside m x src Nat.zero_lt_one).symm
  · rw [Function.update_of_ne here, overlay_outside m src (by omega)]

/-- Storing what was loaded copies the bytes. -/
theorem storeWord_load (m m' : Memory) (a b k : Nat) :
    storeWord m a (loadWord m' b k) k = overlay m a (fun i => m' (b + i)) k := by
  induction k generalizing m a b with
  | zero =>
    funext x
    exact (overlay_outside m _ (by omega)).symm
  | succ k ih =>
    have low : (loadWord m' b (k + 1)).toUInt8 = m' b := by
      have byte := (m' b).toNat_lt
      rw [← UInt8.toNat_inj, UInt8.toNat_ofNat', loadWord]
      omega
    have high : loadWord m' b (k + 1) / 256 = loadWord m' (b + 1) k := by
      have byte := (m' b).toNat_lt
      rw [loadWord]
      omega
    have joined := overlay_overlay m a (fun i => m' (b + i)) (fun i => m' (b + 1 + i)) 1 k
      fun i _ => by rw [Nat.add_assoc]
    rw [← update_eq_overlay] at joined
    rw [storeWord, low, high, ih, Nat.add_comm k 1, ← joined]
    rfl

theorem storeRow_load (m m' : Memory) (a b k n : Nat) {v : Nat → Nat}
    (loaded : ∀ i, i < n → v i % 256 ^ k = loadWord m' (b + k * i) k) :
    storeRow m a k k v n = overlay m a (fun i => m' (b + i)) (k * n) := by
  induction n with
  | zero =>
    funext x
    exact (overlay_outside m _ (by omega)).symm
  | succ n ih =>
    rw [storeRow, ih fun i lt => loaded i (by omega), ← storeWord_mod, loaded n (by omega),
      storeWord_load]
    exact overlay_overlay m a _ _ (k * n) k fun i _ => by rw [Nat.add_assoc]

/-! ## Copies -/

/-- `m` with the `n` bytes at `s` copied to `d`. -/
def copyRange (m : Memory) (d s n : Nat) : Memory := overlay m d (fun i => m (s + i)) n

theorem copyRange_zero (m : Memory) (d s : Nat) : copyRange m d s 0 = m := by
  funext x
  exact overlay_outside m _ (by omega)

/-- A copy that has come to byte `k` goes on with the `n` bytes that follow, as long as it has
not written to them. -/
theorem copyRange_more (m : Memory) {d s k n : Nat}
    (apart : d + k ≤ s + k ∨ s + k + n ≤ d) :
    overlay (copyRange m d s k) (d + k) (fun i => copyRange m d s k (s + k + i)) n =
      copyRange m d s (k + n) := by
  refine overlay_overlay m d _ _ k n fun i lt => ?_
  rw [copyRange, overlay_outside m _ (by omega), Nat.add_assoc]

end Libsysve.ByteMemory
