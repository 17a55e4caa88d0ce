import Libsysve.Library.Word64
import Libsysve.VecMemcpy.Code

/-!
# What the copy has done so far

`Copying k` holds at the labels of the vector copy when `k` bytes are copied: the two pointers
and the count left agree on `k`.  The sequences of instructions that copy a byte, a word or a
vector carry it on.
-/

set_option autoImplicit false

namespace Libsysve.VecMemcpy

open Libsysve.ByteMemory Libsysve.Blocks Libsysve.Word64
open SReg

/-- A call with regions that do not wrap or overlap; `mem` is the memory after the prologue. -/
structure CopyCall where
  dest : BitVec 64
  src : BitVec 64
  frame : BitVec 64
  n : Nat
  mem : Memory
  size : n < 2 ^ 63
  destFits : dest.toNat + n ≤ 2 ^ 64
  srcFits : src.toNat + n ≤ 2 ^ 64
  apart : dest.toNat + n ≤ src.toNat ∨ src.toNat + n ≤ dest.toNat

/-- What the copy does not change, and the vector lengths it has set. -/
structure Kept (u : VectorUnit) (c : CopyCall) (s : VeState) : Prop where
  dest : s.reg s0 = c.dest
  src : s.reg s1 = c.src
  size : s.reg s2 = .ofNat 64 c.n
  frame : s.reg fp = c.frame
  lengths : ∀ vl ∈ s.setVl, 1 ≤ vl ∧ vl ≤ u.mvl

structure Copying (u : VectorUnit) (c : CopyCall) (k : Nat) (s : VeState) : Prop where
  kept : Kept u c s
  le : k ≤ c.n
  p : s.reg s63 = c.dest + .ofNat 64 k
  q : s.reg s62 = c.src + .ofNat 64 k
  left : s.reg s61 = .ofNat 64 (c.n - k)
  mem : s.mem = copyRange c.mem c.dest.toNat c.src.toNat k

variable {u : VectorUnit} {c : CopyCall} {k m : Nat} {s s' : VeState}

/-- The registers that the copy may use as it likes. -/
def SReg.scratch (r : SReg) : Bool := r != s0 && r != s1 && r != s2 && r != fp

theorem Kept.setReg (kept : Kept u c s) {r : SReg} (scratch : r.scratch = true)
    (v : BitVec 64) : Kept u c (s.setReg r v) := by
  have other : ∀ r', r'.scratch = false → (s.setReg r v).reg r' = s.reg r' := by
    intro r' fixed
    rw [VeState.setReg_reg, if_neg]
    rintro rfl
    rw [scratch] at fixed
    exact absurd fixed (by decide)
  exact
    { dest := (other s0 rfl).trans kept.dest
      src := (other s1 rfl).trans kept.src
      size := (other s2 rfl).trans kept.size
      frame := (other fp rfl).trans kept.frame
      lengths := kept.lengths }

theorem Kept.congr (kept : Kept u c s) (regs : s'.reg = s.reg) (lengths : s'.setVl = s.setVl) :
    Kept u c s' where
  dest := regs ▸ kept.dest
  src := regs ▸ kept.src
  size := regs ▸ kept.size
  frame := regs ▸ kept.frame
  lengths := lengths ▸ kept.lengths

theorem Kept.setMem (kept : Kept u c s) (mem : Memory) : Kept u c (s.setMem mem) :=
  kept.congr rfl rfl

namespace Copying

theorem addrP (copying : Copying u c k s) (lt : k < c.n) :
    s.addr 0 s63 = c.dest.toNat + k := by
  have fits := c.destFits
  rw [VeState.addr, copying.p, add_add]
  exact add_toNat (by omega)

theorem addrQ (copying : Copying u c k s) (lt : k < c.n) :
    s.addr 0 s62 = c.src.toNat + k := by
  have fits := c.srcFits
  rw [VeState.addr, copying.q, add_add]
  exact add_toNat (by omega)

theorem advance (copying : Copying u c k s) (le : k + m ≤ c.n) (kept : Kept u c s')
    (p : s'.reg s63 = s.reg s63 + .ofNat 64 m) (q : s'.reg s62 = s.reg s62 + .ofNat 64 m)
    (left : s'.reg s61 = s.reg s61 - .ofNat 64 m)
    (mem : s'.mem = overlay s.mem (c.dest.toNat + k) (fun i => s.mem (c.src.toNat + k + i)) m) :
    Copying u c (k + m) s' where
  kept := kept
  le := le
  p := by rw [p, copying.p, add_add]
  q := by rw [q, copying.q, add_add]
  left := by
    rw [left, copying.left, sub_ofNat (by omega)]
    congr 1
    omega
  mem := by
    have apart := c.apart
    rw [mem, copying.mem]
    exact copyRange_more c.mem (by omega)

end Copying

/-- A byte that was loaded with its sign is stored as it was. -/
theorem store_signExtend (m : Memory) (a b : Nat) {j : Nat} (le : 8 * j ≤ 64) :
    storeWord m a ((BitVec.ofNat (8 * j) (loadWord m b j)).signExtend 64).toNat j =
      overlay m a (fun i => m (b + i)) j := by
  have bytes : 256 ^ j = 2 ^ (8 * j) := (pow_mul 2 8 j).symm
  rw [← storeWord_mod, bytes, signExtend_mod _ le, ← bytes, storeWord_mod, storeWord_load]

/-- The five instructions that copy one byte. -/
theorem Copying.copyByte (copying : Copying u c k s) (lt : k < c.n) {t : SReg}
    (temp : t = s60 ∨ t = s53) (rest : List (VeInstr Label)) :
    ∃ s', (vecMemcpy u).runList (.ld1b t s62 :: .st1b t s63 :: .addu s62 1 s62 ::
        .addu s63 1 s63 :: .subu s61 s61 (mask0 63) :: rest) s = (vecMemcpy u).runList rest s' ∧
      Copying u c (k + 1) s' := by
  have scratch : t.scratch = true := by rcases temp with rfl | rfl <;> rfl
  refine ⟨_, rfl, copying.advance lt ?_ ?_ ?_ ?_ ?_⟩
  · exact ((((copying.kept.setReg scratch _).setMem _).setReg rfl _).setReg rfl _).setReg rfl _
  · rcases temp with rfl | rfl <;> simp [VeState.setReg_reg, BitVec.add_comm]
  · rcases temp with rfl | rfl <;> simp [VeState.setReg_reg, BitVec.add_comm]
  · rcases temp with rfl | rfl <;> simp [VeState.setReg_reg, mask0]
  · have stored := store_signExtend s.mem (c.dest.toNat + k) (c.src.toNat + k)
      (show 8 * 1 ≤ 64 by decide)
    have other : s63 ≠ t := by rcases temp with rfl | rfl <;> decide
    rw [← stored, ← copying.addrP lt, ← copying.addrQ lt]
    simp [VeState.setReg_reg, s.setReg_addr other]

/-! ## Vectors -/

/-- The two sizes of vector elements, each with its own blocks. -/
inductive Width where
  | byte4 | byte8

namespace Width

def bytes : Width → Nat
  | .byte4 => 4
  | .byte8 => 8

def shift : Width → Nat
  | .byte4 => 2
  | .byte8 => 3

def load : Width → VeInstr Label
  | .byte4 => .vldl 4 s62
  | .byte8 => .vld 8 s62

def store : Width → VeInstr Label
  | .byte4 => .vstl 4 s63
  | .byte8 => .vst 8 s63

theorem bytes_eq (w : Width) : w.bytes = 2 ^ w.shift := by
  cases w <;> rfl

theorem bytes_pos (w : Width) : 0 < w.bytes := by
  cases w <;> decide

end Width

structure Aligned (w : Width) (c : CopyCall) (k : Nat) : Prop where
  p : (c.dest.toNat + k) % w.bytes = 0
  q : (c.src.toNat + k) % w.bytes = 0

theorem Aligned.more {w : Width} (aligned : Aligned w c k) (m : Nat) :
    Aligned w c (k + w.bytes * m) := by
  constructor
  · rw [← Nat.add_assoc, Nat.add_mul_mod_self_left, aligned.p]
  · rw [← Nat.add_assoc, Nat.add_mul_mod_self_left, aligned.q]

theorem storeVector_load (s : VeState) (a b size : Nat) {elem : Nat → BitVec 64}
    (loaded : ∀ i, (elem i).toNat % 256 ^ size = loadWord s.mem (b + size * i) size) :
    ((s.loadVector elem).storeVector a size size).mem =
      overlay s.mem a (fun i => s.mem (b + i)) (size * s.vl) := by
  refine storeRow_load s.mem s.mem a b size s.vl fun i lt => ?_
  have element : (s.loadVector elem).v63 i = elem i := if_pos lt
  rw [element]
  exact loaded i

/-- A vector load and store of aligned addresses copies the bytes of the elements. -/
theorem run_vector (w : Width) {a b : Nat} (p : s.addr 0 s63 = a) (q : s.addr 0 s62 = b)
    (alignedP : a % w.bytes = 0) (alignedQ : b % w.bytes = 0) (rest : List (VeInstr Label)) :
    ∃ s', (vecMemcpy u).runList (w.load :: w.store :: rest) s = (vecMemcpy u).runList rest s' ∧
      s'.reg = s.reg ∧ s'.vl = s.vl ∧ s'.setVl = s.setVl ∧
      s'.mem = overlay s.mem a (fun i => s.mem (b + i)) (w.bytes * s.vl) := by
  subst p q
  cases w with
  | byte8 =>
    let elem := fun i => BitVec.ofNat 64 (loadWord s.mem (s.addr 0 s62 + 8 * i) 8)
    let stored := (s.loadVector elem).storeVector (s.addr 0 s63) 8 8
    have loads : (vecMemcpy u).exec Width.byte8.load s = .next (s.loadVector elem) :=
      if_pos alignedQ
    have stores : (vecMemcpy u).exec Width.byte8.store (s.loadVector elem) = .next stored :=
      if_pos alignedP
    refine ⟨stored, ?_, rfl, rfl, rfl, ?_⟩
    · exact (Program.runList_cons loads).trans (Program.runList_cons stores)
    · refine storeVector_load s _ _ 8 fun i => ?_
      have small := loadWord_lt s.mem (s.addr 0 s62 + 8 * i) 8
      rw [ofNat_toNat small, Nat.mod_eq_of_lt small]
  | byte4 =>
    let elem := fun i =>
      (BitVec.ofNat 32 (loadWord s.mem (s.addr 0 s62 + 4 * i) 4)).signExtend 64
    let stored := (s.loadVector elem).storeVector (s.addr 0 s63) 4 4
    have loads : (vecMemcpy u).exec Width.byte4.load s = .next (s.loadVector elem) :=
      if_pos alignedQ
    have stores : (vecMemcpy u).exec Width.byte4.store (s.loadVector elem) = .next stored :=
      if_pos alignedP
    refine ⟨stored, ?_, rfl, rfl, rfl, ?_⟩
    · exact (Program.runList_cons loads).trans (Program.runList_cons stores)
    · refine storeVector_load s _ _ 4 fun i => ?_
      have small := loadWord_lt s.mem (s.addr 0 s62 + 4 * i) 4
      have low := signExtend_mod (w := 32) (loadWord s.mem (s.addr 0 s62 + 4 * i) 4) (by decide)
      exact low.trans (Nat.mod_eq_of_lt small)

/-- The registers that hold neither the arguments nor the state of the copy. -/
def SReg.temp (r : SReg) : Bool := r.scratch && r != s61 && r != s62 && r != s63

theorem SReg.temp_ne {r r' : SReg} (temp : r.temp = true) (other : r'.temp = false) :
    r' ≠ r := by
  rintro rfl
  rw [temp] at other
  exact absurd other (by decide)

theorem Copying.setReg (copying : Copying u c k s) {r : SReg} (temp : r.temp = true)
    (v : BitVec 64) : Copying u c k (s.setReg r v) := by
  have scratch : r.scratch = true := by
    cases r <;> first | rfl | exact temp
  have other : ∀ r', r'.temp = false → (s.setReg r v).reg r' = s.reg r' := fun r' fixed => by
    rw [VeState.setReg_reg, if_neg (SReg.temp_ne temp fixed)]
  exact
    { kept := copying.kept.setReg scratch v
      le := copying.le
      p := (other s63 rfl).trans copying.p
      q := (other s62 rfl).trans copying.q
      left := (other s61 rfl).trans copying.left
      mem := copying.mem }

theorem Copying.setLength (copying : Copying u c k s) {vl : Nat} (pos : 1 ≤ vl)
    (le : vl ≤ u.mvl) : Copying u c k (s.setLength vl) where
  kept :=
    { dest := copying.kept.dest
      src := copying.kept.src
      size := copying.kept.size
      frame := copying.kept.frame
      lengths := by
        intro l member
        rcases List.mem_append.mp member with old | last
        · exact copying.kept.lengths l old
        · rw [List.mem_singleton.mp last]
          exact ⟨pos, le⟩ }
  le := copying.le
  p := copying.p
  q := copying.q
  left := copying.left
  mem := copying.mem

end Libsysve.VecMemcpy
