import Mathlib.Logic.Function.Basic
import Libsysve.Library.Blocks
import Libsysve.Library.WordMemory

/-!
# The VE instructions of the vector copy

The instructions that libsysve_vec_memcpy.S uses, on scalar registers, memory, the vector
length register and vector register `%v63`.  Scalar loads and stores take any address; a
vector access to an address that is not aligned, and a vector length above the maximum, are
exceptions.
-/

set_option autoImplicit false

namespace Libsysve.VecMemcpy

open Libsysve.ByteMemory Libsysve.Blocks

inductive SReg where
  | s0 | s1 | s2 | s53 | s54 | s55 | s56 | s57 | s58 | s59 | s60 | s61 | s62 | s63
  | sp | fp | lr | got | plt
deriving DecidableEq

/-- The maximum vector length of the processor; a vector register fits in memory. -/
structure VectorUnit where
  mvl : Nat
  pos : 1 ≤ mvl
  fits : 8 * mvl < 2 ^ 63

/-- `setVl` has the vector lengths that were set, in order. -/
structure VeState where
  reg : SReg → BitVec 64
  mem : Memory
  vl : Nat
  v63 : Nat → BitVec 64
  setVl : List Nat

inductive Operand where
  | reg (r : SReg)
  | imm (v : BitVec 64)

instance : Coe SReg Operand := ⟨.reg⟩

instance (n : Nat) : OfNat Operand n := ⟨.imm (.ofNat 64 n)⟩

/-- `(m)0`: `m` zeros, then ones. -/
def mask0 (m : Nat) : Operand := .imm (.ofNat 64 (2 ^ (64 - m) - 1))

/-- `(m)1`: `m` ones, then zeros. -/
def mask1 (m : Nat) : Operand := .imm (~~~(.ofNat 64 (2 ^ (64 - m) - 1)))

inductive Cond where
  | eq | ne | lt | gt | ge
deriving DecidableEq

/-- The comparison of two 64-bit integers with sign. -/
def Cond.holds (a b : BitVec 64) : Cond → Bool
  | .eq => a == b
  | .ne => a != b
  | .lt => a.slt b
  | .gt => b.slt a
  | .ge => b.sle a

/-- The operands are in the order of the source: the destination first, and last the base of
the address. -/
inductive VeInstr (Label : Type) where
  | or (x : SReg) (y z : Operand)
  | and (x : SReg) (y z : Operand)
  | addu (x : SReg) (y z : Operand)
  | subu (x : SReg) (y z : Operand)
  | adds (x : SReg) (y z : Operand)
  | sla (x z : SReg) (n : Nat)
  | sra (x z : SReg) (n : Nat)
  | ld (x : SReg) (disp : Nat) (z : SReg)
  | st (x : SReg) (disp : Nat) (z : SReg)
  | ld1b (x z : SReg)
  | st1b (x z : SReg)
  | smvl (x : SReg)
  | lvl (y : SReg)
  | vld (stride : Nat) (z : SReg)
  | vst (stride : Nat) (z : SReg)
  | vldl (stride : Nat) (z : SReg)
  | vstl (stride : Nat) (z : SReg)
  | br (cond : Cond) (y z : Operand) (target : Label)
  | brAlways (target : Label)
  | bLr

namespace VeState

variable (s : VeState)

def value : Operand → BitVec 64
  | .reg r => s.reg r
  | .imm v => v

def setReg (r : SReg) (v : BitVec 64) : VeState :=
  { s with reg := Function.update s.reg r v }

def setMem (mem : Memory) : VeState := { s with mem := mem }

/-- The address `disp(,%z)`. -/
def addr (disp : Nat) (z : SReg) : Nat := (s.reg z + .ofNat 64 disp).toNat

/-- `vl` elements from memory. -/
def loadVector (elem : Nat → BitVec 64) : VeState :=
  { s with v63 := fun i => if i < s.vl then elem i else s.v63 i }

/-- The low `k` bytes of `vl` elements to memory. -/
def storeVector (a stride k : Nat) : VeState :=
  s.setMem (storeRow s.mem a stride k (fun i => (s.v63 i).toNat) s.vl)

def setLength (vl : Nat) : VeState := { s with vl := vl, setVl := s.setVl ++ [vl] }

@[simp] theorem value_reg (r : SReg) : s.value (.reg r) = s.reg r := rfl

@[simp] theorem value_imm (v : BitVec 64) : s.value (.imm v) = v := rfl

@[simp] theorem value_ofNat (n : Nat) : s.value (no_index (OfNat.ofNat n)) = .ofNat 64 n := rfl

theorem setReg_reg (r r' : SReg) (v : BitVec 64) :
    (s.setReg r v).reg r' = if r' = r then v else s.reg r' := Function.update_apply ..

theorem setReg_addr {r z : SReg} (other : z ≠ r) (v : BitVec 64) (disp : Nat) :
    (s.setReg r v).addr disp z = s.addr disp z := by
  rw [addr, setReg_reg, if_neg other]
  rfl

@[simp] theorem setReg_mem (r : SReg) (v : BitVec 64) : (s.setReg r v).mem = s.mem := rfl

@[simp] theorem setMem_mem (mem : Memory) : (s.setMem mem).mem = mem := rfl

@[simp] theorem setMem_reg (mem : Memory) : (s.setMem mem).reg = s.reg := rfl

end VeState

section

variable {Label : Type} (u : VectorUnit)

/-- A vector access at `a`, which has to be a multiple of the size of the elements. -/
def aligned (a size : Nat) (s : VeState) : Flow Label VeState :=
  if a % size = 0 then .next s else .trap

def exec : VeInstr Label → VeState → Flow Label VeState
  | .or x y z, s => .next (s.setReg x (s.value y ||| s.value z))
  | .and x y z, s => .next (s.setReg x (s.value y &&& s.value z))
  | .addu x y z, s => .next (s.setReg x (s.value y + s.value z))
  | .subu x y z, s => .next (s.setReg x (s.value y - s.value z))
  | .adds x y z, s => .next (s.setReg x (s.value y + s.value z))
  | .sla x z n, s => .next (s.setReg x (s.reg z <<< n))
  | .sra x z n, s => .next (s.setReg x ((s.reg z).sshiftRight n))
  | .ld x disp z, s => .next (s.setReg x (.ofNat 64 (loadWord s.mem (s.addr disp z) 8)))
  | .st x disp z, s =>
    .next (s.setMem (storeWord s.mem (s.addr disp z) (s.reg x).toNat 8))
  | .ld1b x z, s =>
    .next (s.setReg x ((BitVec.ofNat 8 (loadWord s.mem (s.addr 0 z) 1)).signExtend 64))
  | .st1b x z, s => .next (s.setMem (storeWord s.mem (s.addr 0 z) (s.reg x).toNat 1))
  | .smvl x, s => .next (s.setReg x (.ofNat 64 u.mvl))
  | .lvl y, s => if (s.reg y).toNat ≤ u.mvl then .next (s.setLength (s.reg y).toNat) else .trap
  | .vld stride z, s =>
    aligned (s.addr 0 z) 8
      (s.loadVector fun i => .ofNat 64 (loadWord s.mem (s.addr 0 z + stride * i) 8))
  | .vst stride z, s => aligned (s.addr 0 z) 8 (s.storeVector (s.addr 0 z) stride 8)
  | .vldl stride z, s =>
    aligned (s.addr 0 z) 4 (s.loadVector fun i =>
      (BitVec.ofNat 32 (loadWord s.mem (s.addr 0 z + stride * i) 4)).signExtend 64)
  | .vstl stride z, s => aligned (s.addr 0 z) 4 (s.storeVector (s.addr 0 z) stride 4)
  | .br cond y z target, s =>
    if cond.holds (s.value y) (s.value z) then .jump target s else .next s
  | .brAlways target, s => .jump target s
  | .bLr, s => .ret s

end

end Libsysve.VecMemcpy
