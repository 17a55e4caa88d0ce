import Mathlib.Algebra.Ring.Int.Defs
import Mathlib.Algebra.Ring.Nat
import Mathlib.Data.Fin.Basic
import Libsysve.Library.LinkedList

/-!
# The argument objects of libvhcall.c

A `vhcall_args` object is a list of nodes in the order of their argument numbers, behind a
head node with number -1.  Nodes live in a heap of which `calloc` hands out the next one, or
nothing.  A function gives `none` when it does not end, or when it uses a pointer that was
never set.  vhcall.h is not part of the repository: `VhcallH` is what is used of it.
-/

set_option autoImplicit false

namespace Libsysve.Vhcall

def einval : Int := 22
def enomem : Int := 12

abbrev Byte := BitVec 8

/-- The bytes of an object in memory, the lowest first. -/
def bytesOf {w : Nat} (v : BitVec w) (k : Nat) : Byte := v.extractLsb' (8 * k) 8

/-- `vhcall_data`; `val` are the bytes of its two 64-bit words. -/
structure VhcallData where
  val : Fin 16 → Byte
  size : Nat
  cl : Int
  inout : Int

/-- What `calloc` leaves. -/
def VhcallData.zero : VhcallData where
  val _ := 0
  size := 0
  cl := 0
  inout := 0

/-- The constants of vhcall.h and the layout of `vhcall_data`.  `valAddr` is where the setters
have their parameter `val`. -/
structure VhcallH where
  classInt : Int
  classDbl : Int
  classPtr : Int
  classCdb : Int
  classHdl : Int
  intentIn : Int
  intentInout : Int
  intentOut : Int
  sizeofData : Nat
  encode : VhcallData → List Byte
  valAddr : BitVec 64
  zero_ne_cdb : 0 ≠ classCdb
  int_ne_cdb : classInt ≠ classCdb
  dbl_ne_cdb : classDbl ≠ classCdb
  ptr_ne_cdb : classPtr ≠ classCdb
  hdl_ne_cdb : classHdl ≠ classCdb
  int_ne_ptr : classInt ≠ classPtr
  dbl_ne_ptr : classDbl ≠ classPtr
  hdl_ne_ptr : classHdl ≠ classPtr
  in_le_out : intentIn ≤ intentOut
  encode_length : ∀ d, (encode d).length = sizeofData

/-- A node of the list; only the head uses `argsNum`. -/
structure VhcallArgs where
  num : Int
  data : VhcallData
  next : Option Nat
  argsNum : Int

def VhcallArgs.zero : VhcallArgs where
  num := 0
  data := .zero
  next := none
  argsNum := 0

/-- Allocation number `k` gives cell `k` when `grants k`; `fresh` allocations were tried. -/
structure Heap where
  node : Nat → VhcallArgs
  fresh : Nat
  grants : Nat → Bool

namespace Heap

/-- `calloc(1, sizeof(vhcall_args))` -/
def calloc (s : Heap) : Option Nat × Heap :=
  if s.grants s.fresh then
    (some s.fresh,
      { s with node := Function.update s.node s.fresh .zero, fresh := s.fresh + 1 })
  else (none, { s with fresh := s.fresh + 1 })

def write (s : Heap) (p : Nat) (x : VhcallArgs) : Heap :=
  { s with node := Function.update s.node p x }

def setNext (s : Heap) (p : Nat) (q : Option Nat) : Heap :=
  s.write p { s.node p with next := q }

def free (s : Heap) (p : Nat) : Heap :=
  s.write p .zero

end Heap

/-- The object, or NULL with ENOMEM. -/
def vhcallArgsAllocNum (s : Heap) (num : Int) : Option Nat × Heap :=
  match s.calloc with
  | (none, s) => (none, s)
  | (some p, s) =>
    (some p, s.write p
      { s.node p with num := -1, argsNum := if num < 0 then -1 else num, next := none })

def vhcallArgsAlloc (s : Heap) : Option Nat × Heap :=
  match s.calloc with
  | (none, s) => (none, s)
  | (some p, s) => (some p, s.write p { s.node p with num := -1, argsNum := -1, next := none })

/-- `p` after the loop of `vhcall_args_append`, and `tmp` once it was set. -/
structure Walk where
  p : Nat
  tmp : Option Nat

/-- `while (p->num < num)`, at most `fuel` times round; no walk when it returns NULL. -/
def appendWalk (num : Int) : Nat → Heap → Nat → Option Nat → Option (Heap × Option Walk)
  | 0, _, _, _ => none
  | fuel + 1, s, p, tmp =>
    if (s.node p).num < num then
      match (s.node p).next with
      | none =>
        match s.calloc with
        | (none, s) => some (s, none)
        | (some new, s) =>
          let s := s.write new { s.node new with num := num, next := none }
          some (s.setNext p (some new), some { p := new, tmp := some new })
      | some q => appendWalk num fuel s q (some p)
    else some (s, some { p := p, tmp := tmp })

/-- The walk meets no node twice, so `fresh` rounds and the last test are enough. -/
def vhcallArgsAppend (s : Heap) (listHead : Nat) (num : Int) : Option (Option Nat × Heap) := do
  match ← appendWalk num (s.fresh + 1) s listHead none with
  | (s, none) => return (none, s)
  | (s, some w) =>
    if (s.node w.p).num > num then
      let p ← w.tmp
      match s.calloc with
      | (none, s) => return (none, s)
      | (some new, s) =>
        let s := s.write new { s.node new with num := num, next := (s.node p).next }
        return (some new, s.setNext p (some new))
    else
      return (some w.p, s)

structure Pointer where
  addr : BitVec 64
  bytes : Nat → Byte

/-- `memcpy(&p->data.val, val, size)` -/
def copyVal (old : Fin 16 → Byte) (bytes : Nat → Byte) (size : Nat) : Fin 16 → Byte :=
  fun k => if k.val < size then bytes k.val else old k

/-- What `vhcall_args_set` makes of the data of a node; the word of a pointer is stored
itself. -/
def setData (H : VhcallH) (old : VhcallData) (inout : Int) (val : Pointer) (size : Nat)
    (cl : Int) : VhcallData where
  val := if cl = H.classPtr then copyVal old.val (bytesOf val.addr) 8
    else copyVal old.val val.bytes size
  size := size
  cl := cl
  inout := inout

/-- What a call returns, `errno` when it sets it, and the heap after it. -/
structure CallReturn where
  ret : Int
  errno : Option Int
  heap : Heap

def vhcallArgsSet (H : VhcallH) (s : Heap) (ca : Option Nat) (inout : Int) (argnum : Int)
    (val : Pointer) (size : Nat) (cl : Int) : Option CallReturn :=
  match ca with
  | none => some { ret := -1, errno := some einval, heap := s }
  | some ca =>
    if argnum < 0 ∨ inout < H.intentIn ∨ inout > H.intentOut then
      some { ret := -1, errno := some einval, heap := s }
    else do
      match ← vhcallArgsAppend s ca argnum with
      | (none, s) => return { ret := -1, errno := some enomem, heap := s }
      | (some p, s) =>
        let data := setData H (s.node p).data inout val size cl
        return { ret := 0, errno := none, heap := s.write p { s.node p with data := data } }

/-! ## The setters -/

section
variable (H : VhcallH) (s : Heap) (ca : Option Nat) (argnum : BitVec 32)

/-- A setter that passes its parameter `val` of `w` bits. -/
def vhcallArgsSetVal {w : Nat} (val : BitVec w) (cl : Int) : Option CallReturn :=
  vhcallArgsSet H s ca H.intentIn argnum.toInt ⟨H.valAddr, bytesOf val⟩ (w / 8) cl

def vhcallArgsSetI8 (val : BitVec 8) := vhcallArgsSetVal H s ca argnum val H.classInt

def vhcallArgsSetU8 (val : BitVec 8) := vhcallArgsSetVal H s ca argnum val H.classInt

def vhcallArgsSetI16 (val : BitVec 16) := vhcallArgsSetVal H s ca argnum val H.classInt

def vhcallArgsSetU16 (val : BitVec 16) := vhcallArgsSetVal H s ca argnum val H.classInt

def vhcallArgsSetI32 (val : BitVec 32) := vhcallArgsSetVal H s ca argnum val H.classInt

def vhcallArgsSetU32 (val : BitVec 32) := vhcallArgsSetVal H s ca argnum val H.classInt

def vhcallArgsSetI64 (val : BitVec 64) := vhcallArgsSetVal H s ca argnum val H.classInt

def vhcallArgsSetU64 (val : BitVec 64) := vhcallArgsSetVal H s ca argnum val H.classInt

def vhcallArgsSetFloat (val : BitVec 32) := vhcallArgsSetVal H s ca argnum val H.classDbl

def vhcallArgsSetDouble (val : BitVec 64) := vhcallArgsSetVal H s ca argnum val H.classDbl

def vhcallArgsSetComplexFloat (val : BitVec 64) := vhcallArgsSetVal H s ca argnum val H.classDbl

/-- The real part is in the low 64 bits. -/
def vhcallArgsSetComplexDouble (val : BitVec 128) :=
  vhcallArgsSetVal H s ca argnum val H.classCdb

def vhcallArgsSetPointer (inout : Int) (buff : Pointer) (len : Nat) :=
  vhcallArgsSet H s ca inout argnum.toInt buff len H.classPtr

def vhcallArgsSetVeoshandle :=
  vhcallArgsSet H s ca H.intentIn argnum.toInt ⟨0, fun _ => 0⟩ 0 H.classHdl

end

inductive SetCall where
  | i8 (argnum : BitVec 32) (val : BitVec 8)
  | u8 (argnum : BitVec 32) (val : BitVec 8)
  | i16 (argnum : BitVec 32) (val : BitVec 16)
  | u16 (argnum : BitVec 32) (val : BitVec 16)
  | i32 (argnum : BitVec 32) (val : BitVec 32)
  | u32 (argnum : BitVec 32) (val : BitVec 32)
  | i64 (argnum : BitVec 32) (val : BitVec 64)
  | u64 (argnum : BitVec 32) (val : BitVec 64)
  | float (argnum : BitVec 32) (val : BitVec 32)
  | double (argnum : BitVec 32) (val : BitVec 64)
  | complexFloat (argnum : BitVec 32) (val : BitVec 64)
  | complexDouble (argnum : BitVec 32) (val : BitVec 128)
  | pointer (inout : Int) (argnum : BitVec 32) (buff : Pointer) (len : Nat)
  | veoshandle (argnum : BitVec 32)

def SetCall.run (H : VhcallH) (s : Heap) (ca : Option Nat) : SetCall → Option CallReturn
  | .i8 argnum val => vhcallArgsSetI8 H s ca argnum val
  | .u8 argnum val => vhcallArgsSetU8 H s ca argnum val
  | .i16 argnum val => vhcallArgsSetI16 H s ca argnum val
  | .u16 argnum val => vhcallArgsSetU16 H s ca argnum val
  | .i32 argnum val => vhcallArgsSetI32 H s ca argnum val
  | .u32 argnum val => vhcallArgsSetU32 H s ca argnum val
  | .i64 argnum val => vhcallArgsSetI64 H s ca argnum val
  | .u64 argnum val => vhcallArgsSetU64 H s ca argnum val
  | .float argnum val => vhcallArgsSetFloat H s ca argnum val
  | .double argnum val => vhcallArgsSetDouble H s ca argnum val
  | .complexFloat argnum val => vhcallArgsSetComplexFloat H s ca argnum val
  | .complexDouble argnum val => vhcallArgsSetComplexDouble H s ca argnum val
  | .pointer inout argnum buff len => vhcallArgsSetPointer H s ca argnum inout buff len
  | .veoshandle argnum => vhcallArgsSetVeoshandle H s ca argnum

/-- `while (p != NULL)` of `vhcall_args_clear` -/
def clearLoop : Nat → Heap → Option Nat → Option Heap
  | _, s, none => some s
  | 0, _, some _ => none
  | fuel + 1, s, some p => clearLoop fuel (s.free p) (s.node p).next

def vhcallArgsClear (s : Heap) (ca : Option Nat) : Option Heap :=
  match ca with
  | none => some s
  | some ca => do
    let s ← clearLoop s.fresh s (s.node ca).next
    return s.setNext ca none

end Libsysve.Vhcall
