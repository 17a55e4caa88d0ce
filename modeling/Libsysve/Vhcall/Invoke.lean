import Libsysve.Vhcall.Args

/-!
# vhcall_invoke_with_args

The first loop validates the list and fills gaps while it adds up the size of the buffer;
the second one writes the records through `inptr`, which is then moved back by that size.
-/

set_option autoImplicit false

namespace Libsysve.Vhcall

def int32 (x : Int) : Int := x.bmod (2 ^ 32)

/-- How the tests of the validation loop on a node end: `errno` of the refusal. -/
inductive Validated where
  | goesOn
  | refused (errno : Option Int)

def validateNode (H : VhcallH) (s : Heap) (args : Nat) (argsNum : Int) (p : Nat) :
    Option (Validated × Heap) :=
  let follow := int32 ((s.node p).num + 1)
  let insert := do
    let set ← vhcallArgsSetU64 H s (some args) (BitVec.ofInt 32 follow) 0
    return (if set.ret ≠ 0 then .refused set.errno else .goesOn, set.heap)
  if argsNum ≠ -1 then
    if follow > argsNum then some (.refused (some einval), s)
    else
      match (s.node p).next with
      | some q => if follow ≠ (s.node q).num then insert else some (.goesOn, s)
      | none => if follow < argsNum then insert else some (.goesOn, s)
  else
    match (s.node p).next with
    | some q =>
      if follow ≠ (s.node q).num then some (.refused (some einval), s) else some (.goesOn, s)
    | none => some (.goesOn, s)

def nodeSize (H : VhcallH) (x : VhcallArgs) : Nat :=
  if x.data.cl = H.classCdb then 2 * H.sizeofData
  else if int32 (x.num + 1) ≠ 0 then H.sizeofData
  else 0

/-- `while (p != NULL)`: the list, and `insize` or the `errno` of a refused call. -/
def validateLoop (H : VhcallH) (args : Nat) (argsNum : Int) :
    Nat → Heap → Option Nat → Nat → Option (Heap × Except (Option Int) Nat)
  | _, s, none, insize => some (s, .ok insize)
  | 0, _, some _, _ => none
  | fuel + 1, s, some p, insize =>
    match validateNode H s args argsNum p with
    | none => none
    | some (.refused errno, s') => some (s', .error errno)
    | some (.goesOn, s') =>
      validateLoop H args argsNum fuel s' (s'.node p).next (insize + nodeSize H (s'.node p))

/-- The buffer, `inptr` as an offset in it, and the local `data`. -/
structure Filling where
  buffer : List Byte
  inptr : Nat
  data : VhcallData

/-- `memcpy(inptr, &d, sizeof(vhcall_data))` and the step of `inptr`; a write beyond the
buffer is undefined. -/
def Filling.put (f : Filling) (H : VhcallH) (d : VhcallData) : Option Filling :=
  if f.inptr + H.sizeofData ≤ f.buffer.length then
    some { f with
      buffer := f.buffer.take f.inptr ++ H.encode d ++ f.buffer.drop (f.inptr + H.sizeofData)
      inptr := f.inptr + H.sizeofData }
  else none

def wordBytes (val : Fin 16 → Byte) (i : Fin 2) (k : Nat) : Byte :=
  if h : 8 * i.val + k < 16 then val ⟨8 * i.val + k, h⟩ else 0

def partData (H : VhcallH) (data d : VhcallData) (i : Fin 2) : VhcallData where
  val := copyVal data.val (wordBytes d.val i) 8
  size := 8
  cl := H.classDbl
  inout := H.intentIn

def realPart : Fin 2 := ⟨0, Nat.zero_lt_two⟩

def imagPart : Fin 2 := ⟨1, Nat.one_lt_two⟩

def Filling.node (f : Filling) (H : VhcallH) (d : VhcallData) : Option Filling :=
  if d.cl = H.classCdb then do
    let f ← { f with data := partData H f.data d realPart }.put H (partData H f.data d realPart)
    { f with data := partData H f.data d imagPart }.put H (partData H f.data d imagPart)
  else f.put H d

/-- `for (p = args->next; p != NULL; p = p->next)` -/
def fillLoop (H : VhcallH) (s : Heap) : Nat → Option Nat → Filling → Option Filling
  | _, none, f => some f
  | 0, some _, _ => none
  | fuel + 1, some p, f => do
    let f ← f.node H (s.node p).data
    fillLoop H s fuel (s.node p).next f

/-- VE_SYSVE_VHCALL_INVOKE_WITH_ARGS; `inptr` is relative to the start of the buffer. -/
structure InvokeCall where
  symid : Int
  inptr : Int
  insize : Nat
  buffer : List Byte
  retval : Nat

structure InvokeResult where
  ret : Int
  errno : Option Int
  issued : Option InvokeCall
  heap : Heap

/-- `sys` gives the result of the system call, `uninit` what is in the local `data` at first.
The buffer is no node, but its allocation counts. -/
def vhcallInvokeWithArgs (H : VhcallH) (sys : InvokeCall → Int) (uninit : VhcallData) (s : Heap)
    (symid : Int) (args : Option Nat) (retval : Nat) : Option InvokeResult :=
  match args with
  | none => some { ret := -1, errno := some einval, issued := none, heap := s }
  | some args => do
    let argsNum := (s.node args).argsNum
    match ← validateLoop H args argsNum (s.fresh + argsNum.toNat + 2) s (some args) 0 with
    | (s, .error errno) => return { ret := -1, errno := errno, issued := none, heap := s }
    | (s, .ok insize) =>
      if 0 < insize ∧ s.grants s.fresh = false then
        return { ret := -1, errno := some enomem, issued := none,
                 heap := { s with fresh := s.fresh + 1 } }
      else
        let f ← fillLoop H s s.fresh (s.node args).next
          { buffer := List.replicate insize 0, inptr := 0, data := uninit }
        let call := { symid := symid, inptr := f.inptr - insize, insize := insize,
                      buffer := f.buffer, retval := retval }
        return { ret := sys call, errno := none, issued := some call,
                 heap := if 0 < insize then { s with fresh := s.fresh + 1 } else s }

end Libsysve.Vhcall
