import Libsysve.Vhcall.ArgMap

/-!
# Sequences of setters and vhcall_args_clear

After any calls, whether they succeed or not, the nodes behind the head are those of the last
successful setter of each argument number since the last clear.
-/

set_option autoImplicit false

namespace Libsysve.Vhcall

inductive ArgsOp where
  | set (c : SetCall)
  | clear

/-- `vhcall_args_clear` returns nothing. -/
def ArgsOp.run (H : VhcallH) (s : Heap) (ca : Option Nat) : ArgsOp → Option CallReturn
  | .set c => c.run H s ca
  | .clear => do
    let s ← vhcallArgsClear s ca
    return { ret := 0, errno := none, heap := s }

def runOps (H : VhcallH) (ca : Option Nat) :
    Heap → List ArgsOp → Option (List (ArgsOp × Int) × Heap)
  | s, [] => some ([], s)
  | s, op :: rest => do
    let r ← op.run H s ca
    let (trace, s') ← runOps H ca r.heap rest
    return ((op, r.ret) :: trace, s')

/-- `vhcall_args_alloc` or `vhcall_args_alloc_num` has made the object. -/
inductive Created (s₀ : Heap) (args : Nat) : Int → Heap → Prop
  | alloc {s : Heap} (allocated : vhcallArgsAlloc s₀ = (some args, s)) : Created s₀ args (-1) s
  | allocNum {s : Heap} (num : BitVec 32)
      (allocated : vhcallArgsAllocNum s₀ num.toInt = (some args, s)) :
      Created s₀ args (if num.toInt < 0 then -1 else num.toInt) s

/-! ## What the calls have set -/

/-- The last successful setter of each argument number since the last clear. -/
def lastStep (last : Int → Option SetCall) : ArgsOp × Int → Int → Option SetCall
  | (.set c, ret) => if ret = 0 then Function.update last c.argnum.toInt (some c) else last
  | (.clear, _) => fun _ => none

def lastSet (trace : List (ArgsOp × Int)) : Int → Option SetCall :=
  trace.foldl lastStep fun _ => none

def ArgMap.step (H : VhcallH) (M : ArgMap) : ArgsOp × Int → ArgMap
  | (.set c, ret) => if ret = 0 then M.set H c else M
  | (.clear, _) => .empty

section
variable (H : VhcallH)

/-- How many bytes of the value words a setter writes. -/
def SetCall.count : SetCall → Nat
  | .pointer .. => 8
  | c => c.size

/-- These bytes; a pointer is a value itself. -/
def SetCall.value : SetCall → Nat → Byte
  | .pointer _ _ buff _ => bytesOf buff.addr
  | c => (c.val H).bytes

structure Stored (c : SetCall) (d : VhcallData) : Prop where
  cl : d.cl = c.cl H
  inout : d.inout = c.inout H
  size : d.size = c.size
  value : ∀ k, k < c.count → ∃ fits : k < 16, d.val ⟨k, fits⟩ = c.value H k

theorem SetCall.count_le (c : SetCall) : c.count ≤ 16 := by
  cases c <;> simp [SetCall.count, SetCall.size]

theorem SetCall.store_val (c : SetCall) (old : VhcallData) :
    (c.store H old).val = copyVal old.val (c.value H) c.count := by
  have int := H.int_ne_ptr
  have dbl := H.dbl_ne_ptr
  have cdb : H.classCdb ≠ H.classPtr := Ne.symm H.ptr_ne_cdb
  have hdl := H.hdl_ne_ptr
  cases c with
  | pointer inout argnum buff len => exact if_pos rfl
  | float argnum val => exact if_neg dbl
  | double argnum val => exact if_neg dbl
  | complexFloat argnum val => exact if_neg dbl
  | complexDouble argnum val => exact if_neg cdb
  | veoshandle argnum => exact if_neg hdl
  | _ => exact if_neg int

theorem SetCall.store_congr (c : SetCall) {old old' : VhcallData} (same : old.val = old'.val) :
    c.store H old = c.store H old' := by
  have val : (c.store H old).val = (c.store H old').val := by rw [c.store_val, c.store_val, same]
  exact congrArg (fun val => (⟨val, c.size, c.cl H, c.inout H⟩ : VhcallData)) val

theorem SetCall.store_stored (c : SetCall) (old : VhcallData) : Stored H c (c.store H old) where
  cl := rfl
  inout := rfl
  size := rfl
  value k inside := by
    refine ⟨lt_of_lt_of_le inside c.count_le, ?_⟩
    rw [c.store_val H old]
    exact if_pos inside

structure Matches (last : Int → Option SetCall) (M : ArgMap) : Prop where
  stored : ∀ i : Nat, Option.Rel (Stored H) (last i) (M i)
  index : ∀ i, last i ≠ none → 0 ≤ i

end

variable {H : VhcallH} {s : Heap} {args : Nat} {argsNum : Int} {M : ArgMap}
  {last : Int → Option SetCall}

theorem Matches.empty : Matches H (fun _ => none) .empty :=
  ⟨fun _ => .none, fun _ some => absurd rfl some⟩

theorem Matches.set (fits : Matches H last M) (c : SetCall) (accepted : c.accepted H) :
    Matches H (Function.update last c.argnum.toInt (some c)) (M.set H c) := by
  have index : 0 ≤ c.argnum.toInt := accepted.1
  constructor
  · intro i
    by_cases here : i = c.argnum.toInt.toNat
    · have number : (i : Int) = c.argnum.toInt := by rw [here, Int.toNat_of_nonneg index]
      rw [number, Function.update_self, ArgMap.set, here, Function.update_self]
      exact .some (c.store_stored H _)
    · have other : (i : Int) ≠ c.argnum.toInt := by omega
      rw [Function.update_of_ne other, ArgMap.set, Function.update_of_ne here]
      exact fits.stored i
  · intro i some
    by_cases here : i = c.argnum.toInt
    · exact here ▸ index
    · rw [Function.update_of_ne here] at some
      exact fits.index i some

/-- Only a lack of memory makes the call fail. -/
def ArgsOp.valid (H : VhcallH) : ArgsOp → Prop
  | .set c => c.accepted H
  | .clear => True

structure OpOutcome (H : VhcallH) (s : Heap) (args : Nat) (argsNum : Int) (M : ArgMap)
    (op : ArgsOp) (r : CallReturn) : Prop where
  grants : r.heap.grants = s.grants
  rep : Represents r.heap args argsNum (M.step H (op, r.ret))
  fails : r.ret = -1 → r.heap.node = s.node ∧ (r.errno = some einval ∨ r.errno = some enomem)
  fits : ∀ last, Matches H last M → Matches H (lastStep last (op, r.ret)) (M.step H (op, r.ret))
  answer : r.ret = 0 ∨ r.ret = -1
  valid : s.grants s.fresh = true → (r.ret = 0 ↔ op.valid H)

theorem Represents.op (rep : Represents s args argsNum M) (op : ArgsOp) :
    ∃ r, op.run H s (some args) = some r ∧ OpOutcome H s args argsNum M op r := by
  cases op with
  | set c =>
    obtain ⟨r, ran, grants, outcome⟩ := rep.set c
    refine ⟨r, ran, ?_⟩
    cases outcome with
    | stored accepted ret errno rep' =>
      refine ⟨grants, ?_, fun fails => ?_, fun last fits => ?_, .inl ret,
        fun _ => ⟨fun _ => accepted, fun _ => ret⟩⟩
      · simpa only [ArgMap.step, ret, if_true] using rep'
      · exact absurd (ret.symm.trans fails) (by decide)
      · simp only [ArgMap.step, lastStep, ret, if_true]
        exact fits.set c accepted
    | rejected rejected ret errno same =>
      have failed : r.ret ≠ 0 := by simp [ret]
      refine ⟨grants, ?_, fun _ => ⟨by rw [same], .inl errno⟩, fun last fits => ?_, .inr ret,
        fun _ => ⟨fun stored => absurd stored failed, fun valid => absurd valid rejected⟩⟩
      · simpa only [ArgMap.step, if_neg failed, same] using rep
      · simpa only [ArgMap.step, lastStep, if_neg failed] using fits
    | noMemory accepted ret errno refused same =>
      have failed : r.ret ≠ 0 := by simp [ret]
      obtain ⟨nodes, object, map⟩ := rep
      refine ⟨grants, ?_, fun _ => ⟨by rw [same]; rfl, .inr errno⟩, fun last fits => ?_, .inr ret,
        fun granted => absurd (granted.symm.trans refused) (by simp)⟩
      · simp only [ArgMap.step, if_neg failed, same]
        exact ⟨nodes, object.tried, map⟩
      · simpa only [ArgMap.step, lastStep, if_neg failed] using fits
  | clear =>
    obtain ⟨s', cleared, grants, rep'⟩ := rep.clear
    refine ⟨{ ret := 0, errno := none, heap := s' }, ?_, grants, rep', ?_, fun _ _ => .empty,
      .inl rfl, fun _ => ⟨fun _ => trivial, fun _ => rfl⟩⟩
    · simp only [ArgsOp.run, cleared, Option.bind_eq_bind, Option.bind_some]
      rfl
    · exact fun fails => absurd fails (by simp)

theorem Represents.ops (rep : Represents s args argsNum M) (fits : Matches H last M)
    (ops : List ArgsOp) :
    ∃ trace s', runOps H (some args) s ops = some (trace, s') ∧ trace.map Prod.fst = ops ∧
      s'.grants = s.grants ∧ Represents s' args argsNum (trace.foldl (ArgMap.step H) M) ∧
      Matches H (trace.foldl lastStep last) (trace.foldl (ArgMap.step H) M) := by
  induction ops generalizing s M last with
  | nil => exact ⟨[], s, rfl, rfl, rfl, rep, fits⟩
  | cons op rest ih =>
    obtain ⟨r, ran, outcome⟩ := rep.op op
    obtain ⟨trace, s', done, same, grants, rep', fits'⟩ := ih outcome.rep (outcome.fits last fits)
    refine ⟨(op, r.ret) :: trace, s', ?_, ?_, grants.trans outcome.grants, rep', fits'⟩
    · simp only [runOps, ran, done, Option.bind_eq_bind, Option.bind_some]
      rfl
    · rw [List.map_cons, same]

theorem Created.represents {s₀ : Heap} (created : Created s₀ args argsNum s) :
    Represents s args argsNum .empty ∧ s.grants = s₀.grants := by
  cases created with
  | alloc allocated => exact vhcallArgsAlloc_represents allocated
  | allocNum num allocated => exact vhcallArgsAllocNum_represents allocated

/-! ## The chain -/

/-- The chain from the head, with increasing numbers, has the last successful setters and
nothing else; `fits` says when data are those of a setter. -/
def FaithfulMap (fits : SetCall → VhcallData → Prop) (s : Heap) (args : Nat) (argsNum : Int)
    (last : Int → Option SetCall) : Prop :=
  ∃ rest, Object s args argsNum (args :: rest) ∧
    (∀ i, last i ≠ none → ∃ a ∈ rest, (s.node a).num = i) ∧
    ∀ a ∈ rest, ∃ c, last (s.node a).num = some c ∧ fits c (s.node a).data

theorem Represents.faithful (rep : Represents s args argsNum M) (fits : Matches H last M) :
    FaithfulMap (Stored H) s args argsNum last := by
  obtain ⟨nodes, object, map⟩ := rep
  obtain ⟨rest, rfl⟩ := object.headed
  refine ⟨rest, object, fun i some => ?_, fun a member => ?_⟩
  · obtain ⟨i, rfl⟩ := Int.eq_ofNat_of_zero_le (fits.index i some)
    have stored := fits.stored i
    cases found : M i with
    | none =>
      rw [found] at stored
      cases here : last i with
      | none => exact absurd here some
      | some c =>
        rw [here] at stored
        nomatch stored
    | some d =>
      obtain ⟨l₁, l₂, split, _⟩ := List.lookup_eq_some_iff.mp ((map i).trans found)
      have entry : ((i : Int), d) ∈ entries s (args :: rest) := by simp [split]
      obtain ⟨a, member, same⟩ := List.mem_map.mp entry
      have number : (s.node a).num = i := congrArg Prod.fst same
      rcases List.mem_cons.mp member with rfl | later
      · rw [object.headNum] at number
        omega
      · exact ⟨a, later, number⟩
  · have above := (List.pairwise_cons.mp object.nums).1 a member
    rw [object.headNum] at above
    obtain ⟨i, number⟩ := Int.eq_ofNat_of_zero_le (by omega : 0 ≤ (s.node a).num)
    obtain ⟨pre, post, split⟩ := List.append_of_mem (List.mem_cons_of_mem args member)
    have here : M i = some (s.node a).data := by
      rw [← map i]
      rw [split] at object ⊢
      exact number ▸ object.lookup_node
    have stored := fits.stored i
    rw [here] at stored
    rw [number]
    cases set : last i with
    | none =>
      rw [set] at stored
      nomatch stored
    | some c =>
      rw [set] at stored
      cases stored with
      | some holds => exact ⟨c, rfl, holds⟩

/-- For any calls and any allocations that fail: the calls end, the chain is the map they have
set, and a further call that returns -1 leaves it as it is. -/
theorem args_faithful_map (H : VhcallH) (s₀ s : Heap) (args : Nat) (argsNum : Int)
    (created : Created s₀ args argsNum s) (ops : List ArgsOp) :
    ∃ trace s', runOps H (some args) s ops = some (trace, s') ∧ trace.map Prod.fst = ops ∧
      FaithfulMap (Stored H) s' args argsNum (lastSet trace) ∧
      ∀ op : ArgsOp, ∃ r, op.run H s' (some args) = some r ∧
        (r.ret = -1 → r.heap.node = s'.node ∧
          (r.errno = some einval ∨ r.errno = some enomem)) := by
  obtain ⟨trace, s', done, same, _, rep, fits⟩ :=
    created.represents.1.ops Matches.empty ops
  refine ⟨trace, s', done, same, rep.faithful fits, fun op => ?_⟩
  obtain ⟨r, ran, outcome⟩ := rep.op op
  exact ⟨r, ran, outcome.fails⟩

/-! ## A header -/

def sampleEncode (d : VhcallData) : List Byte :=
  List.ofFn d.val ++ (List.range 8).map (bytesOf (BitVec.ofNat 64 d.size)) ++
    (List.range 4).map (bytesOf (BitVec.ofInt 32 d.cl)) ++
    (List.range 4).map (bytesOf (BitVec.ofInt 32 d.inout))

def sampleH : VhcallH where
  classInt := 0
  classDbl := 1
  classPtr := 2
  classCdb := 3
  classHdl := 4
  intentIn := 0
  intentInout := 1
  intentOut := 2
  sizeofData := 32
  encode := sampleEncode
  valAddr := 0x7fff0000
  zero_ne_cdb := by decide
  int_ne_cdb := by decide
  dbl_ne_cdb := by decide
  ptr_ne_cdb := by decide
  hdl_ne_cdb := by decide
  int_ne_ptr := by decide
  dbl_ne_ptr := by decide
  hdl_ne_ptr := by decide
  in_le_out := by decide
  encode_length d := by simp [sampleEncode]

def sampleHeap : Heap where
  node _ := .zero
  fresh := 0
  grants _ := true

/-- A second set of an argument, one with a wrong number and one behind a gap. -/
def sampleOps : List ArgsOp :=
  [.set (.i64 1 7), .set (.u8 0 255), .set (.i8 1 3), .set (.i8 (-1) 3), .set (.i8 4 3)]

theorem args_faithful_map_sample :
    ∃ s₀ s args, Created s₀ args 5 s ∧
      ∃ trace s', runOps sampleH (some args) s sampleOps = some (trace, s') ∧
        trace.map Prod.fst = sampleOps ∧ FaithfulMap (Stored sampleH) s' args 5 (lastSet trace) ∧
        ∀ op : ArgsOp, ∃ r, op.run sampleH s' (some args) = some r ∧
          (r.ret = -1 → r.heap.node = s'.node ∧
            (r.errno = some einval ∨ r.errno = some enomem)) :=
  ⟨sampleHeap, (vhcallArgsAllocNum sampleHeap 5).2, 0, .allocNum 5 rfl,
    args_faithful_map sampleH sampleHeap _ 0 5 (.allocNum 5 rfl) sampleOps⟩

/-- The data have the first `size` bytes behind the parameter `val`. -/
structure SizeBytes (H : VhcallH) (c : SetCall) (d : VhcallData) : Prop where
  cl : d.cl = c.cl H
  inout : d.inout = c.inout H
  size : d.size = c.size
  value : ∀ k, k < c.size → ∃ fits : k < 16, d.val ⟨k, fits⟩ = (c.val H).bytes k

def samplePointer : SetCall := .pointer 0 0 ⟨0x1000, fun k => BitVec.ofNat 8 k⟩ 20

def pointerOps : List ArgsOp := [.set samplePointer]

/-- The node has no room for them: it has the pointer. -/
theorem args_pointer_bytes :
    ¬ ∀ s₀ s args argsNum, Created s₀ args argsNum s → ∀ ops trace s',
      runOps sampleH (some args) s ops = some (trace, s') →
        FaithfulMap (SizeBytes sampleH) s' args argsNum (lastSet trace) := by
  intro always
  have checked : (runOps sampleH (some 0) (vhcallArgsAlloc sampleHeap).2 pointerOps).any
      (fun done => decide ((lastSet done.1 0).map SetCall.size = some 20)) = true := by
    decide +kernel
  rw [Option.any_eq_true] at checked
  obtain ⟨⟨trace, s'⟩, ran, holds⟩ := checked
  obtain ⟨c, here, size⟩ := Option.map_eq_some_iff.mp (of_decide_eq_true holds)
  obtain ⟨rest, _, found, literal⟩ :=
    always sampleHeap _ 0 (-1) (.alloc rfl) pointerOps trace s' ran
  obtain ⟨a, member, number⟩ := found 0 (by simp [here])
  obtain ⟨c', last, bytes⟩ := literal a member
  rw [number] at last
  obtain rfl := Option.some.inj (here.symm.trans last)
  obtain ⟨fits, _⟩ := bytes.value 16 (by omega)
  exact Nat.lt_irrefl 16 fits

end Libsysve.Vhcall
