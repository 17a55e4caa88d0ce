import Libsysve.Vhcall.ArgsList

/-!
# Argument objects as finite maps

What an object is for: it maps argument numbers to data.  A setter changes the map at one
number, or nothing when it fails; `vhcall_args_clear` makes it empty.
-/

set_option autoImplicit false

namespace Libsysve.Vhcall

open Libsysve.LinkedList

/-! ## The arguments of a setter -/

section
variable (H : VhcallH)

def SetCall.argnum : SetCall → BitVec 32
  | .i8 argnum _ | .u8 argnum _ | .i16 argnum _ | .u16 argnum _ | .i32 argnum _ | .u32 argnum _
  | .i64 argnum _ | .u64 argnum _ | .float argnum _ | .double argnum _ | .complexFloat argnum _
  | .complexDouble argnum _ | .pointer _ argnum _ _ | .veoshandle argnum => argnum

def SetCall.inout : SetCall → Int
  | .pointer inout _ _ _ => inout
  | _ => H.intentIn

/-- The parameter `val` of `vhcall_args_set`. -/
def SetCall.val : SetCall → Pointer
  | .i8 _ val | .u8 _ val => ⟨H.valAddr, bytesOf val⟩
  | .i16 _ val | .u16 _ val => ⟨H.valAddr, bytesOf val⟩
  | .i32 _ val | .u32 _ val | .float _ val => ⟨H.valAddr, bytesOf val⟩
  | .i64 _ val | .u64 _ val | .double _ val | .complexFloat _ val => ⟨H.valAddr, bytesOf val⟩
  | .complexDouble _ val => ⟨H.valAddr, bytesOf val⟩
  | .pointer _ _ buff _ => buff
  | .veoshandle _ => ⟨0, fun _ => 0⟩

def SetCall.size : SetCall → Nat
  | .i8 .. | .u8 .. => 1
  | .i16 .. | .u16 .. => 2
  | .i32 .. | .u32 .. | .float .. => 4
  | .i64 .. | .u64 .. | .double .. | .complexFloat .. => 8
  | .complexDouble .. => 16
  | .pointer _ _ _ len => len
  | .veoshandle _ => 0

def SetCall.cl : SetCall → Int
  | .float .. | .double .. | .complexFloat .. => H.classDbl
  | .complexDouble .. => H.classCdb
  | .pointer .. => H.classPtr
  | .veoshandle _ => H.classHdl
  | _ => H.classInt

/-- What the setter makes of the data of its node. -/
def SetCall.store (c : SetCall) (old : VhcallData) : VhcallData :=
  setData H old (c.inout H) (c.val H) c.size (c.cl H)

theorem SetCall.run_eq (c : SetCall) (s : Heap) (ca : Option Nat) :
    c.run H s ca =
      vhcallArgsSet H s ca (c.inout H) c.argnum.toInt (c.val H) c.size (c.cl H) := by
  cases c <;> rfl

/-- The call is one that only a lack of memory can make fail. -/
def SetCall.accepted (c : SetCall) : Prop := Accepted H (c.inout H) c.argnum.toInt

end

/-! ## Objects and maps -/

abbrev ArgMap := Nat → Option VhcallData

def ArgMap.empty : ArgMap := fun _ => none

def ArgMap.set (H : VhcallH) (M : ArgMap) (c : SetCall) : ArgMap :=
  Function.update M c.argnum.toInt.toNat
    (some (c.store H ((M c.argnum.toInt.toNat).getD .zero)))

/-- The object at `args` is the map `M`. -/
def Represents (s : Heap) (args : Nat) (argsNum : Int) (M : ArgMap) : Prop :=
  ∃ nodes, Object s args argsNum nodes ∧ ∀ i : Nat, (entries s nodes).lookup (i : Int) = M i

variable {H : VhcallH} {s : Heap} {args : Nat} {argsNum : Int} {M : ArgMap} {nodes : List Nat}

theorem Object.headed (object : Object s args argsNum nodes) : ∃ rest, nodes = args :: rest := by
  have first := object.first
  cases nodes with
  | nil => exact absurd first (by simp)
  | cons a rest => exact ⟨rest, by rw [Option.some.inj first]⟩

theorem Object.nums (object : Object s args argsNum nodes) :
    nodes.Pairwise fun x y => (s.node x).num < (s.node y).num := by
  have sorted := object.sorted
  rw [entries, List.pairwise_map] at sorted
  exact sorted

theorem Object.split (object : Object s args argsNum nodes) {num : Int} (index : 0 ≤ num) :
    ∃ pre a post, nodes = pre ++ a :: post ∧ (∀ x ∈ pre ++ [a], (s.node x).num < num) ∧
      ∀ x ∈ post, num ≤ (s.node x).num := by
  obtain ⟨pre, post, split, low, high⟩ := SortedEntries.exists_split object.nums num
  rcases List.eq_nil_or_concat pre with rfl | ⟨front, a, rfl⟩
  · -- the head itself is below every argument number
    have first := object.first
    rw [split, List.nil_append] at first
    have above := high args (List.mem_of_mem_head? first)
    rw [object.headNum] at above
    omega
  · rw [List.concat_eq_append] at low split
    exact ⟨front, a, post, by simp [split], low, high⟩

theorem Object.lookup_insertData {pre post : List Nat} {a : Nat} {num : Int} {d : VhcallData}
    (object : Object s args argsNum (pre ++ a :: post))
    (less : ∀ x ∈ pre ++ [a], (s.node x).num < num) (i : Int) :
    (entries (s.insertData a num d) (pre ++ a :: s.fresh :: post)).lookup i =
      if i = num then some d else (entries s (pre ++ a :: post)).lookup i := by
  have other : ∀ x ∈ entries s (pre ++ [a]), x.1 ≠ num :=
    List.forall_mem_map.mpr (fun x member => ne_of_lt (less x member))
  rw [entries_insertData object.chain.fresh_notMem, SortedEntries.lookup_middle other,
    ← entries_append]
  simp

theorem Object.lookup_setNodeData {pre post : List Nat} {a : Nat} {d : VhcallData}
    (object : Object s args argsNum (pre ++ a :: post)) (i : Int) :
    (entries (s.setNodeData a d) (pre ++ a :: post)).lookup i =
      if i = (s.node a).num then some d else (entries s (pre ++ a :: post)).lookup i := by
  obtain ⟨notPre, notPost⟩ := object.chain.ne_of_split
  have split : entries s (pre ++ a :: post) =
      entries s pre ++ ((s.node a).num, (s.node a).data) :: entries s post := entries_append
  have sorted := SortedEntries.sorted_middle.mp (split ▸ object.sorted)
  have other : ∀ x ∈ entries s pre, x.1 ≠ (s.node a).num :=
    fun x member => ne_of_lt (sorted.2.1 x member)
  rw [entries_setNodeData notPre notPost, split, SortedEntries.lookup_middle other,
    SortedEntries.lookup_middle other]
  by_cases here : i = (s.node a).num
  · simp [here]
  · simp [here]

theorem Object.lookup_node {pre post : List Nat} {a : Nat}
    (object : Object s args argsNum (pre ++ a :: post)) :
    (entries s (pre ++ a :: post)).lookup (s.node a).num = some (s.node a).data := by
  have split : entries s (pre ++ a :: post) =
      entries s pre ++ ((s.node a).num, (s.node a).data) :: entries s post := entries_append
  have sorted := SortedEntries.sorted_middle.mp (split ▸ object.sorted)
  rw [split, SortedEntries.lookup_middle (fun x member => ne_of_lt (sorted.2.1 x member)),
    if_pos rfl]

theorem Object.lookup_absent {pre post : List Nat} {num : Int}
    (split : nodes = pre ++ post) (less : ∀ x ∈ pre, (s.node x).num < num)
    (greater : ∀ x ∈ post, num < (s.node x).num) : (entries s nodes).lookup num = none := by
  refine SortedEntries.lookup_none (List.forall_mem_map.mpr (fun x member => ?_))
  rw [split, List.mem_append] at member
  rcases member with before | after
  · exact ne_of_lt (less x before)
  · exact ne_of_gt (greater x after)

theorem lookup_set {s' : Heap} {nodes' : List Nat} {num : Int} {d : VhcallData}
    (index : 0 ≤ num) (map : ∀ i : Nat, (entries s nodes).lookup (i : Int) = M i)
    (changed : ∀ i : Int, (entries s' nodes').lookup i =
      if i = num then some d else (entries s nodes).lookup i) (i : Nat) :
    (entries s' nodes').lookup (i : Int) = Function.update M num.toNat (some d) i := by
  rw [changed]
  by_cases here : i = num.toNat
  · rw [here, Function.update_self, if_pos (by omega)]
  · rw [Function.update_of_ne here, if_neg (by omega), map]

theorem Object.tried (object : Object s args argsNum nodes) :
    Object s.tried args argsNum nodes :=
  ⟨object.chain.mono (Nat.le_succ _), object.first, object.headNum, object.headClass,
    object.headArgs, object.sorted, object.bound⟩

theorem Represents.tried (rep : Represents s args argsNum M) :
    Represents s.tried args argsNum M := by
  obtain ⟨nodes, object, map⟩ := rep
  exact ⟨nodes, object.tried, map⟩

/-- How a setter ends: the map changes at its number, or nothing does. -/
inductive SetOutcome (H : VhcallH) (s : Heap) (args : Nat) (argsNum : Int) (M : ArgMap)
    (c : SetCall) (r : CallReturn) : Prop
  | stored (accepted : c.accepted H) (ret : r.ret = 0) (errno : r.errno = none)
      (rep : Represents r.heap args argsNum (M.set H c))
  | rejected (rejected : ¬c.accepted H) (ret : r.ret = -1) (errno : r.errno = some einval)
      (same : r.heap = s)
  | noMemory (accepted : c.accepted H) (ret : r.ret = -1) (errno : r.errno = some enomem)
      (refused : s.grants s.fresh = false) (same : r.heap = s.tried)

theorem Represents.set (rep : Represents s args argsNum M) (c : SetCall) :
    ∃ r, c.run H s (some args) = some r ∧ r.heap.grants = s.grants ∧
      SetOutcome H s args argsNum M c r := by
  rw [SetCall.run_eq]
  by_cases accepted : c.accepted H
  · obtain ⟨nodes, object, map⟩ := rep
    have index : 0 ≤ c.argnum.toInt := accepted.1
    have small : c.argnum.toInt < 2 ^ 31 := BitVec.toInt_lt
    have number : ((c.argnum.toInt.toNat : Nat) : Int) = c.argnum.toInt := Int.toNat_of_nonneg index
    obtain ⟨pre, a, post, rfl, low, high⟩ := object.split index
    by_cases found : ∃ b rest, post = b :: rest ∧ (s.node b).num = c.argnum.toInt
    · obtain ⟨b, rest, rfl, here⟩ := found
      have shape : pre ++ a :: b :: rest = (pre ++ [a]) ++ b :: rest := by simp
      rw [shape] at object map
      have old : (M c.argnum.toInt.toNat).getD .zero = (s.node b).data := by
        rw [← map, number, ← here, object.lookup_node]
        rfl
      have notHead : b ≠ args := by
        rintro rfl
        rw [object.headNum] at here
        omega
      refine ⟨_, object.vhcallArgsSet_found accepted low here, rfl, .stored accepted rfl rfl ?_⟩
      refine ⟨_, object.setNodeData notHead, fun i => ?_⟩
      rw [lookup_set index map (here ▸ object.lookup_setNodeData), ArgMap.set, old]
      rfl
    · have above : ∀ x ∈ post, c.argnum.toInt < (s.node x).num := by
        cases post with
        | nil => simp
        | cons b rest =>
          have first : c.argnum.toInt < (s.node b).num :=
            lt_of_le_of_ne (high b List.mem_cons_self)
              (fun same => found ⟨b, rest, rfl, same.symm⟩)
          have tail := (List.pairwise_append.mp object.nums).2.1
          have later := (List.pairwise_cons.mp (List.pairwise_cons.mp tail).2).1
          intro x member
          rcases List.mem_cons.mp member with rfl | after
          · exact first
          · exact first.trans (later x after)
      have old : (M c.argnum.toInt.toNat).getD .zero = .zero := by
        have shape : pre ++ a :: post = (pre ++ [a]) ++ post := by simp
        rw [← map, number, Object.lookup_absent shape low above]
        rfl
      have done : vhcallArgsSet H s (some args) (c.inout H) c.argnum.toInt (c.val H) c.size
          (c.cl H) =
            if s.grants s.fresh then
              some { ret := 0, errno := none,
                     heap := s.insertData a c.argnum.toInt (c.store H .zero) }
            else some { ret := -1, errno := some enomem, heap := s.tried } :=
        object.vhcallArgsSet_new accepted low above
      cases granted : s.grants s.fresh with
      | true =>
        rw [granted, if_pos rfl] at done
        refine ⟨_, done, rfl, .stored accepted rfl rfl ?_⟩
        refine ⟨_, object.insertData low above small, fun i => ?_⟩
        rw [lookup_set index map (object.lookup_insertData low), ArgMap.set, old]
      | false =>
        rw [granted, if_neg Bool.false_ne_true] at done
        exact ⟨_, done, rfl, .noMemory accepted rfl rfl granted rfl⟩
  · exact ⟨_, vhcallArgsSet_rejected accepted, rfl, .rejected accepted rfl rfl rfl⟩

/-! ## Objects without arguments -/

theorem Represents.single (num : (s.node args).num = -1) (cl : (s.node args).data.cl = 0)
    (count : (s.node args).argsNum = argsNum) (last : (s.node args).next = none)
    (old : args < s.fresh) : Represents s args argsNum .empty := by
  refine ⟨[args], ?_, fun i => ?_⟩
  · constructor
    case chain =>
      exact ⟨⟨last, trivial⟩, List.nodup_singleton args, List.forall_mem_singleton.mpr old⟩
    case first => rfl
    case headNum => exact num
    case headClass => exact cl
    case headArgs => exact count
    case sorted => exact List.pairwise_singleton ..
    case bound =>
      have below : (s.node args).num < 2 ^ 31 := by
        rw [num]
        decide
      exact List.forall_mem_singleton.mpr below
  · have other : (s.node args).num ≠ (i : Int) := by
      rw [num]
      omega
    exact SortedEntries.lookup_none (List.forall_mem_singleton.mpr other)

theorem vhcallArgsAllocNum_represents {num : Int} {s' : Heap}
    (allocated : vhcallArgsAllocNum s num = (some args, s')) :
    Represents s' args (if num < 0 then -1 else num) .empty ∧ s'.grants = s.grants := by
  cases granted : s.grants s.fresh with
  | false =>
    rw [vhcallArgsAllocNum, Heap.calloc_refused granted] at allocated
    exact absurd (congrArg Prod.fst allocated) (by simp)
  | true =>
    simp only [vhcallArgsAllocNum, Heap.calloc_granted granted, Prod.mk.injEq,
      Option.some.injEq, Heap.write, Function.update_self] at allocated
    obtain ⟨rfl, rfl⟩ := allocated
    refine ⟨.single ?_ ?_ ?_ ?_ (Nat.lt_succ_self _), rfl⟩
    all_goals simp only [Function.update_self]
    rfl

theorem vhcallArgsAlloc_represents {s' : Heap}
    (allocated : vhcallArgsAlloc s = (some args, s')) :
    Represents s' args (-1) .empty ∧ s'.grants = s.grants := by
  cases granted : s.grants s.fresh with
  | false =>
    rw [vhcallArgsAlloc, Heap.calloc_refused granted] at allocated
    exact absurd (congrArg Prod.fst allocated) (by simp)
  | true =>
    simp only [vhcallArgsAlloc, Heap.calloc_granted granted, Prod.mk.injEq, Option.some.injEq,
      Heap.write, Function.update_self] at allocated
    obtain ⟨rfl, rfl⟩ := allocated
    refine ⟨.single ?_ ?_ ?_ ?_ (Nat.lt_succ_self _), rfl⟩
    all_goals simp only [Function.update_self]
    rfl

theorem clearLoop_spec {rest : List Nat} {fuel : Nat}
    (linked : Linked VhcallArgs.next s.node rest none) (nodup : rest.Nodup)
    (enough : rest.length ≤ fuel) :
    ∃ s', clearLoop fuel s rest.head? = some s' ∧ s'.fresh = s.fresh ∧ s'.grants = s.grants ∧
      ∀ a, a ∉ rest → s'.node a = s.node a := by
  induction rest generalizing s fuel with
  | nil =>
    refine ⟨s, ?_, rfl, rfl, fun _ _ => rfl⟩
    cases fuel <;> rfl
  | cons p rest ih =>
    obtain ⟨fuel, rfl⟩ := Nat.exists_eq_add_one_of_ne_zero
      (Nat.ne_zero_of_lt (Nat.lt_of_succ_le enough))
    obtain ⟨out, distinct⟩ := List.nodup_cons.mp nodup
    have kept : ∀ a, a ≠ p → (s.free p).node a = s.node a :=
      fun a other => Function.update_of_ne other ..
    have linked' : Linked VhcallArgs.next (s.free p).node rest none :=
      linked.2.congr (fun b member => by rw [kept b (fun same => out (same ▸ member))])
    obtain ⟨s', done, fresh, grants, same⟩ := ih linked' distinct (Nat.le_of_succ_le_succ enough)
    refine ⟨s', ?_, fresh, grants, fun a other => ?_⟩
    · rw [List.head?_cons, clearLoop, linked.1, Option.or_none]
      exact done
    · obtain ⟨notHere, notLater⟩ := not_or.mp (fun either => other (List.mem_cons.mpr either))
      rw [same a notLater, kept a notHere]

theorem Represents.clear (rep : Represents s args argsNum M) :
    ∃ s', vhcallArgsClear s (some args) = some s' ∧ s'.grants = s.grants ∧
      Represents s' args argsNum .empty := by
  obtain ⟨nodes, object, _⟩ := rep
  obtain ⟨rest, rfl⟩ := object.headed
  obtain ⟨out, distinct⟩ := List.nodup_cons.mp object.chain.nodup
  have enough := object.chain.length_le
  rw [List.length_cons] at enough
  obtain ⟨s', done, fresh, grants, same⟩ :=
    clearLoop_spec object.chain.linked.2 distinct (by omega : rest.length ≤ s.fresh)
  have link : (s.node args).next = rest.head? := by
    rw [object.chain.linked.1, Option.or_none]
  refine ⟨s'.setNext args none, ?_, grants, .single ?_ ?_ ?_ ?_ ?_⟩
  · simp only [vhcallArgsClear, link, done, Option.bind_eq_bind, Option.bind_some]
    rfl
  all_goals simp only [Heap.setNext, Heap.write, Function.update_self, same args out]
  · exact object.headNum
  · exact object.headClass
  · exact object.headArgs
  · exact fresh ▸ object.chain.below args List.mem_cons_self

end Libsysve.Vhcall
