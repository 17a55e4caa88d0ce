import Libsysve.Library.SortedEntries
import Libsysve.Vhcall.Args

/-!
# What the setters do to the list

`Object` says that the nodes behind `args` form a list with increasing argument numbers.  A
setter either overwrites the data of the node that has its number or links a new node in
where the number belongs, when there is memory for one.
-/

set_option autoImplicit false

namespace Libsysve.Vhcall

open Libsysve.LinkedList

def entries (s : Heap) (nodes : List Nat) : List (Int × VhcallData) :=
  nodes.map fun a => ((s.node a).num, (s.node a).data)

/-- `nodes` are the addresses of the list, the head node included. -/
structure Object (s : Heap) (args : Nat) (argsNum : Int) (nodes : List Nat) : Prop where
  chain : Chain VhcallArgs.next s.node s.fresh nodes
  first : nodes.head? = some args
  headNum : (s.node args).num = -1
  headClass : (s.node args).data.cl = 0
  headArgs : (s.node args).argsNum = argsNum
  sorted : (entries s nodes).Pairwise fun x y => x.1 < y.1
  bound : ∀ x ∈ entries s nodes, x.1 < 2 ^ 31

/-- A new node with number `num` and data `d` behind node `p`. -/
def Heap.insertData (s : Heap) (p : Nat) (num : Int) (d : VhcallData) : Heap where
  node := Function.update (Function.update s.node s.fresh
      { num := num, data := d, next := (s.node p).next, argsNum := 0 }) p
    { s.node p with next := some s.fresh }
  fresh := s.fresh + 1
  grants := s.grants

def Heap.tried (s : Heap) : Heap :=
  { s with fresh := s.fresh + 1 }

def Heap.setNodeData (s : Heap) (p : Nat) (d : VhcallData) : Heap :=
  s.write p { s.node p with data := d }

variable {s : Heap} {p a : Nat} {num : Int} {d : VhcallData} {pre post nodes : List Nat}

theorem Heap.insertData_fresh (old : p ≠ s.fresh) : (s.insertData p num d).node s.fresh =
    { num := num, data := d, next := (s.node p).next, argsNum := 0 } :=
  (Function.update_of_ne (Ne.symm old) ..).trans (Function.update_self ..)

theorem Heap.insertData_self :
    (s.insertData p num d).node p = { s.node p with next := some s.fresh } :=
  Function.update_self ..

theorem Heap.insertData_other (notHere : a ≠ p) (old : a ≠ s.fresh) :
    (s.insertData p num d).node a = s.node a :=
  (Function.update_of_ne notHere ..).trans (Function.update_of_ne old ..)

theorem Heap.insertData_entry (old : a ≠ s.fresh) :
    ((s.insertData p num d).node a).num = (s.node a).num ∧
      ((s.insertData p num d).node a).data = (s.node a).data ∧
      ((s.insertData p num d).node a).argsNum = (s.node a).argsNum := by
  by_cases here : a = p
  · rw [here, Heap.insertData_self]
    exact ⟨rfl, rfl, rfl⟩
  · rw [Heap.insertData_other here old]
    exact ⟨rfl, rfl, rfl⟩

theorem Heap.setNodeData_self : (s.setNodeData p d).node p = { s.node p with data := d } :=
  Function.update_self ..

theorem Heap.setNodeData_other (other : a ≠ p) : (s.setNodeData p d).node a = s.node a :=
  Function.update_of_ne other ..

/-! ## vhcall_args_append -/

theorem appendWalk_stop {fuel : Nat} {tmp : Option Nat} {start : Nat}
    (linked : Linked VhcallArgs.next s.node (pre ++ a :: post) none)
    (first : (pre ++ [a]).head? = some start) (less : ∀ x ∈ pre, (s.node x).num < num)
    (stop : num ≤ (s.node a).num) (enough : pre.length < fuel) :
    appendWalk num fuel s start tmp = some (s, some { p := a, tmp := pre.getLast?.or tmp }) := by
  induction pre generalizing fuel tmp start with
  | nil =>
    obtain ⟨fuel, rfl⟩ := Nat.exists_eq_add_one_of_ne_zero (by omega : fuel ≠ 0)
    obtain rfl : a = start := by simpa using first
    rw [appendWalk, if_neg (by omega)]
    rfl
  | cons x rest ih =>
    obtain ⟨fuel, rfl⟩ := Nat.exists_eq_add_one_of_ne_zero (by omega : fuel ≠ 0)
    obtain rfl : x = start := by simpa using first
    obtain ⟨q, begins⟩ : ∃ q, (rest ++ [a]).head? = some q := by
      cases rest with
      | nil => exact ⟨a, rfl⟩
      | cons y rest => exact ⟨y, rfl⟩
    rw [List.cons_append, Linked] at linked
    have link : (s.node x).next = some q := by
      rw [linked.1, Option.or_none, ← begins, List.head?_append, List.head?_append]
      rfl
    rw [appendWalk, if_pos (less x List.mem_cons_self), link]
    have later : appendWalk num fuel s q (some x) =
        some (s, some { p := a, tmp := rest.getLast?.or (some x) }) :=
      ih linked.2 begins (fun y member => less y (List.mem_cons_of_mem x member))
        (by simpa using enough)
    simp only [later, Option.some.injEq, Prod.mk.injEq, Walk.mk.injEq, true_and]
    cases rest with
    | nil => rfl
    | cons y rest => simp [List.getLast?_cons]

theorem Heap.calloc_granted (granted : s.grants s.fresh = true) :
    s.calloc = (some s.fresh,
      { s with node := Function.update s.node s.fresh .zero, fresh := s.fresh + 1 }) := by
  rw [Heap.calloc, if_pos granted]

theorem Heap.calloc_refused (refused : s.grants s.fresh = false) :
    s.calloc = (none, s.tried) := by
  rw [Heap.calloc, if_neg (by simp [refused]), Heap.tried]

theorem linkNew_eq {q : Option Nat} {s' : Heap} (old : p ≠ s.fresh)
    (link : (s.node p).next = q)
    (new : s' = { s with node := Function.update s.node s.fresh .zero, fresh := s.fresh + 1 }) :
    (s'.write s.fresh { s'.node s.fresh with num := num, next := q }).setNext p
      (some s.fresh) = s.insertData p num .zero := by
  subst link new
  have kept : ∀ x, Function.update s.node s.fresh x p = s.node p :=
    fun x => Function.update_of_ne old ..
  simp only [Heap.setNext, Heap.write, Heap.insertData, kept, Function.update_self,
    Function.update_idem, VhcallArgs.zero]

/-- At the end of the list the walk links the new node in itself. -/
theorem appendWalk_end {fuel : Nat} {tmp : Option Nat} {start : Nat}
    (linked : Linked VhcallArgs.next s.node (pre ++ [a]) none)
    (first : (pre ++ [a]).head? = some start) (less : ∀ x ∈ pre ++ [a], (s.node x).num < num)
    (old : a ≠ s.fresh) (enough : pre.length < fuel) :
    appendWalk num fuel s start tmp =
      if s.grants s.fresh then
        some (s.insertData a num .zero, some { p := s.fresh, tmp := some s.fresh })
      else some (s.tried, none) := by
  induction pre generalizing fuel tmp start with
  | nil =>
    obtain ⟨fuel, rfl⟩ := Nat.exists_eq_add_one_of_ne_zero (by omega : fuel ≠ 0)
    obtain rfl : a = start := by simpa using first
    have link : (s.node a).next = none := linked.1
    rw [appendWalk, if_pos (less a (by simp)), link]
    cases granted : s.grants s.fresh with
    | true =>
      simp only [Heap.calloc_granted granted, if_true, Option.some.injEq, Prod.mk.injEq, and_true]
      exact linkNew_eq old link rfl
    | false => simp only [Heap.calloc_refused granted, Bool.false_eq_true, if_false]
  | cons x rest ih =>
    obtain ⟨fuel, rfl⟩ := Nat.exists_eq_add_one_of_ne_zero (by omega : fuel ≠ 0)
    obtain rfl : x = start := by simpa using first
    obtain ⟨q, begins⟩ : ∃ q, (rest ++ [a]).head? = some q := by
      cases rest with
      | nil => exact ⟨a, rfl⟩
      | cons y rest => exact ⟨y, rfl⟩
    rw [List.cons_append, Linked] at linked
    have link : (s.node x).next = some q := by
      rw [linked.1, Option.or_none, begins]
    rw [appendWalk, if_pos (less x (by simp)), link]
    exact ih linked.2 begins (fun y member => less y (List.mem_cons_of_mem x member))
      (by simpa using enough)

theorem vhcallArgsAppend_found {start : Nat}
    (chain : Chain VhcallArgs.next s.node s.fresh (pre ++ a :: post))
    (first : (pre ++ [a]).head? = some start) (less : ∀ x ∈ pre, (s.node x).num < num)
    (found : (s.node a).num = num) : vhcallArgsAppend s start num = some (some a, s) := by
  have enough := chain.length_le
  rw [List.length_append, List.length_cons] at enough
  have walk : appendWalk num (s.fresh + 1) s start none =
      some (s, some { p := a, tmp := pre.getLast?.or none }) :=
    appendWalk_stop chain.linked first less (by omega) (by omega)
  simp only [vhcallArgsAppend, walk, Option.bind_eq_bind, Option.bind_some]
  rw [if_neg (by omega)]
  rfl

/-- The node is new: it is linked in behind the last node with a smaller number. -/
theorem vhcallArgsAppend_new {start : Nat}
    (chain : Chain VhcallArgs.next s.node s.fresh (pre ++ a :: post))
    (first : (pre ++ [a]).head? = some start) (less : ∀ x ∈ pre ++ [a], (s.node x).num < num)
    (greater : ∀ x ∈ post, num < (s.node x).num) :
    vhcallArgsAppend s start num =
      if s.grants s.fresh then some (some s.fresh, s.insertData a num .zero)
      else some (none, s.tried) := by
  have enough := chain.length_le
  rw [List.length_append, List.length_cons] at enough
  have old : a ≠ s.fresh := fun same => chain.fresh_notMem (by simp [← same])
  cases post with
  | nil =>
    have walk : appendWalk num (s.fresh + 1) s start none =
        if s.grants s.fresh then
          some (s.insertData a num .zero, some { p := s.fresh, tmp := some s.fresh })
        else some (s.tried, none) :=
      appendWalk_end chain.linked first less old (by omega)
    cases granted : s.grants s.fresh with
    | true =>
      simp only [granted, if_true] at walk ⊢
      simp only [vhcallArgsAppend, walk, Option.bind_eq_bind, Option.bind_some]
      rw [Heap.insertData_fresh old, if_neg (by simp)]
      rfl
    | false =>
      simp only [granted, Bool.false_eq_true, if_false] at walk ⊢
      simp only [vhcallArgsAppend, walk, Option.bind_eq_bind, Option.bind_some]
      rfl
  | cons b post =>
    have split : pre ++ a :: b :: post = (pre ++ [a]) ++ b :: post := by simp
    have linked := chain.linked
    rw [split] at linked
    have begins : ((pre ++ [a]) ++ [b]).head? = some start := by
      rw [List.head?_append, first]
      rfl
    have above := greater b List.mem_cons_self
    have walk : appendWalk num (s.fresh + 1) s start none =
        some (s, some { p := b, tmp := (pre ++ [a]).getLast?.or none }) :=
      appendWalk_stop linked begins less (by omega)
        (by simp only [List.length_append, List.length_cons, List.length_nil]; omega)
    have last : (pre ++ [a]).getLast?.or none = some a := by simp
    simp only [vhcallArgsAppend, walk, last, Option.bind_eq_bind, Option.bind_some]
    rw [if_pos above]
    cases granted : s.grants s.fresh with
    | true =>
      have link : (Function.update s.node s.fresh .zero a).next = (s.node a).next :=
        congrArg VhcallArgs.next (Function.update_of_ne old ..)
      simp only [Heap.calloc_granted granted, if_true]
      exact congrArg some (Prod.ext rfl (linkNew_eq old link.symm rfl))
    | false =>
      simp only [Heap.calloc_refused granted, Bool.false_eq_true, if_false]
      rfl

/-! ## vhcall_args_set -/

theorem Heap.insertData_set {d' : VhcallData} (old : p ≠ s.fresh) :
    (s.insertData p num d).setNodeData s.fresh d' = s.insertData p num d' := by
  rw [Heap.setNodeData, Heap.insertData_fresh old]
  simp only [Heap.write, Heap.insertData, Heap.mk.injEq, and_true]
  rw [Function.update_comm old, Function.update_idem]

variable {H : VhcallH} {args : Nat} {argsNum inout argnum cl : Int} {val : Pointer} {size : Nat}

/-- The arguments with which `vhcall_args_set` succeeds. -/
def Accepted (H : VhcallH) (inout argnum : Int) : Prop :=
  0 ≤ argnum ∧ H.intentIn ≤ inout ∧ inout ≤ H.intentOut

theorem vhcallArgsSet_stored {q : Nat} {s' : Heap} (accepted : Accepted H inout argnum)
    (append : vhcallArgsAppend s args argnum = some (some q, s')) :
    vhcallArgsSet H s (some args) inout argnum val size cl =
      some { ret := 0, errno := none,
             heap := s'.setNodeData q (setData H (s'.node q).data inout val size cl) } := by
  obtain ⟨index, low, high⟩ := accepted
  simp only [vhcallArgsSet]
  rw [if_neg (by omega), append]
  rfl

theorem vhcallArgsSet_noMemory {s' : Heap} (accepted : Accepted H inout argnum)
    (append : vhcallArgsAppend s args argnum = some (none, s')) :
    vhcallArgsSet H s (some args) inout argnum val size cl =
      some { ret := -1, errno := some enomem, heap := s' } := by
  obtain ⟨index, low, high⟩ := accepted
  simp only [vhcallArgsSet]
  rw [if_neg (by omega), append]
  rfl

theorem vhcallArgsSet_rejected (rejected : ¬Accepted H inout argnum) :
    vhcallArgsSet H s (some args) inout argnum val size cl =
      some { ret := -1, errno := some einval, heap := s } := by
  have fails : argnum < 0 ∨ inout < H.intentIn ∨ inout > H.intentOut := by
    unfold Accepted at rejected
    omega
  simp only [vhcallArgsSet]
  rw [if_pos fails]

theorem Object.first_of_split (object : Object s args argsNum (pre ++ a :: post)) :
    (pre ++ [a]).head? = some args := by
  rw [← object.first, List.head?_append, List.head?_append]
  rfl

theorem Object.vhcallArgsSet_found (object : Object s args argsNum (pre ++ a :: post))
    (accepted : Accepted H inout argnum) (less : ∀ x ∈ pre, (s.node x).num < argnum)
    (found : (s.node a).num = argnum) :
    vhcallArgsSet H s (some args) inout argnum val size cl =
      some { ret := 0, errno := none,
             heap := s.setNodeData a (setData H (s.node a).data inout val size cl) } :=
  vhcallArgsSet_stored accepted
    (vhcallArgsAppend_found object.chain object.first_of_split less found)

theorem Object.vhcallArgsSet_new (object : Object s args argsNum (pre ++ a :: post))
    (accepted : Accepted H inout argnum) (less : ∀ x ∈ pre ++ [a], (s.node x).num < argnum)
    (greater : ∀ x ∈ post, argnum < (s.node x).num) :
    vhcallArgsSet H s (some args) inout argnum val size cl =
      if s.grants s.fresh then
        some { ret := 0, errno := none,
               heap := s.insertData a argnum (setData H .zero inout val size cl) }
      else some { ret := -1, errno := some enomem, heap := s.tried } := by
  have old : a ≠ s.fresh := fun same => object.chain.fresh_notMem (by simp [← same])
  have append := vhcallArgsAppend_new object.chain object.first_of_split less greater
  cases granted : s.grants s.fresh with
  | true =>
    simp only [granted, if_true] at append ⊢
    rw [vhcallArgsSet_stored accepted append, Heap.insertData_fresh old, Heap.insertData_set old]
  | false =>
    simp only [granted, Bool.false_eq_true, if_false] at append ⊢
    exact vhcallArgsSet_noMemory accepted append

/-! ## The object after a setter -/

theorem entries_append {nodes' : List Nat} :
    entries s (nodes ++ nodes') = entries s nodes ++ entries s nodes' :=
  List.map_append ..

theorem entries_cons :
    entries s (a :: nodes) = ((s.node a).num, (s.node a).data) :: entries s nodes :=
  rfl

theorem entries_congr {s' : Heap} (same : ∀ a ∈ nodes,
    (s'.node a).num = (s.node a).num ∧ (s'.node a).data = (s.node a).data) :
    entries s' nodes = entries s nodes := by
  refine List.map_congr_left (fun a member => ?_)
  rw [(same a member).1, (same a member).2]

theorem entries_insertData_old (old : ∀ b ∈ nodes, b ≠ s.fresh) :
    entries (s.insertData a num d) nodes = entries s nodes :=
  entries_congr fun b member => ⟨(Heap.insertData_entry (old b member)).1,
    (Heap.insertData_entry (old b member)).2.1⟩

theorem entries_insertData (fresh : s.fresh ∉ pre ++ a :: post) :
    entries (s.insertData a num d) (pre ++ a :: s.fresh :: post) =
      entries s (pre ++ [a]) ++ (num, d) :: entries s post := by
  have old : a ≠ s.fresh := fun same => fresh (by simp [← same])
  have split : pre ++ a :: s.fresh :: post = (pre ++ [a]) ++ s.fresh :: post := by simp
  rw [split, entries_append, entries_cons, Heap.insertData_fresh old]
  rw [entries_insertData_old (fun b member same => fresh ?_),
    entries_insertData_old (fun b member same => fresh ?_)]
  · exact same ▸ List.mem_append_right pre (List.mem_cons_of_mem a member)
  · subst same
    simp only [List.mem_append, List.mem_singleton] at member
    simp only [List.mem_append, List.mem_cons]
    tauto

theorem entries_setNodeData (notPre : a ∉ pre) (notPost : a ∉ post) :
    entries (s.setNodeData a d) (pre ++ a :: post) =
      entries s pre ++ ((s.node a).num, d) :: entries s post := by
  have kept : ∀ b, b ≠ a → ((s.setNodeData a d).node b).num = (s.node b).num ∧
      ((s.setNodeData a d).node b).data = (s.node b).data := by
    intro b other
    rw [Heap.setNodeData_other other]
    exact ⟨rfl, rfl⟩
  rw [entries_append, entries_cons, Heap.setNodeData_self]
  rw [entries_congr (fun b member => kept b (fun same => notPre (same ▸ member))),
    entries_congr (fun b member => kept b (fun same => notPost (same ▸ member)))]

theorem Object.insertData (object : Object s args argsNum (pre ++ a :: post))
    (less : ∀ x ∈ pre ++ [a], (s.node x).num < num) (greater : ∀ x ∈ post, num < (s.node x).num)
    (small : num < 2 ^ 31) :
    Object (s.insertData a num d) args argsNum (pre ++ a :: s.fresh :: post) := by
  have fresh := object.chain.fresh_notMem
  have old : a ≠ s.fresh := fun same => fresh (by simp [← same])
  have argsOld : args ≠ s.fresh := fun same =>
    fresh (same ▸ List.mem_of_mem_head? object.first)
  have entry : ((s.insertData a num d).node args).num = (s.node args).num ∧
      ((s.insertData a num d).node args).data = (s.node args).data ∧
      ((s.insertData a num d).node args).argsNum = (s.node args).argsNum :=
    Heap.insertData_entry argsOld
  have split : entries s (pre ++ a :: post) = entries s (pre ++ [a]) ++ entries s post := by
    rw [← entries_append]
    simp
  constructor
  case chain =>
    refine object.chain.insert ?_ ?_ ?_
    · rw [Heap.insertData_self]
    · rw [Heap.insertData_fresh old]
    · intro b member
      obtain ⟨notPre, notPost⟩ := object.chain.ne_of_split
      have notHere : b ≠ a := by
        rintro rfl
        exact (List.mem_append.mp member).elim notPre notPost
      have notFresh : b ≠ s.fresh := by
        rintro rfl
        refine fresh ?_
        simp only [List.mem_append, List.mem_cons] at member ⊢
        tauto
      rw [Heap.insertData_other notHere notFresh]
  case first =>
    have begins := object.first
    rw [List.head?_append] at begins ⊢
    exact begins
  case headNum => exact entry.1.trans object.headNum
  case headClass => exact (congrArg VhcallData.cl entry.2.1).trans object.headClass
  case headArgs => exact entry.2.2.trans object.headArgs
  case sorted =>
    rw [entries_insertData fresh]
    refine SortedEntries.sorted_middle.mpr ⟨split ▸ object.sorted, ?_, ?_⟩
    · exact List.forall_mem_map.mpr less
    · exact List.forall_mem_map.mpr greater
  case bound =>
    rw [entries_insertData fresh]
    intro x member
    have cases : x = (num, d) ∨ x ∈ entries s (pre ++ a :: post) := by
      rw [split]
      simp only [List.mem_append, List.mem_cons] at member ⊢
      tauto
    rcases cases with rfl | earlier
    · exact small
    · exact object.bound x earlier

theorem Object.setNodeData (object : Object s args argsNum (pre ++ a :: post))
    (notHead : a ≠ args) :
    Object (s.setNodeData a d) args argsNum (pre ++ a :: post) := by
  obtain ⟨notPre, notPost⟩ := object.chain.ne_of_split
  have head : (s.setNodeData a d).node args = s.node args :=
    Heap.setNodeData_other (Ne.symm notHead)
  have split : entries s (pre ++ a :: post) =
      entries s pre ++ ((s.node a).num, (s.node a).data) :: entries s post := entries_append
  constructor
  case chain =>
    refine object.chain.congr (fun b _ => ?_)
    by_cases here : b = a
    · rw [here, Heap.setNodeData_self]
    · rw [Heap.setNodeData_other here]
  case first => exact object.first
  case headNum => exact head ▸ object.headNum
  case headClass => exact head ▸ object.headClass
  case headArgs => exact head ▸ object.headArgs
  case sorted =>
    rw [entries_setNodeData notPre notPost]
    exact SortedEntries.sorted_middle.mpr (SortedEntries.sorted_middle.mp (split ▸ object.sorted))
  case bound =>
    rw [entries_setNodeData notPre notPost]
    intro x member
    have numbers : ∃ y ∈ entries s (pre ++ a :: post), x.1 = y.1 := by
      rw [split]
      simp only [List.mem_append, List.mem_cons] at member
      rcases member with before | rfl | after
      · exact ⟨x, List.mem_append_left _ before, rfl⟩
      · exact ⟨_, List.mem_append_right _ List.mem_cons_self, rfl⟩
      · exact ⟨x, List.mem_append_right _ (List.mem_cons_of_mem _ after), rfl⟩
    obtain ⟨y, earlier, same⟩ := numbers
    exact same ▸ object.bound y earlier

end Libsysve.Vhcall
