import Mathlib.Data.List.Perm.Basic
import Libsysve.Vhcall.Marshal

/-!
# The cells of an object

`Moves` is the account of a call on one object: the cells it had and those that calloc gave
during the call are the cells it has afterwards and the freed ones, each as often, and no other
cell is written.
-/

set_option autoImplicit false

namespace Libsysve.Vhcall

open Libsysve.LinkedList
open scoped List

/-- What calloc gave since allocation number `start`. -/
def Heap.granted (s : Heap) (start : Nat) : List Nat :=
  (List.range' start (s.fresh - start)).filter s.grants

/-- The addresses that the loop of `vhcall_args_clear` passes to free. -/
def clearFrees : Nat → Heap → Option Nat → List Nat
  | _, _, none => []
  | 0, _, some _ => []
  | fuel + 1, s, some p => p :: clearFrees fuel (s.free p) (s.node p).next

def vhcallArgsClearFrees (s : Heap) (ca : Option Nat) : List Nat :=
  match ca with
  | none => []
  | some ca => clearFrees s.fresh s (s.node ca).next

def vhcallArgsFree (s : Heap) (ca : Option Nat) : Option Heap := do
  let s ← vhcallArgsClear s ca
  match ca with
  | none => return s
  | some ca => return s.free ca

def vhcallArgsFreeFrees (s : Heap) (ca : Option Nat) : List Nat :=
  vhcallArgsClearFrees s ca ++ ca.toList

/-- What `vhcall_invoke_with_args` passes to free after the system call: the buffer, its last
allocation, or NULL when it needs none. -/
def InvokeResult.frees (r : InvokeResult) : List Nat :=
  match r.issued with
  | none => []
  | some call => if 0 < call.insize then [r.heap.fresh - 1] else []

/-- A call on an object with the cells `nodes`, which has `nodes'` after it. -/
structure Moves (s : Heap) (nodes : List Nat) (s' : Heap) (nodes' freed : List Nat) : Prop where
  fresh : s.fresh ≤ s'.fresh
  grants : s'.grants = s.grants
  others : ∀ a < s.fresh, a ∉ nodes → s'.node a = s.node a
  account : (nodes ++ s'.granted s.fresh).Perm (nodes' ++ freed)

variable {H : VhcallH} {s s' s'' : Heap} {args a : Nat} {argsNum : Int} {start : Nat}
  {nodes nodes' nodes'' freed freed' : List Nat}

/-! ## What was granted -/

theorem Heap.mem_granted : a ∈ s.granted start ↔ start ≤ a ∧ a < s.fresh ∧ s.grants a = true := by
  rw [granted, List.mem_filter, List.mem_range'_1]
  refine and_assoc.trans (and_congr_right (fun from_start => and_congr_left (fun _ => ?_)))
  omega

theorem Heap.granted_nodup : (s.granted start).Nodup :=
  List.Nodup.filter s.grants List.nodup_range'

theorem Heap.granted_self : s.granted s.fresh = [] := by
  rw [granted, Nat.sub_self]
  rfl

theorem Heap.granted_append (earlier : start ≤ s.fresh) (fresh : s.fresh ≤ s'.fresh)
    (grants : s'.grants = s.grants) : s'.granted start = s.granted start ++ s'.granted s.fresh := by
  have first : s.fresh = start + (s.fresh - start) := by omega
  have total : s'.fresh - start = s.fresh - start + (s'.fresh - s.fresh) := by omega
  have ranges : List.range' start (s'.fresh - start) =
      List.range' start (s.fresh - start) ++ List.range' s.fresh (s'.fresh - s.fresh) := by
    rw [total, ← List.range'_append_1, ← first]
  rw [granted, granted, granted, grants, ranges, List.filter_append]

theorem Heap.granted_succ (next : s'.fresh = s.fresh + 1) (grants : s'.grants = s.grants) :
    s'.granted s.fresh = if s.grants s.fresh then [s.fresh] else [] := by
  have one : s'.fresh - s.fresh = 1 := by omega
  rw [granted, one, grants, List.range'_one, List.filter_singleton]
  cases s.grants s.fresh <;> rfl

/-! ## Moves -/

theorem Moves.refl : Moves s nodes s nodes [] :=
  ⟨le_rfl, rfl, fun _ _ _ => rfl, by rw [Heap.granted_self]⟩

theorem Moves.mem (moves : Moves s nodes s' nodes' freed) (member : a ∈ nodes')
    (old : a < s.fresh) :
    a ∈ nodes := by
  have both := moves.account.mem_iff.mpr (List.mem_append_left freed member)
  rcases List.mem_append.mp both with here | new
  · exact here
  · exact absurd (Heap.mem_granted.mp new).1 (Nat.not_le_of_lt old)

theorem Moves.trans (first : Moves s nodes s' nodes' freed)
    (second : Moves s' nodes' s'' nodes'' freed') :
    Moves s nodes s'' nodes'' (freed ++ freed') where
  fresh := first.fresh.trans second.fresh
  grants := second.grants.trans first.grants
  others a old out := by
    have notLater : a ∉ nodes' := fun member => out (first.mem member old)
    exact (second.others a (lt_of_lt_of_le old first.fresh) notLater).trans (first.others a old out)
  account := by
    rw [Heap.granted_append first.fresh second.fresh second.grants]
    calc nodes ++ (s'.granted s.fresh ++ s''.granted s'.fresh)
      _ = (nodes ++ s'.granted s.fresh) ++ s''.granted s'.fresh := by rw [List.append_assoc]
      _ ~ (nodes' ++ freed) ++ s''.granted s'.fresh := first.account.append_right _
      _ = nodes' ++ (freed ++ s''.granted s'.fresh) := by rw [List.append_assoc]
      _ ~ nodes' ++ (s''.granted s'.fresh ++ freed) := List.perm_append_comm.append_left nodes'
      _ = (nodes' ++ s''.granted s'.fresh) ++ freed := by rw [List.append_assoc]
      _ ~ (nodes'' ++ freed') ++ freed := second.account.append_right freed
      _ = nodes'' ++ (freed' ++ freed) := by rw [List.append_assoc]
      _ ~ nodes'' ++ (freed ++ freed') := List.perm_append_comm.append_left nodes''

theorem Moves.trial (next : s'.fresh = s.fresh + 1) (grants : s'.grants = s.grants)
    (same : s'.node = s.node) :
    Moves s nodes s' nodes (if s.grants s.fresh then [s.fresh] else []) where
  fresh := next ▸ Nat.le_succ _
  grants := grants
  others a _ _ := by rw [same]
  account := by rw [Heap.granted_succ next grants]

theorem Moves.tried (refused : s.grants s.fresh = false) : Moves s nodes s.tried nodes [] := by
  have trial : Moves s nodes s.tried nodes (if s.grants s.fresh then [s.fresh] else []) :=
    .trial rfl rfl rfl
  rwa [refused] at trial

theorem Moves.setNodeData {d : VhcallData} (member : a ∈ nodes) :
    Moves s nodes (s.setNodeData a d) nodes [] where
  fresh := le_rfl
  grants := rfl
  others b _ out := Heap.setNodeData_other fun same => out (same ▸ member)
  account := by
    have same : (s.setNodeData a d).granted s.fresh = [] := s.granted_self
    rw [same]

theorem Moves.insertData {pre post : List Nat} {num : Int} {d : VhcallData}
    (granted : s.grants s.fresh = true) :
    Moves s (pre ++ a :: post) (s.insertData a num d) (pre ++ a :: s.fresh :: post) [] where
  fresh := Nat.le_succ _
  grants := rfl
  others b old out := by
    refine Heap.insertData_other (fun same => out ?_) (Nat.ne_of_lt old)
    rw [same]
    exact List.mem_append_right pre List.mem_cons_self
  account := by
    have one : (s.insertData a num d).granted s.fresh =
        if s.grants s.fresh then [s.fresh] else [] :=
      Heap.granted_succ rfl rfl
    rw [one, granted, if_pos rfl, List.append_nil]
    calc pre ++ a :: post ++ [s.fresh]
      _ ~ s.fresh :: (pre ++ a :: post) := List.perm_append_singleton s.fresh _
      _ = s.fresh :: (pre ++ [a] ++ post) := by simp
      _ ~ pre ++ [a] ++ s.fresh :: post := List.perm_middle.symm
      _ = pre ++ a :: s.fresh :: post := by simp

/-! ## The list of an object -/

theorem Object.unique {argsNum' : Int} (object : Object s args argsNum nodes)
    (object' : Object s args argsNum' nodes') : nodes = nodes' :=
  object.chain.linked.unique object'.chain.linked (object.first.trans object'.first.symm)

theorem Represents.alone {M : ArgMap} (rep : Represents s args argsNum M)
    (last : (s.node args).next = none) : Object s args argsNum [args] := by
  obtain ⟨nodes, object, _⟩ := rep
  obtain ⟨rest, rfl⟩ := object.headed
  have empty : rest.head? = none := by
    rw [← Option.or_none (o := rest.head?), ← object.chain.linked.1, last]
  obtain rfl := List.head?_eq_none_iff.mp empty
  exact object

theorem Object.kept (object : Object s args argsNum nodes) (fresh : s.fresh ≤ s'.fresh)
    (same : ∀ a ∈ nodes, s'.node a = s.node a) : Object s' args argsNum nodes := by
  have head : s'.node args = s.node args := same args (List.mem_of_mem_head? object.first)
  have list : entries s' nodes = entries s nodes := by
    refine entries_congr (fun a member => ?_)
    rw [same a member]
    exact ⟨rfl, rfl⟩
  constructor
  case chain =>
    refine (object.chain.congr (fun a member => ?_)).mono fresh
    rw [same a member]
  case first => exact object.first
  case headNum => exact head ▸ object.headNum
  case headClass => exact head ▸ object.headClass
  case headArgs => exact head ▸ object.headArgs
  case sorted => exact list ▸ object.sorted
  case bound => exact list ▸ object.bound

theorem Object.place (object : Object s args argsNum nodes) {num : Int} (index : 0 ≤ num) :
    (∃ pre a post, nodes = pre ++ a :: post ∧ (∀ x ∈ pre, (s.node x).num < num) ∧
      (s.node a).num = num) ∨
    ∃ pre a post, nodes = pre ++ a :: post ∧ (∀ x ∈ pre ++ [a], (s.node x).num < num) ∧
      ∀ x ∈ post, num < (s.node x).num := by
  obtain ⟨pre, a, post, rfl, low, high⟩ := object.split index
  cases post with
  | nil => exact .inr ⟨pre, a, [], rfl, low, by simp⟩
  | cons b rest =>
    have tail := (List.pairwise_append.mp object.nums).2.1
    have later := (List.pairwise_cons.mp (List.pairwise_cons.mp tail).2).1
    rcases eq_or_lt_of_le (high b List.mem_cons_self) with here | above
    · exact .inl ⟨pre ++ [a], b, rest, by simp, low, here.symm⟩
    · refine .inr ⟨pre, a, b :: rest, rfl, low, fun x member => ?_⟩
      rcases List.mem_cons.mp member with rfl | after
      · exact above
      · exact above.trans (later x after)

/-! ## The calls -/

theorem Object.set_moves (object : Object s args argsNum nodes) {c : SetCall} {r : CallReturn}
    (ran : c.run H s (some args) = some r) :
    ∃ nodes', Object r.heap args argsNum nodes' ∧ Moves s nodes r.heap nodes' [] := by
  rw [SetCall.run_eq] at ran
  by_cases accepted : Accepted H (c.inout H) c.argnum.toInt
  · have index : 0 ≤ c.argnum.toInt := accepted.1
    have small : c.argnum.toInt < 2 ^ 31 := BitVec.toInt_lt
    rcases object.place index with
      ⟨pre, a, post, rfl, less, here⟩ | ⟨pre, a, post, rfl, less, greater⟩
    · have notHead : a ≠ args := by
        rintro rfl
        rw [object.headNum] at here
        omega
      rw [object.vhcallArgsSet_found accepted less here] at ran
      obtain rfl := Option.some.inj ran
      exact ⟨_, object.setNodeData notHead, .setNodeData (by simp)⟩
    · rw [object.vhcallArgsSet_new accepted less greater] at ran
      cases granted : s.grants s.fresh with
      | true =>
        rw [granted, if_pos rfl] at ran
        obtain rfl := Option.some.inj ran
        exact ⟨_, object.insertData less greater small, .insertData granted⟩
      | false =>
        rw [granted, if_neg Bool.false_ne_true] at ran
        obtain rfl := Option.some.inj ran
        exact ⟨_, object.tried, .tried granted⟩
  · rw [vhcallArgsSet_rejected accepted] at ran
    obtain rfl := Option.some.inj ran
    exact ⟨nodes, object, .refl⟩

theorem clearFrees_eq {rest : List Nat} {fuel : Nat}
    (linked : Linked VhcallArgs.next s.node rest none) (nodup : rest.Nodup)
    (enough : rest.length ≤ fuel) : clearFrees fuel s rest.head? = rest := by
  induction rest generalizing s fuel with
  | nil => cases fuel <;> rfl
  | cons p rest ih =>
    obtain ⟨fuel, rfl⟩ := Nat.exists_eq_add_one_of_ne_zero
      (Nat.ne_zero_of_lt (Nat.lt_of_succ_le enough))
    obtain ⟨out, distinct⟩ := List.nodup_cons.mp nodup
    have later : Linked VhcallArgs.next (s.free p).node rest none := by
      refine linked.2.congr (fun b member => congrArg VhcallArgs.next ?_)
      have other : b ≠ p := fun same => out (same ▸ member)
      exact Function.update_of_ne other ..
    rw [List.head?_cons, clearFrees, linked.1, Option.or_none,
      ih later distinct (Nat.le_of_succ_le_succ enough)]

theorem Object.clear_moves (object : Object s args argsNum nodes) :
    ∃ s', vhcallArgsClear s (some args) = some s' ∧ Object s' args argsNum [args] ∧
      Moves s nodes s' [args] (vhcallArgsClearFrees s (some args)) := by
  obtain ⟨rest, rfl⟩ := object.headed
  obtain ⟨out, distinct⟩ := List.nodup_cons.mp object.chain.nodup
  have enough := object.chain.length_le
  rw [List.length_cons] at enough
  obtain ⟨s', done, fresh, grants, same⟩ :=
    clearLoop_spec object.chain.linked.2 distinct (by omega : rest.length ≤ s.fresh)
  have link : (s.node args).next = rest.head? := by
    rw [object.chain.linked.1, Option.or_none]
  have frees : vhcallArgsClearFrees s (some args) = rest := by
    rw [vhcallArgsClearFrees, link]
    exact clearFrees_eq object.chain.linked.2 distinct (by omega)
  have cleared : vhcallArgsClear s (some args) = some (s'.setNext args none) := by
    simp only [vhcallArgsClear, link, done, Option.bind_eq_bind, Option.bind_some]
    rfl
  obtain ⟨s₁, cleared', _, empty⟩ := Represents.clear ⟨_, object, fun _ => rfl⟩
  obtain rfl := Option.some.inj (cleared.symm.trans cleared')
  refine ⟨s'.setNext args none, cleared, ?_, ?_⟩
  · refine empty.alone ?_
    simp only [Heap.setNext, Heap.write, Function.update_self]
  · rw [frees]
    refine ⟨fresh.ge, grants, fun a old outside => ?_, ?_⟩
    · obtain ⟨notHead, notLater⟩ := not_or.mp (fun either => outside (List.mem_cons.mpr either))
      exact (Function.update_of_ne notHead ..).trans (same a notLater)
    · have none : (s'.setNext args none).granted s.fresh = [] := fresh ▸ s'.granted_self
      rw [none, List.append_nil]
      rfl

theorem Object.free_moves (object : Object s args argsNum nodes) :
    ∃ s', vhcallArgsFree s (some args) = some s' ∧
      Moves s nodes s' [] (vhcallArgsFreeFrees s (some args)) := by
  obtain ⟨s', cleared, _, moves⟩ := object.clear_moves
  have last : Moves s' [args] (s'.free args) [] [args] := by
    refine ⟨le_rfl, rfl, fun a _ out => ?_, ?_⟩
    · exact Function.update_of_ne (fun same => out (List.mem_singleton.mpr same)) ..
    · have none : (s'.free args).granted s'.fresh = [] := s'.granted_self
      rw [none, List.append_nil, List.nil_append]
  refine ⟨s'.free args, ?_, moves.trans last⟩
  rw [vhcallArgsFree, cleared]
  rfl

theorem vhcallArgsAllocNum_moves (s : Heap) (num : Int) :
    (s.grants s.fresh = false ∧ vhcallArgsAllocNum s num = (none, s.tried)) ∨
    ∃ s', vhcallArgsAllocNum s num = (some s.fresh, s') ∧ (s'.node s.fresh).next = none ∧
      Moves s [] s' [s.fresh] [] := by
  cases granted : s.grants s.fresh with
  | false =>
    refine .inl ⟨rfl, ?_⟩
    rw [vhcallArgsAllocNum, Heap.calloc_refused granted]
  | true =>
    simp only [vhcallArgsAllocNum, Heap.calloc_granted granted]
    refine .inr ⟨_, rfl, ?_, Nat.le_succ _, rfl, fun a old _ => ?_, ?_⟩
    · simp only [Heap.write, Function.update_self]
    · have other : a ≠ s.fresh := Nat.ne_of_lt old
      exact (Function.update_of_ne other ..).trans (Function.update_of_ne other ..)
    · have one : ∀ s' : Heap, s'.fresh = s.fresh + 1 → s'.grants = s.grants →
          s'.granted s.fresh = [s.fresh] := by
        intro s' next grants
        rw [Heap.granted_succ next grants, granted, if_pos rfl]
      exact List.Perm.of_eq (one _ rfl rfl)

theorem validateNode_heap {p : Nat} {v : Validated}
    (done : validateNode H s args argsNum p = some (v, s')) :
    s' = s ∨ ∃ i r, vhcallArgsSetU64 H s (some args) i 0 = some r ∧ s' = r.heap := by
  have kept : ∀ {v' : Validated}, some (v', s) = some (v, s') → s' = s := by
    intro v' same
    exact (Prod.mk.inj (Option.some.inj same)).2.symm
  have set : ∀ {i : BitVec 32}, (do
      let set ← vhcallArgsSetU64 H s (some args) i 0
      return (if set.ret ≠ 0 then Validated.refused set.errno else .goesOn, set.heap)) =
        some (v, s') → ∃ r, vhcallArgsSetU64 H s (some args) i 0 = some r ∧ s' = r.heap := by
    intro i ran
    obtain ⟨r, set, same⟩ := Option.bind_eq_some_iff.mp ran
    exact ⟨r, set, (Prod.mk.inj (Option.some.inj same)).2.symm⟩
  unfold validateNode at done
  dsimp only at done
  by_cases counted : argsNum ≠ -1
  · rw [if_pos counted] at done
    by_cases beyond : int32 ((s.node p).num + 1) > argsNum
    · rw [if_pos beyond] at done
      exact .inl (kept done)
    · rw [if_neg beyond] at done
      cases next : (s.node p).next with
      | some q =>
        simp only [next] at done
        split at done
        · exact .inr ⟨_, set done⟩
        · exact .inl (kept done)
      | none =>
        simp only [next] at done
        split at done
        · exact .inr ⟨_, set done⟩
        · exact .inl (kept done)
  · rw [if_neg counted] at done
    cases next : (s.node p).next with
    | some q =>
      simp only [next] at done
      split at done
      · exact .inl (kept done)
      · exact .inl (kept done)
    | none =>
      simp only [next] at done
      exact .inl (kept done)

theorem Object.validateNode_moves {argsNum' : Int} {p : Nat} {v : Validated}
    (object : Object s args argsNum nodes)
    (done : validateNode H s args argsNum' p = some (v, s')) :
    ∃ nodes', Object s' args argsNum nodes' ∧ Moves s nodes s' nodes' [] := by
  rcases validateNode_heap done with rfl | ⟨i, r, set, rfl⟩
  · exact ⟨nodes, object, .refl⟩
  · exact object.set_moves (c := .u64 i 0) set

theorem Object.validate_moves {argsNum' : Int} {fuel insize : Nat} {p : Option Nat}
    {result : Except (Option Int) Nat} (object : Object s args argsNum nodes)
    (done : validateLoop H args argsNum' fuel s p insize = some (s', result)) :
    ∃ nodes', Object s' args argsNum nodes' ∧ Moves s nodes s' nodes' [] := by
  induction fuel generalizing s nodes p insize with
  | zero =>
    cases p with
    | none =>
      obtain ⟨rfl, _⟩ := Prod.mk.inj (Option.some.inj done)
      exact ⟨nodes, object, .refl⟩
    | some p => exact absurd done (by simp [validateLoop])
  | succ fuel ih =>
    cases p with
    | none =>
      obtain ⟨rfl, _⟩ := Prod.mk.inj (Option.some.inj done)
      exact ⟨nodes, object, .refl⟩
    | some p =>
      cases node : validateNode H s args argsNum' p with
      | none =>
        rw [validateLoop, node] at done
        exact absurd done (by simp)
      | some tested =>
        obtain ⟨v, s₁⟩ := tested
        obtain ⟨nodes₁, object₁, first⟩ := object.validateNode_moves node
        cases v with
        | refused errno =>
          rw [validateLoop_refused node] at done
          obtain ⟨rfl, _⟩ := Prod.mk.inj (Option.some.inj done)
          exact ⟨nodes₁, object₁, first⟩
        | goesOn =>
          rw [validateLoop_goesOn node] at done
          obtain ⟨nodes', object', later⟩ := ih object₁ done
          exact ⟨nodes', object', first.trans later⟩

theorem Object.invoke_moves {sys : InvokeCall → Int} {uninit : VhcallData} {symid : Int}
    {retval : Nat} {r : InvokeResult} (object : Object s args argsNum nodes)
    (ran : vhcallInvokeWithArgs H sys uninit s symid (some args) retval = some r) :
    ∃ nodes', Object r.heap args argsNum nodes' ∧ Moves s nodes r.heap nodes' r.frees := by
  obtain ⟨⟨s₁, result⟩, looped, rest⟩ := Option.bind_eq_some_iff.mp ran
  obtain ⟨nodes₁, object₁, first⟩ := object.validate_moves looped
  cases result with
  | error errno =>
    obtain rfl := Option.some.inj rest
    exact ⟨nodes₁, object₁, first⟩
  | ok insize =>
    dsimp only at rest
    by_cases memory : 0 < insize ∧ s₁.grants s₁.fresh = false
    · rw [if_pos memory] at rest
      obtain rfl := Option.some.inj rest
      exact ⟨nodes₁, object₁.tried, first.trans (.tried memory.2)⟩
    · rw [if_neg memory] at rest
      obtain ⟨f, filled, last⟩ := Option.bind_eq_some_iff.mp rest
      obtain rfl := Option.some.inj last
      by_cases needed : 0 < insize
      · have granted : s₁.grants s₁.fresh = true := by
          cases grants : s₁.grants s₁.fresh with
          | true => rfl
          | false => exact absurd ⟨needed, grants⟩ memory
        have buffer : Moves s₁ nodes₁ s₁.tried nodes₁
          (if s₁.grants s₁.fresh then [s₁.fresh] else []) :=
          .trial rfl rfl rfl
        rw [granted, if_pos rfl] at buffer
        simp only [InvokeResult.frees, if_pos needed]
        exact ⟨nodes₁, object₁.tried, first.trans buffer⟩
      · simp only [InvokeResult.frees, if_neg needed]
        exact ⟨nodes₁, object₁, first⟩

end Libsysve.Vhcall
