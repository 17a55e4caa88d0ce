import Libsysve.Vhcall.ArgMap
import Libsysve.Vhcall.Invoke

/-!
# The validation loop

`Walking` is where the loop is in the list: the nodes up to `p` are those of the numbers below
`j`, gaps filled with zeros, and the nodes behind `p` are what the object had from `j` on.
-/

set_option autoImplicit false

namespace Libsysve.Vhcall

open Libsysve.LinkedList

section
variable (H : VhcallH)

/-- `vhcall_args_set_u64(args, p->num+1, 0)` on a new node. -/
def fillerData : VhcallData :=
  setData H .zero H.intentIn ⟨H.valAddr, bytesOf (0 : BitVec 64)⟩ 8 H.classInt

def sent (M : ArgMap) (i : Nat) : VhcallData := (M i).getD (fillerData H)

def payload (M : ArgMap) (j : Nat) : List VhcallData := (List.range j).map (sent H M)

def sentEntry (M : ArgMap) (i : Nat) : Int × VhcallData := (i, sent H M i)

/-- The object after the loop has come to `j`. -/
def ArgMap.filled (M : ArgMap) (j : Nat) : ArgMap :=
  fun i => if i < j then some (sent H M i) else M i

def recordSize (d : VhcallData) : Nat :=
  if d.cl = H.classCdb then 2 * H.sizeofData else H.sizeofData

def totalRecords (ds : List VhcallData) : Nat := (ds.map (recordSize H)).sum

structure Walking (M : ArgMap) (s : Heap) (args : Nat) (argsNum : Int) (pre : List Nat) (p : Nat)
    (post : List Nat) (j insize : Nat) : Prop where
  object : Object s args argsNum (pre ++ p :: post)
  here : (s.node p).num = (j : Int) - 1
  done : (entries s (pre ++ [p])).tail = (List.range j).map (sentEntry H M)
  rest : ∀ i : Nat, j ≤ i → (entries s post).lookup (i : Int) = M i
  counted : insize + nodeSize H (s.node p) = totalRecords H (payload H M j)

end

variable {H : VhcallH} {M : ArgMap} {s : Heap} {args : Nat} {argsNum : Int} {pre post : List Nat}
  {p j insize : Nat}

theorem fillerData_val : (fillerData H).val = VhcallData.zero.val := by
  have plain : (fillerData H).val = copyVal VhcallData.zero.val (bytesOf (0 : BitVec 64)) 8 :=
    if_neg H.int_ne_ptr
  rw [plain]
  funext k
  by_cases inside : k.val < 8
  · rw [copyVal, if_pos inside]
    exact BitVec.extractLsb'_zero
  · rw [copyVal, if_neg inside]

theorem int32_eq {x : Int} (low : -(2 ^ 31) ≤ x) (high : x < 2 ^ 31) : int32 x = x :=
  Int.bmod_eq_of_le (by omega) (by omega)

theorem int32_ne_zero {x : Int} (low : 0 < x) (high : x ≤ 2 ^ 31) : int32 x ≠ 0 := by
  simp only [int32, Int.bmod]
  omega

theorem nodeSize_record {x : VhcallArgs} (index : 0 ≤ x.num) (small : x.num < 2 ^ 31) :
    nodeSize H x = recordSize H x.data := by
  simp only [nodeSize, recordSize, if_pos (int32_ne_zero (x := x.num + 1) (by omega) (by omega))]

theorem totalRecords_payload_succ :
    totalRecords H (payload H M (j + 1)) =
      totalRecords H (payload H M j) + recordSize H (sent H M j) := by
  simp [totalRecords, payload, List.range_succ]

theorem Represents.walking {nodes : List Nat} (object : Object s args argsNum nodes)
    (map : ∀ i : Nat, (entries s nodes).lookup (i : Int) = M i) :
    ∃ rest, Walking H M s args argsNum [] args rest 0 0 := by
  obtain ⟨rest, rfl⟩ := object.headed
  refine ⟨rest, object, ?_, rfl, fun i _ => ?_, ?_⟩
  · rw [object.headNum]
    rfl
  · rw [← map i, entries_cons, List.lookup_cons, object.headNum]
    have other : ((i : Int) == -1) = false := beq_eq_false_iff_ne.mpr (by omega)
    rw [other]
  · have notCdb : (s.node args).data.cl ≠ H.classCdb := object.headClass ▸ H.zero_ne_cdb
    simp only [nodeSize, if_neg notCdb, object.headNum]
    rfl

theorem lookup_sentEntries (i : Nat) :
    ((List.range j).map (sentEntry H M)).lookup (i : Int) =
      if i < j then some (sent H M i) else none := by
  induction j with
  | zero => rfl
  | succ k ih =>
    rw [List.range_succ, List.map_append, List.lookup_append, ih, List.map_singleton, sentEntry,
      List.lookup_cons, List.lookup_nil]
    by_cases last : i = k
    · subst last
      simp
    · have other : ((i : Int) == (k : Int)) = false := beq_eq_false_iff_ne.mpr (by omega)
      rw [other, Option.or_none]
      by_cases below : i < k
      · rw [if_pos below, if_pos (Nat.lt_succ_of_lt below)]
      · rw [if_neg below, if_neg (by omega)]

/-- The object with what the loop has inserted so far. -/
theorem Walking.represents (walking : Walking H M s args argsNum pre p post j insize) :
    Represents s args argsNum (M.filled H j) := by
  refine ⟨_, walking.object, fun i => ?_⟩
  obtain ⟨rest, split⟩ := walking.object.headed
  have shape : pre ++ p :: post = (pre ++ [p]) ++ post := by simp
  have front : (entries s (pre ++ [p])).lookup (i : Int) =
      if i < j then some (sent H M i) else none := by
    rw [← lookup_sentEntries, ← walking.done]
    cases nodes : pre ++ [p] with
    | nil => exact absurd nodes (by simp)
    | cons a more =>
      obtain rfl : a = args := by
        rw [shape, nodes] at split
        exact (List.cons.inj split).1
      rw [entries_cons, List.lookup_cons, walking.object.headNum, List.tail_cons]
      have other : ((i : Int) == -1) = false := beq_eq_false_iff_ne.mpr (by omega)
      rw [other]
  rw [shape, entries_append, List.lookup_append, front, ArgMap.filled]
  by_cases below : i < j
  · simp [below]
  · rw [if_neg below, if_neg below, Option.none_or, walking.rest i (by omega)]

theorem Walking.behind (walking : Walking H M s args argsNum pre p post j insize) :
    ∀ x ∈ post, (j : Int) ≤ (s.node x).num := by
  intro x member
  have sorted := (List.pairwise_append.mp walking.object.nums).2.1
  have above := (List.pairwise_cons.mp sorted).1 x member
  rw [walking.here] at above
  omega

theorem Walking.before (walking : Walking H M s args argsNum pre p post j insize) :
    ∀ x ∈ pre ++ [p], (s.node x).num < j := by
  intro x member
  rcases List.mem_append.mp member with before | here
  · have below := (List.pairwise_append.mp walking.object.nums).2.2 x before p List.mem_cons_self
    rw [walking.here] at below
    omega
  · rw [List.mem_singleton.mp here, walking.here]
    omega

theorem Walking.small (walking : Walking H M s args argsNum pre p post j insize)
    {a : Nat} (member : a ∈ pre ++ p :: post) : (s.node a).num < 2 ^ 31 :=
  walking.object.bound ((s.node a).num, (s.node a).data) (List.mem_map_of_mem member)

theorem Walking.link (walking : Walking H M s args argsNum pre p post j insize) :
    (s.node p).next = post.head? :=
  walking.object.chain.next_eq

theorem Walking.onto {q : Nat} (walking : Walking H M s args argsNum pre p (q :: post) j insize)
    (found : (s.node q).num = j) :
    Walking H M s args argsNum (pre ++ [p]) q post (j + 1) (insize + nodeSize H (s.node p)) := by
  have shape : pre ++ p :: q :: post = (pre ++ [p]) ++ q :: post := by simp
  have data : sent H M j = (s.node q).data := by
    rw [sent, ← walking.rest j (le_refl j), entries_cons, found, List.lookup_cons_self]
    rfl
  have some : (entries s (pre ++ [p])) ≠ [] := by simp [entries]
  constructor
  case object => exact shape ▸ walking.object
  case here =>
    rw [found]
    omega
  case done =>
    rw [entries_append, List.tail_append_of_ne_nil some, walking.done, List.range_succ,
      List.map_append, List.map_singleton, sentEntry, data, entries_cons, found]
    rfl
  case rest =>
    intro i above
    rw [← walking.rest i (by omega), entries_cons, List.lookup_cons, found]
    have other : ((i : Int) == (j : Int)) = false := beq_eq_false_iff_ne.mpr (by omega)
    rw [other]
  case counted =>
    have small := walking.small (a := q) (by simp)
    rw [walking.counted, totalRecords_payload_succ, data,
      nodeSize_record (by omega) small]

theorem Walking.insert (walking : Walking H M s args argsNum pre p post j insize)
    (gap : ∀ x ∈ post, (j : Int) < (s.node x).num) (small : j < 2 ^ 31) :
    Walking H M (s.insertData p j (fillerData H)) args argsNum (pre ++ [p]) s.fresh post (j + 1)
      (insize + nodeSize H ((s.insertData p j (fillerData H)).node p)) := by
  have shape : pre ++ p :: s.fresh :: post = (pre ++ [p]) ++ s.fresh :: post := by simp
  have fresh := walking.object.chain.fresh_notMem
  have old : p ≠ s.fresh := fun same => fresh (by simp [← same])
  have absent : M j = none := by
    rw [← walking.rest j (le_refl j)]
    refine SortedEntries.lookup_none (List.forall_mem_map.mpr (fun x member => ?_))
    exact ne_of_gt (gap x member)
  have filler : sent H M j = fillerData H := by
    rw [sent, absent]
    rfl
  have notFresh : ∀ b ∈ pre ++ p :: post, b ≠ s.fresh := fun b member same => fresh (same ▸ member)
  have front : entries (s.insertData p j (fillerData H)) (pre ++ [p]) = entries s (pre ++ [p]) := by
    refine entries_insertData_old (fun b member => notFresh b ?_)
    simp only [List.mem_append, List.mem_cons] at member ⊢
    tauto
  have back : entries (s.insertData p j (fillerData H)) post = entries s post := by
    refine entries_insertData_old (fun b member => notFresh b ?_)
    exact List.mem_append_right pre (List.mem_cons_of_mem p member)
  have some : (entries s (pre ++ [p])) ≠ [] := by simp [entries]
  have new : (s.insertData p j (fillerData H)).node s.fresh =
      { num := j, data := fillerData H, next := (s.node p).next, argsNum := 0 } :=
    Heap.insertData_fresh old
  have number : ((s.insertData p j (fillerData H)).node s.fresh).num = j := by rw [new]
  have same : nodeSize H ((s.insertData p j (fillerData H)).node p) = nodeSize H (s.node p) := by
    rw [Heap.insertData_self]
    rfl
  constructor
  case object => exact shape ▸ walking.object.insertData walking.before gap (by omega)
  case here =>
    rw [number]
    omega
  case done =>
    rw [entries_append, List.tail_append_of_ne_nil (front ▸ some), front, walking.done,
      List.range_succ, List.map_append, List.map_singleton, sentEntry, filler, entries_cons, new]
    rfl
  case rest =>
    intro i above
    rw [back, walking.rest i (by omega)]
  case counted =>
    have record : nodeSize H ((s.insertData p j (fillerData H)).node s.fresh) =
        recordSize H (fillerData H) := by
      rw [nodeSize_record (by omega) (by omega), new]
    rw [same, walking.counted, totalRecords_payload_succ, filler, record]

/-! ## The tests on one node -/

theorem toInt_index {i : Nat} (small : i < 2 ^ 31) : (BitVec.ofInt 32 (i : Int)).toInt = i := by
  rw [BitVec.toInt_ofInt]
  exact int32_eq (by omega) (by omega)

theorem Walking.setU64 (walking : Walking H M s args argsNum pre p post j insize)
    (gap : ∀ x ∈ post, (j : Int) < (s.node x).num) (small : j < 2 ^ 31) :
    vhcallArgsSetU64 H s (some args) (BitVec.ofInt 32 j) 0 =
      if s.grants s.fresh then
        some { ret := 0, errno := none, heap := s.insertData p j (fillerData H) }
      else some { ret := -1, errno := some enomem, heap := s.tried } := by
  have accepted : Accepted H H.intentIn (j : Int) := ⟨by omega, le_refl _, H.in_le_out⟩
  rw [vhcallArgsSetU64, vhcallArgsSetVal, toInt_index small]
  exact walking.object.vhcallArgsSet_new accepted walking.before gap

theorem Walking.follow (walking : Walking H M s args argsNum pre p post j insize)
    (small : j < 2 ^ 31) : int32 ((s.node p).num + 1) = j := by
  rw [walking.here, Int.sub_add_cancel]
  exact int32_eq (by omega) (by omega)

/-- The tests when the number of arguments was given, up to that number. -/
theorem Walking.validateNode_count {n : Nat}
    (walking : Walking H M s args n pre p post j insize) (small : n < 2 ^ 31) (inside : j ≤ n)
    {q : Option Nat} (link : (s.node p).next = q) :
    validateNode H s args n p =
      if (∃ a, q = some a ∧ (s.node a).num = j) ∨ (q = none ∧ j = n) then some (.goesOn, s)
      else (vhcallArgsSetU64 H s (some args) (BitVec.ofInt 32 j) 0).map
        fun set => (if set.ret ≠ 0 then .refused set.errno else .goesOn, set.heap) := by
  have counted : (n : Int) ≠ -1 := by omega
  have notBeyond : ¬(j : Int) > n := by omega
  simp only [validateNode, walking.follow (by omega), if_pos counted, if_neg notBeyond, link]
  have bound : ∀ set : Option CallReturn, (set >>= fun set =>
      some (if set.ret ≠ 0 then Validated.refused set.errno else .goesOn, set.heap)) =
        set.map fun set => (if set.ret ≠ 0 then .refused set.errno else .goesOn, set.heap) := by
    intro set
    cases set <;> rfl
  cases q with
  | none =>
    dsimp only
    by_cases last : j = n
    · rw [if_neg (by omega), if_pos (.inr ⟨rfl, last⟩)]
    · rw [if_pos (by omega), if_neg (by simpa using last)]
      exact bound _
  | some a =>
    dsimp only
    by_cases found : (s.node a).num = j
    · rw [if_neg (not_not.mpr found.symm), if_pos (.inl ⟨a, rfl, found⟩)]
    · rw [if_pos (Ne.symm found), if_neg (by simpa using found)]
      exact bound _

/-- The loop goes on to number `j`, which it may have to insert, if there is memory for it. -/
theorem Walking.advance {n : Nat} (walking : Walking H M s args n pre p post j insize)
    (small : n < 2 ^ 31) (inside : j ≤ n) (more : post = [] → j < n) :
    (∃ s' q post', validateNode H s args n p = some (.goesOn, s') ∧ (s'.node p).next = some q ∧
      Walking H M s' args n (pre ++ [p]) q post' (j + 1) (insize + nodeSize H (s'.node p)) ∧
      s'.grants = s.grants ∧ s.fresh ≤ s'.fresh) ∨
    (s.grants s.fresh = false ∧
      validateNode H s args n p = some (.refused (some enomem), s.tried)) := by
  have node := walking.validateNode_count small inside walking.link
  by_cases found : ∃ q rest, post = q :: rest ∧ (s.node q).num = j
  · obtain ⟨q, rest, rfl, here⟩ := found
    rw [if_pos (.inl ⟨q, rfl, here⟩)] at node
    exact .inl ⟨s, q, rest, node, walking.link, walking.onto here, rfl, le_rfl⟩
  · have missing : ¬((∃ a, post.head? = some a ∧ (s.node a).num = j) ∨
        (post.head? = none ∧ j = n)) := by
      rintro (⟨a, head, here⟩ | ⟨empty, last⟩)
      · obtain ⟨rest, rfl⟩ := List.head?_eq_some_iff.mp head
        exact found ⟨a, rest, rfl, here⟩
      · exact absurd last (Nat.ne_of_lt (more (List.head?_eq_none_iff.mp empty)))
    have gap : ∀ x ∈ post, (j : Int) < (s.node x).num := by
      cases post with
      | nil => simp
      | cons q rest =>
        have first : (j : Int) < (s.node q).num :=
          lt_of_le_of_ne (walking.behind q List.mem_cons_self)
            (fun same => found ⟨q, rest, rfl, same.symm⟩)
        have tail := (List.pairwise_append.mp walking.object.nums).2.1
        have later := (List.pairwise_cons.mp (List.pairwise_cons.mp tail).2).1
        intro x member
        rcases List.mem_cons.mp member with rfl | after
        · exact first
        · exact first.trans (later x after)
    rw [if_neg missing, walking.setU64 gap (by omega)] at node
    cases granted : s.grants s.fresh with
    | true =>
      rw [granted, if_pos rfl] at node
      refine .inl ⟨_, s.fresh, post, node, ?_, walking.insert gap (by omega), rfl, Nat.le_succ _⟩
      rw [Heap.insertData_self]
    | false =>
      rw [granted, if_neg Bool.false_ne_true] at node
      exact .inr ⟨rfl, node⟩

theorem Walking.validateNode_beyond {n : Nat}
    (walking : Walking H M s args n pre p post (n + 1) insize) (small : n < 2 ^ 31) :
    validateNode H s args n p = some (.refused (some einval), s) := by
  have counted : (n : Int) ≠ -1 := by omega
  by_cases wraps : n + 1 < 2 ^ 31
  · have beyond : ((n + 1 : Nat) : Int) > n := by omega
    simp only [validateNode, walking.follow wraps, if_pos counted, if_pos beyond]
  · -- p->num + 1 is the smallest int, with which vhcall_args_set_u64 fails
    have top : n + 1 = 2 ^ 31 := by omega
    have follow : int32 ((s.node p).num + 1) = -(2 ^ 31) := by
      rw [walking.here, Int.sub_add_cancel, top]
      rfl
    have notBeyond : ¬(-(2 ^ 31) : Int) > n := by omega
    have last : (s.node p).next = none := by
      rw [walking.link]
      cases post with
      | nil => rfl
      | cons q rest =>
        have above := walking.behind q List.mem_cons_self
        have bound := walking.small (a := q) (by simp)
        omega
    have negative : ¬Accepted H H.intentIn (-(2 ^ 31)) :=
      fun accepted => absurd accepted.1 (by omega)
    have number : (BitVec.ofInt 32 (-(2 ^ 31))).toInt = -(2 ^ 31) := by decide
    have fails : vhcallArgsSetU64 H s (some args) (BitVec.ofInt 32 (-(2 ^ 31))) 0 =
        some { ret := -1, errno := some einval, heap := s } := by
      rw [vhcallArgsSetU64, vhcallArgsSetVal, number]
      exact vhcallArgsSet_rejected negative
    have under : (-(2 ^ 31) : Int) < n := by omega
    simp only [validateNode, follow, if_pos counted, if_neg notBeyond, last, if_pos under, fails]
    rfl

/-! ## The whole loop -/

/-- The object has the arguments below `m`, and only these. -/
def Complete (H : VhcallH) (M : ArgMap) (s : Heap) (args : Nat) (argsNum : Int) (m : Nat) : Prop :=
  ∃ rest, Object s args argsNum (args :: rest) ∧
    entries s rest = (List.range m).map (sentEntry H M)

theorem Walking.complete (walking : Walking H M s args argsNum pre p [] j insize) :
    Complete H M s args argsNum j := by
  obtain ⟨rest, split⟩ := walking.object.headed
  refine ⟨rest, split ▸ walking.object, ?_⟩
  have done := walking.done
  rw [split] at done
  exact done

theorem Walking.absent (walking : Walking H M s args argsNum pre p [] j insize) {i : Nat}
    (above : j ≤ i) : M i = none :=
  (walking.rest i above).symm

theorem Walking.present {q : Nat}
    (walking : Walking H M s args argsNum pre p (q :: post) j insize) :
    ∃ i, j ≤ i ∧ (s.node q).num = i ∧ M i ≠ none := by
  have above := walking.behind q List.mem_cons_self
  obtain ⟨i, number⟩ := Int.eq_ofNat_of_zero_le (by omega : 0 ≤ (s.node q).num)
  refine ⟨i, by omega, number, ?_⟩
  rw [← walking.rest i (by omega), entries_cons, number, List.lookup_cons_self]
  simp

variable {fuel : Nat}

theorem validateLoop_goesOn {s' : Heap} (node : validateNode H s args argsNum p =
    some (.goesOn, s')) :
    validateLoop H args argsNum (fuel + 1) s (some p) insize =
      validateLoop H args argsNum fuel s' (s'.node p).next (insize + nodeSize H (s'.node p)) := by
  rw [validateLoop, node]

theorem validateLoop_refused {s' : Heap} {errno : Option Int}
    (node : validateNode H s args argsNum p = some (.refused errno, s')) :
    validateLoop H args argsNum (fuel + 1) s (some p) insize = some (s', .error errno) := by
  rw [validateLoop, node]

theorem validateLoop_end :
    validateLoop H args argsNum fuel s none insize = some (s, .ok insize) := by
  cases fuel <;> rfl

/-- How far the loop comes: one too far when the call fails. -/
structure Reached (argsNum : Int) (M : ArgMap) (m : Nat) (fails : Prop) (j : Nat) : Prop where
  le : j ≤ m ∨ fails ∧ j = m + 1
  plain : argsNum = -1 → ∀ i, i < j → M i ≠ none

/-- The last allocation between the two heaps fails. -/
def Heap.LastFails (s s' : Heap) : Prop :=
  ∃ k, s.fresh ≤ k ∧ s'.fresh = k + 1 ∧ s.grants k = false

theorem Heap.tried_lastFails (refused : s.grants s.fresh = false) : s.LastFails s.tried :=
  ⟨s.fresh, le_rfl, rfl, refused⟩

theorem Heap.LastFails.earlier {s₁ s' : Heap} (lacks : s₁.LastFails s')
    (grants : s₁.grants = s.grants) (fresh : s.fresh ≤ s₁.fresh) : s.LastFails s' := by
  obtain ⟨k, tried, last, refused⟩ := lacks
  exact ⟨k, fresh.trans tried, last, grants ▸ refused⟩

/-- How the loop ends: the object is complete, the call is refused, or memory was short. -/
inductive Validation (H : VhcallH) (M : ArgMap) (s : Heap) (args : Nat) (argsNum : Int)
    (outcome : Option (Heap × Except (Option Int) Nat)) (m : Nat) (fails : Prop) : Prop
  | complete (s' : Heap) (ok : ¬fails)
      (done : outcome = some (s', .ok (totalRecords H (payload H M m))))
      (complete : Complete H M s' args argsNum m) (rep : Represents s' args argsNum (M.filled H m))
      (reached : Reached argsNum M m fails m) (grants : s'.grants = s.grants)
      (fresh : s.fresh ≤ s'.fresh)
  | refused (s' : Heap) (j : Nat) (failed : fails)
      (done : outcome = some (s', .error (some einval)))
      (reached : Reached argsNum M m fails j) (rep : Represents s' args argsNum (M.filled H j))
      (grants : s'.grants = s.grants)
  | noMemory (s' : Heap) (j : Nat) (lacks : s.LastFails s')
      (done : outcome = some (s', .error (some enomem)))
      (reached : Reached argsNum M m fails j) (rep : Represents s' args argsNum (M.filled H j))
      (grants : s'.grants = s.grants)

theorem Validation.earlier {s₁ : Heap} {outcome outcome' : Option (Heap × Except (Option Int) Nat)}
    {m : Nat} {fails : Prop} (later : Validation H M s₁ args argsNum outcome m fails)
    (grants : s₁.grants = s.grants) (fresh : s.fresh ≤ s₁.fresh) (same : outcome' = outcome) :
    Validation H M s args argsNum outcome' m fails := by
  subst same
  cases later with
  | complete s' ok done complete rep reached grants' fresh' =>
    exact .complete s' ok done complete rep reached (grants'.trans grants) (fresh.trans fresh')
  | refused s' j fails done reached rep grants' =>
    exact .refused s' j fails done reached rep (grants'.trans grants)
  | noMemory s' j lacks done reached rep grants' =>
    exact .noMemory s' j (lacks.earlier grants fresh) done reached rep (grants'.trans grants)

theorem Walking.validate_count {n k : Nat} (walking : Walking H M s args n pre p post j insize)
    (small : n < 2 ^ 31) (left : n = j + k) (enough : k + 2 ≤ fuel) :
    Validation H M s args n (validateLoop H args n fuel s (some p) insize) n
      (∃ i, n ≤ i ∧ M i ≠ none) := by
  have counted : ∀ {P : Prop}, (n : Int) = -1 → P := fun same => absurd same (by omega)
  induction k generalizing s pre p post j insize fuel with
  | zero =>
    obtain ⟨fuel, rfl⟩ := Nat.exists_eq_add_of_le' (by omega : 2 ≤ fuel)
    obtain rfl : n = j := left
    cases post with
    | nil =>
      have node := walking.validateNode_count small (le_refl n) walking.link
      rw [if_pos (.inr ⟨rfl, rfl⟩)] at node
      refine .complete s ?_ ?_ walking.complete walking.represents ⟨.inl le_rfl, counted⟩ rfl
        le_rfl
      · rintro ⟨i, above, some⟩
        exact some (walking.absent above)
      · rw [validateLoop_goesOn node, walking.link, List.head?_nil, validateLoop_end,
          walking.counted]
    | cons q rest =>
      -- the node of number n, found or inserted, is refused
      obtain ⟨i, above, _, present⟩ := walking.present
      rcases walking.advance small (le_refl n) (fun empty => absurd empty (by simp)) with
        ⟨s', q', post', node, link, walking', grants, _⟩ | ⟨lacks, node⟩
      · refine .refused s' (n + 1) ⟨i, above, present⟩ ?_
          ⟨.inr ⟨⟨i, above, present⟩, rfl⟩, counted⟩ walking'.represents grants
        rw [validateLoop_goesOn node, link,
          validateLoop_refused (walking'.validateNode_beyond small)]
      · exact .noMemory s.tried n (Heap.tried_lastFails lacks) (validateLoop_refused node)
          ⟨.inl le_rfl, counted⟩ walking.represents.tried rfl
  | succ k ih =>
    obtain ⟨fuel, rfl⟩ := Nat.exists_eq_add_of_le' (by omega : 1 ≤ fuel)
    rcases walking.advance small (by omega) (fun _ => by omega) with
      ⟨s', q, post', node, link, walking', grants, fresh⟩ | ⟨lacks, node⟩
    · have later := ih walking' (by omega) (by omega : k + 2 ≤ fuel)
      refine later.earlier grants fresh ?_
      rw [validateLoop_goesOn node, link]
    · exact .noMemory s.tried j (Heap.tried_lastFails lacks) (validateLoop_refused node)
        ⟨.inl (by omega), counted⟩ walking.represents.tried rfl

theorem Walking.validateNode_found {q : Nat}
    (walking : Walking H M s args (-1) pre p (q :: post) j insize) :
    validateNode H s args (-1) p =
      if (s.node q).num = j then some (.goesOn, s) else some (.refused (some einval), s) := by
  have above := walking.behind q List.mem_cons_self
  have bound := walking.small (a := q) (by simp)
  have link : (s.node p).next = some q := walking.link
  simp only [validateNode, walking.follow (by omega), link]
  by_cases found : (s.node q).num = j
  · simp [found]
  · simp [found, Ne.symm found]

theorem Walking.validate_plain (walking : Walking H M s args (-1) pre p post j insize)
    (present : ∀ i, i < j → M i ≠ none) (enough : post.length + 1 ≤ fuel) :
    ∃ m, Validation H M s args (-1) (validateLoop H args (-1) fuel s (some p) insize) m
      (¬∃ m, ∀ i, M i ≠ none ↔ i < m) ∧
        ((∃ m, ∀ i, M i ≠ none ↔ i < m) → ∀ i, M i ≠ none ↔ i < m) := by
  induction post generalizing pre p j insize fuel with
  | nil =>
    obtain ⟨fuel, rfl⟩ := Nat.exists_eq_add_of_le' enough
    have domain : ∀ i, M i ≠ none ↔ i < j := by
      refine fun i => ⟨fun some => ?_, present i⟩
      by_contra above
      exact some (walking.absent (not_lt.mp above))
    refine ⟨j, .complete s (not_not.mpr ⟨j, domain⟩) ?_ walking.complete walking.represents
      ⟨.inl le_rfl, fun _ => present⟩ rfl le_rfl, fun _ => domain⟩
    · have link : (s.node p).next = none := walking.link
      have node : validateNode H s args (-1) p = some (.goesOn, s) := by
        simp [validateNode, link]
      simp only [List.length_nil, Nat.zero_add]
      rw [validateLoop_goesOn node, link, validateLoop_end, walking.counted]
  | cons q rest ih =>
    obtain ⟨fuel, rfl⟩ := Nat.exists_eq_add_of_le' (by omega : 1 ≤ fuel)
    have node := walking.validateNode_found
    have link : (s.node p).next = some q := walking.link
    by_cases found : (s.node q).num = j
    · rw [if_pos found] at node
      have here : M j ≠ none := by
        obtain ⟨i, above, number, some⟩ := walking.present
        obtain rfl : i = j := by omega
        exact some
      have present' : ∀ i, i < j + 1 → M i ≠ none := by
        intro i below
        rcases Nat.lt_succ_iff_lt_or_eq.mp below with earlier | rfl
        · exact present i earlier
        · exact here
      rw [List.length_cons] at enough
      obtain ⟨m, later, domain⟩ := ih (walking.onto found) present'
        (by omega : rest.length + 1 ≤ fuel)
      refine ⟨m, later.earlier rfl le_rfl ?_, domain⟩
      rw [validateLoop_goesOn node, link]
    · rw [if_neg found] at node
      have broken : ¬∃ m, ∀ i, M i ≠ none ↔ i < m := ?gap
      refine ⟨j, .refused s j broken (validateLoop_refused node)
        ⟨.inl le_rfl, fun _ => present⟩ walking.represents rfl, fun domain => absurd domain broken⟩
      rintro ⟨m, all⟩
      obtain ⟨i, above, number, some⟩ := walking.present
      have missing : M j = none := by
        rw [← walking.rest j (le_refl j), entries_cons, List.lookup_cons]
        have other : ((j : Int) == (s.node q).num) = false :=
          beq_eq_false_iff_ne.mpr (Ne.symm found)
        rw [other]
        refine SortedEntries.lookup_none (List.forall_mem_map.mpr (fun x member => ?_))
        have tail := (List.pairwise_append.mp walking.object.nums).2.1
        have later := (List.pairwise_cons.mp (List.pairwise_cons.mp tail).2).1 x member
        omega
      exact ((all j).mpr (by have := (all i).mp some; omega)) missing

end Libsysve.Vhcall
