import Libsysve.Library.LinkedList

/-!
# Doubly linked lists with a sentinel

The cells of `LinkedList`, each with a link back: to the cell before it, named by `ref`, or,
for the first cell, to the sentinel `top`.  A list grows at its front and shrinks anywhere.
-/

set_option autoImplicit false

namespace Libsysve.LinkedList

universe u v

variable {Cell : Type u} {Ref : Type v} (next : Cell → Option Nat) (prev : Cell → Option Ref)
  (ref : Nat → Ref)

/-- Every cell links back to the one before it, the first one to `before`. -/
def Backed (cells : Nat → Cell) : Ref → List Nat → Prop
  | _, [] => True
  | before, a :: rest => prev (cells a) = some before ∧ Backed cells (ref a) rest

/-- What comes before the cells that follow `addrs`. -/
def lastRef (before : Ref) (addrs : List Nat) : Ref := (addrs.getLast?.map ref).getD before

structure DoublyLinked (top : Ref) (cells : Nat → Cell) (start : Option Nat)
    (addrs : List Nat) : Prop where
  start : start = addrs.head?
  linked : Linked next cells addrs none
  backed : Backed prev ref cells top addrs
  nodup : addrs.Nodup

variable {next prev ref} {cells cells' : Nat → Cell} {top before : Ref} {start : Option Nat}
  {addrs pre post : List Nat} {a : Nat}

theorem lastRef_cons : lastRef ref before (a :: addrs) = lastRef ref (ref a) addrs := by
  cases last : addrs.getLast? with
  | none => simp [lastRef, List.getLast?_cons, last]
  | some b => simp [lastRef, List.getLast?_cons, last]

theorem backed_append :
    Backed prev ref cells before (pre ++ post) ↔
      Backed prev ref cells before pre ∧ Backed prev ref cells (lastRef ref before pre) post := by
  induction pre generalizing before with
  | nil => simp [Backed, lastRef]
  | cons a pre ih =>
    simp only [List.cons_append, Backed, ih, lastRef_cons, and_assoc]

theorem Backed.congr (backed : Backed prev ref cells before addrs)
    (same : ∀ b ∈ addrs, prev (cells' b) = prev (cells b)) :
    Backed prev ref cells' before addrs := by
  induction addrs generalizing before with
  | nil => trivial
  | cons b addrs ih =>
    refine ⟨(same b List.mem_cons_self).trans backed.1, ih backed.2 ?_⟩
    exact fun c later => same c (List.mem_cons_of_mem b later)

theorem DoublyLinked.congr (list : DoublyLinked next prev ref top cells start addrs)
    (same : ∀ b ∈ addrs, next (cells' b) = next (cells b) ∧ prev (cells' b) = prev (cells b)) :
    DoublyLinked next prev ref top cells' start addrs where
  start := list.start
  linked := list.linked.congr fun b member => (same b member).1
  backed := list.backed.congr fun b member => (same b member).2
  nodup := list.nodup

theorem DoublyLinked.next_eq
    (list : DoublyLinked next prev ref top cells start (pre ++ a :: post)) :
    next (cells a) = post.head? := by
  have linked := (linked_append.mp list.linked).2
  rw [linked.1, Option.or_none]

theorem DoublyLinked.prev_eq
    (list : DoublyLinked next prev ref top cells start (pre ++ a :: post)) :
    prev (cells a) = some (lastRef ref top pre) :=
  (backed_append.mp list.backed).2.1

theorem DoublyLinked.notMem
    (list : DoublyLinked next prev ref top cells start (pre ++ a :: post)) : a ∉ pre ++ post :=
  (List.nodup_cons.mp (List.nodup_middle.mp list.nodup)).1

/-! ### A cell is put in front -/

theorem Backed.pushed (backed : Backed prev ref cells top addrs) (nodup : addrs.Nodup)
    (prevs : ∀ b ∈ addrs, prev (cells' b) =
      if addrs.head? = some b then some (ref a) else prev (cells b)) :
    Backed prev ref cells' (ref a) addrs := by
  cases addrs with
  | nil => trivial
  | cons b rest =>
    refine ⟨(prevs b List.mem_cons_self).trans (if_pos rfl), backed.2.congr ?_⟩
    intro c later
    have other : (b :: rest).head? ≠ some c := by
      rintro ⟨⟩
      exact (List.nodup_cons.mp nodup).1 later
    rw [prevs c (List.mem_cons_of_mem b later), if_neg other]

theorem DoublyLinked.push (list : DoublyLinked next prev ref top cells start addrs)
    (new : a ∉ addrs) (forth : next (cells' a) = start) (back : prev (cells' a) = some top)
    (nexts : ∀ b ∈ addrs, next (cells' b) = next (cells b))
    (prevs : ∀ b ∈ addrs, prev (cells' b) =
      if addrs.head? = some b then some (ref a) else prev (cells b)) :
    DoublyLinked next prev ref top cells' (some a) (a :: addrs) where
  start := rfl
  linked := by
    refine ⟨?_, list.linked.congr nexts⟩
    rw [forth, list.start, Option.or_none]
  backed := ⟨back, list.backed.pushed list.nodup prevs⟩
  nodup := List.nodup_cons.mpr ⟨new, list.nodup⟩

/-! ### A cell is taken out -/

theorem Linked.relinked {last last' : Option Nat} (linked : Linked next cells pre last)
    (nodup : pre.Nodup)
    (nexts : ∀ b ∈ pre, next (cells' b) =
      if pre.getLast? = some b then last' else next (cells b)) :
    Linked next cells' pre last' := by
  induction pre with
  | nil => trivial
  | cons b rest ih =>
    obtain ⟨here, later⟩ := linked
    obtain ⟨new, nodup⟩ := List.nodup_cons.mp nodup
    cases rest with
    | nil => exact ⟨(nexts b List.mem_cons_self).trans (if_pos rfl), trivial⟩
    | cons c rest =>
      have other : (b :: c :: rest).getLast? ≠ some b := by
        intro same
        rw [List.getLast?_cons_cons] at same
        exact new (List.mem_of_getLast? same)
      refine ⟨?_, ih later nodup ?_⟩
      · rw [nexts b List.mem_cons_self, if_neg other, here]
        rfl
      · intro d member
        rw [nexts d (List.mem_cons_of_mem b member), List.getLast?_cons_cons]

theorem DoublyLinked.remove
    (list : DoublyLinked next prev ref top cells start (pre ++ a :: post))
    (start' : Option Nat) (starts : start' = (pre ++ post).head?)
    (nexts : ∀ b ∈ pre ++ post, next (cells' b) =
      if pre.getLast? = some b then post.head? else next (cells b))
    (prevs : ∀ b ∈ pre ++ post, prev (cells' b) =
      if post.head? = some b then prev (cells a) else prev (cells b)) :
    DoublyLinked next prev ref top cells' start' (pre ++ post) := by
  have parts := List.nodup_cons.mp (List.nodup_middle.mp list.nodup)
  obtain ⟨preNodup, postNodup, apart⟩ := List.nodup_append.mp parts.2
  obtain ⟨linkedPre, _, linkedPost⟩ := linked_append.mp list.linked
  obtain ⟨backedPre, _, backedPost⟩ := backed_append.mp list.backed
  refine ⟨starts, linked_append.mpr ⟨?_, ?_⟩, backed_append.mpr ⟨?_, ?_⟩, parts.2⟩
  · rw [Option.or_none]
    exact linkedPre.relinked preNodup fun b member => nexts b (List.mem_append_left post member)
  · refine linkedPost.congr fun b member => ?_
    have other : pre.getLast? ≠ some b :=
      fun last => apart b (List.mem_of_getLast? last) b member rfl
    rw [nexts b (List.mem_append_right pre member), if_neg other]
  · refine backedPre.congr fun b member => ?_
    have other : post.head? ≠ some b :=
      fun first => apart b member b (List.mem_of_head? first) rfl
    rw [prevs b (List.mem_append_left post member), if_neg other]
  · have back := list.prev_eq
    cases post with
    | nil => trivial
    | cons c rest =>
      refine ⟨?_, backedPost.2.congr fun b member => ?_⟩
      · have first := prevs c (List.mem_append_right pre List.mem_cons_self)
        rw [List.head?_cons, if_pos rfl] at first
        exact first.trans back
      · have other : (c :: rest).head? ≠ some b := by
          rintro ⟨⟩
          exact (List.nodup_cons.mp postNodup).1 member
        rw [prevs b (List.mem_append_right pre (List.mem_cons_of_mem c member)), if_neg other]

end Libsysve.LinkedList
