import Mathlib.Data.List.Nodup
import Mathlib.Data.Finset.Card
import Mathlib.Data.Finset.Range
import Mathlib.Logic.Function.Basic

/-!
# Singly linked lists in a heap of cells

`Chain next cells fresh addrs` says that the cells at `addrs`, distinct and allocated below
`fresh`, are linked in this order and that the last one ends the list.  The lemmas read the
link of a cell from the list of addresses and insert a new cell behind any cell.
-/

set_option autoImplicit false

namespace Libsysve.LinkedList

universe u

variable {Cell : Type u} (next : Cell → Option Nat)

/-- Every cell links to the next one of the list, the last one to `last`. -/
def Linked (cells : Nat → Cell) : List Nat → Option Nat → Prop
  | [], _ => True
  | a :: rest, last => next (cells a) = rest.head?.or last ∧ Linked cells rest last

structure Chain (cells : Nat → Cell) (fresh : Nat) (addrs : List Nat) : Prop where
  linked : Linked next cells addrs none
  nodup : addrs.Nodup
  below : ∀ a ∈ addrs, a < fresh

variable {next} {cells cells' : Nat → Cell} {fresh : Nat} {addrs pre post : List Nat} {a : Nat}

theorem linked_append {rest : List Nat} {last : Option Nat} :
    Linked next cells (addrs ++ rest) last ↔
      Linked next cells addrs (rest.head?.or last) ∧ Linked next cells rest last := by
  induction addrs with
  | nil => simp [Linked]
  | cons b addrs ih =>
    simp only [List.cons_append, Linked, ih, List.head?_append, Option.or_assoc, and_assoc]

theorem Linked.congr {last : Option Nat} (linked : Linked next cells addrs last)
    (same : ∀ b ∈ addrs, next (cells' b) = next (cells b)) :
    Linked next cells' addrs last := by
  induction addrs with
  | nil => trivial
  | cons b addrs ih =>
    refine ⟨(same b List.mem_cons_self).trans linked.1, ih linked.2 ?_⟩
    exact fun c later => same c (List.mem_cons_of_mem b later)

/-- The links from one cell on determine the list. -/
theorem Linked.unique {addrs' : List Nat} (linked : Linked next cells addrs none)
    (linked' : Linked next cells addrs' none) (first : addrs.head? = addrs'.head?) :
    addrs = addrs' := by
  induction addrs generalizing addrs' with
  | nil => exact (List.head?_eq_none_iff.mp first.symm).symm
  | cons b rest ih =>
    obtain ⟨rest', rfl⟩ := List.head?_eq_some_iff.mp first.symm
    have behind : rest.head? = rest'.head? := by
      rw [← Option.or_none (o := rest.head?), ← linked.1, linked'.1, Option.or_none]
    rw [ih linked.2 linked'.2 behind]

theorem Chain.next_eq (chain : Chain next cells fresh (pre ++ a :: post)) :
    next (cells a) = post.head? := by
  have linked := (linked_append.mp chain.linked).2
  rw [linked.1, Option.or_none]

theorem Chain.congr (chain : Chain next cells fresh addrs)
    (same : ∀ b ∈ addrs, next (cells' b) = next (cells b)) : Chain next cells' fresh addrs :=
  ⟨chain.linked.congr same, chain.nodup, chain.below⟩

theorem Chain.mono {fresh' : Nat} (chain : Chain next cells fresh addrs) (more : fresh ≤ fresh') :
    Chain next cells fresh' addrs :=
  ⟨chain.linked, chain.nodup, fun b member => lt_of_lt_of_le (chain.below b member) more⟩

theorem Chain.length_le (chain : Chain next cells fresh addrs) : addrs.length ≤ fresh := by
  have inside : addrs.toFinset ⊆ Finset.range fresh := by
    intro b member
    exact Finset.mem_range.mpr (chain.below b (List.mem_toFinset.mp member))
  have count := Finset.card_le_card inside
  rwa [List.toFinset_card_of_nodup chain.nodup, Finset.card_range] at count

theorem Chain.fresh_notMem (chain : Chain next cells fresh addrs) : fresh ∉ addrs :=
  fun member => Nat.lt_irrefl fresh (chain.below fresh member)

theorem Chain.ne_of_split (chain : Chain next cells fresh (pre ++ a :: post)) :
    a ∉ pre ∧ a ∉ post := by
  have parts := List.nodup_middle.mp chain.nodup
  have out := (List.nodup_cons.mp parts).1
  exact ⟨fun member => out (List.mem_append_left post member),
    fun member => out (List.mem_append_right pre member)⟩

/-- A new cell that is linked in behind the cell `a`. -/
theorem Chain.insert (chain : Chain next cells fresh (pre ++ a :: post))
    (here : next (cells' a) = some fresh) (there : next (cells' fresh) = next (cells a))
    (same : ∀ b ∈ pre ++ post, next (cells' b) = next (cells b)) :
    Chain next cells' (fresh + 1) (pre ++ a :: fresh :: post) where
  linked := by
    obtain ⟨before, link, after⟩ := linked_append.mp chain.linked
    have preSame : ∀ b ∈ pre, next (cells' b) = next (cells b) :=
      fun b member => same b (List.mem_append_left post member)
    have postSame : ∀ b ∈ post, next (cells' b) = next (cells b) :=
      fun b member => same b (List.mem_append_right pre member)
    exact linked_append.mpr ⟨before.congr preSame, here, there.trans link, after.congr postSame⟩
  nodup := by
    have out := chain.fresh_notMem
    have moved : (pre ++ a :: fresh :: post).Perm (fresh :: (pre ++ a :: post)) := by
      have front : pre ++ a :: fresh :: post = (pre ++ [a]) ++ fresh :: post := by simp
      have back : pre ++ a :: post = (pre ++ [a]) ++ post := by simp
      rw [front, back]
      exact List.perm_middle
    exact moved.nodup_iff.mpr (List.nodup_cons.mpr ⟨out, chain.nodup⟩)
  below := by
    intro b member
    have cases : b = fresh ∨ b ∈ pre ++ a :: post := by
      simp only [List.mem_append, List.mem_cons] at member ⊢
      tauto
    rcases cases with rfl | old
    · exact Nat.lt_succ_self _
    · exact Nat.lt_succ_of_lt (chain.below b old)

end Libsysve.LinkedList
