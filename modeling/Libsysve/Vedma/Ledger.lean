import Libsysve.Vedma.Ring

/-!
# What happened to the DMA requests of a run

An observer numbers the requests as they are started and records for each one who owns it,
the exception code the hardware gave it and the value that was returned for it.
-/

set_option autoImplicit false

namespace Libsysve.Vedma

inductive Owner (Handle Thread : Type) where
  | handle (h : Handle)
  | thread (t : Thread)
deriving DecidableEq, Repr

/-- Requests are numbered from 0; `slotReq i` is the last one started in descriptor `i`,
`latest h` that of handle `h` and `own t` that of thread `t`. -/
structure Ledger (Handle Thread : Type) where
  started : Nat
  slotReq : DescIndex → Option Nat
  owner : Nat → Option (Owner Handle Thread)
  latest : Handle → Option Nat
  own : Thread → Option Nat
  code : Nat → Option Int
  result : Nat → Option Int

variable {Handle Thread : Type}

namespace Ledger

def blank : Ledger Handle Thread where
  started := 0
  slotReq _ := none
  owner _ := none
  latest _ := none
  own _ := none
  code _ := none
  result _ := none

/-- The value a call has returned for request `r`; the first one stays. -/
def deliver (L : Ledger Handle Thread) (r : Nat) (v : Int) : Ledger Handle Thread :=
  { L with result := Function.update L.result r (some ((L.result r).getD v)) }

/-- The request in descriptor `i` gets its exception code. -/
def complete (L : Ledger Handle Thread) (i : DescIndex) (word : BitVec 64) :
    Ledger Handle Thread :=
  { L with code := fun r => if L.slotReq i = some r then some (exception word) else L.code r }

variable [DecidableEq Handle] [DecidableEq Thread]

/-- A new request in descriptor `i`. -/
def start (L : Ledger Handle Thread) (i : DescIndex) (o : Owner Handle Thread) :
    Ledger Handle Thread :=
  { L with
    started := L.started + 1
    slotReq := Function.update L.slotReq i (some L.started)
    owner := Function.update L.owner L.started (some o)
    latest := match o with
      | .handle h => Function.update L.latest h (some L.started)
      | .thread _ => L.latest
    own := match o with
      | .handle _ => L.own
      | .thread t => Function.update L.own t (some L.started) }

def observe (L : Ledger Handle Thread) (e : DmaEntry Handle Thread) : Ledger Handle Thread :=
  match e.label, e.out with
  | .post _ _ _ h, some ret => if ret = 0 then L.start e.before.vedmaIndex (.handle h) else L
  | .postWait t _ _ _, _ => L.start e.before.vedmaIndex (.thread t)
  | .poll h, some ret =>
    match L.latest h with
    | some r => if 0 ≤ ret then L.deliver r ret else L
    | none => L
  | .clearReturn t, some ret =>
    match L.own t with
    | some r => L.deliver r ret
    | none => L
  | .hardware i word, _ => L.complete i word
  | _, _ => L

end Ledger

variable {L : Ledger Handle Thread} {h : Handle} {t : Thread} {i : DescIndex} {r r' : Nat}
  {v : Int} {word : BitVec 64}

theorem Ledger.deliver_result_self : (L.deliver r v).result r = some ((L.result r).getD v) :=
  Function.update_self ..

theorem Ledger.deliver_result_other (other : r' ≠ r) :
    (L.deliver r v).result r' = L.result r' :=
  Function.update_of_ne other ..

theorem Ledger.deliver_result_done {c : Int} (done : L.result r' = some c) :
    (L.deliver r v).result r' = some c := by
  by_cases same : r' = r
  · subst same
    rw [Ledger.deliver_result_self, done, Option.getD_some]
  · rw [Ledger.deliver_result_other same, done]

theorem Ledger.complete_code_self (slot : L.slotReq i = some r) :
    (L.complete i word).code r = some (exception word) :=
  if_pos slot

theorem Ledger.complete_code_other (other : L.slotReq i ≠ some r) :
    (L.complete i word).code r = L.code r :=
  if_neg other

section
variable [DecidableEq Handle]

def Ledger.forget (L : Ledger Handle Thread) (h : Handle) : Ledger Handle Thread :=
  { L with latest := Function.update L.latest h none }

theorem Ledger.forget_latest_self : (L.forget h).latest h = none :=
  Function.update_self ..

theorem Ledger.forget_latest_other {g : Handle} (known : (L.forget h).latest g = some r) :
    g ≠ h ∧ L.latest g = some r := by
  by_cases same : g = h
  · subst same
    rw [Ledger.forget_latest_self] at known
    exact absurd known (by simp)
  · refine ⟨same, ?_⟩
    rw [← known]
    exact (Function.update_of_ne same ..).symm

end

variable [DecidableEq Handle] [DecidableEq Thread] {o : Owner Handle Thread}

theorem Ledger.forget_start :
    (L.forget h).start i (.handle h) = L.start i (.handle h) := by
  simp [Ledger.start, Ledger.forget]

theorem Ledger.start_slot_self : (L.start i o).slotReq i = some L.started :=
  Function.update_self ..

theorem Ledger.start_slot_other {j : DescIndex} (other : j ≠ i) :
    (L.start i o).slotReq j = L.slotReq j :=
  Function.update_of_ne other ..

theorem Ledger.start_slot_old {j : DescIndex} (old : r < L.started)
    (slot : (L.start i o).slotReq j = some r) : j ≠ i ∧ L.slotReq j = some r := by
  have other : j ≠ i := by
    rintro rfl
    rw [Ledger.start_slot_self, Option.some.injEq] at slot
    omega
  exact ⟨other, by rwa [Ledger.start_slot_other other] at slot⟩

theorem Ledger.start_owner_old (old : r < L.started) : (L.start i o).owner r = L.owner r :=
  Function.update_of_ne (by omega) ..

theorem Ledger.start_owner_self : (L.start i o).owner L.started = some o :=
  Function.update_self ..

theorem Ledger.start_latest (known : (L.start i o).latest h = some r) :
    (o = .handle h ∧ r = L.started) ∨ (o ≠ .handle h ∧ L.latest h = some r) := by
  cases o with
  | handle g =>
    by_cases same : h = g
    · subst same
      refine Or.inl ⟨rfl, ?_⟩
      exact Option.some.inj (known.symm.trans (Function.update_self ..))
    · refine Or.inr ⟨by simpa using fun eq => same eq.symm, ?_⟩
      rw [← known]
      exact (Function.update_of_ne same ..).symm
  | thread t => exact Or.inr ⟨by simp, known⟩

theorem Ledger.start_own (known : (L.start i o).own t = some r) :
    (o = .thread t ∧ r = L.started) ∨ (o ≠ .thread t ∧ L.own t = some r) := by
  cases o with
  | handle g => exact Or.inr ⟨by simp, known⟩
  | thread u =>
    by_cases same : t = u
    · subst same
      refine Or.inl ⟨rfl, ?_⟩
      exact Option.some.inj (known.symm.trans (Function.update_self ..))
    · refine Or.inr ⟨by simpa using fun eq => same eq.symm, ?_⟩
      rw [← known]
      exact (Function.update_of_ne same ..).symm

/-! ### What is recorded of each step -/

variable {s s' : Ring Handle Thread} {dst src : BitVec 64} {size : BitVec 32}

theorem Ledger.observe_rejected :
    L.observe ⟨s, .post dst src size h, some (-eagain), s'⟩ = L := by
  simp [Ledger.observe, eagain]

theorem Ledger.observe_posted :
    L.observe ⟨s, .post dst src size h, some 0, s'⟩ = L.start s.vedmaIndex (.handle h) := by
  simp [Ledger.observe]

theorem Ledger.observe_polled (latest : L.latest h = some r) (returned : 0 ≤ v) :
    L.observe ⟨s, .poll h, some v, s'⟩ = L.deliver r v := by
  simp only [Ledger.observe, latest]
  exact if_pos returned

theorem Ledger.observe_busy (negative : v < 0) : L.observe ⟨s, .poll h, some v, s'⟩ = L := by
  cases latest : L.latest h with
  | none => simp only [Ledger.observe, latest]
  | some r =>
    simp only [Ledger.observe, latest]
    exact if_neg (by omega)

theorem Ledger.observe_clearReturn (own : L.own t = some r) :
    L.observe ⟨s, .clearReturn t, some v, s'⟩ = L.deliver r v := by
  simp only [Ledger.observe, own]

end Libsysve.Vedma
