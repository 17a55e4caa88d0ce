import Libsysve.Vedma.Delivery

/-!
# Requests that were not returned yet

A user of the ring has to know of each of its handles whether it has an outstanding request.
A step changes this of one handle at most: the one it starts a request for, or the one it
returns a code for.
-/

set_option autoImplicit false

namespace Libsysve.Vedma

variable {Handle Thread : Type}

/-- The latest request of a handle was not returned. -/
def Outstanding (L : Ledger Handle Thread) (h : Handle) : Prop :=
  ∃ r ∈ L.latest h, L.result r = none

def startsFor (e : DmaEntry Handle Thread) : Option Handle :=
  match e.label, e.out with
  | .post _ _ _ h, some ret => if ret = 0 then some h else none
  | _, _ => none

def returnsFor (e : DmaEntry Handle Thread) : Option Handle :=
  match e.label, e.out with
  | .poll h, some ret => if 0 ≤ ret then some h else none
  | _, _ => none

variable {L : Ledger Handle Thread} {s s' : Ring Handle Thread}

theorem not_outstanding_iff {h : Handle} :
    ¬Outstanding L h ↔ ∀ r ∈ L.latest h, L.result r ≠ none := by
  simp only [Outstanding, not_exists, not_and, ne_eq]

theorem Attached.outstanding (attached : Attached L s) {i : DescIndex} {h : Handle}
    (entry : s.vedmaStatus i = .handle h) : Outstanding L h := by
  obtain ⟨r, latest, _, undelivered, _⟩ := attached.entry i h entry
  exact ⟨r, latest, undelivered⟩

theorem initial_not_outstanding (h : Handle) :
    ¬Outstanding (Ledger.blank : Ledger Handle Thread) h := by
  rintro ⟨r, latest, _⟩
  exact absurd latest (by simp [Ledger.blank])

theorem outstanding_deliver {r : Nat} {v : Int} {g : Handle}
    (other : L.latest g ≠ some r) : Outstanding (L.deliver r v) g ↔ Outstanding L g := by
  constructor
  · rintro ⟨r', latest, undelivered⟩
    have differ : r' ≠ r := fun same => other (same ▸ latest)
    exact ⟨r', latest, (Ledger.deliver_result_other differ).symm.trans undelivered⟩
  · rintro ⟨r', latest, undelivered⟩
    have differ : r' ≠ r := fun same => other (same ▸ latest)
    exact ⟨r', latest, (Ledger.deliver_result_other differ).trans undelivered⟩

theorem outstanding_returned {desc : DescIndex → DmaDesc} {r : Nat} {v : Int} {g h : Handle}
    (booked : Booked L desc) (latest : L.latest h = some r) :
    Outstanding (L.deliver r v) g ↔ Outstanding L g ∧ h ≠ g := by
  by_cases same : h = g
  · subst same
    refine iff_of_false ?_ (fun both => both.2 rfl)
    rintro ⟨r', latest', undelivered⟩
    obtain rfl := Option.some.inj (latest.symm.trans latest')
    exact absurd (Ledger.deliver_result_self.symm.trans undelivered) (by simp)
  · have other : L.latest g ≠ some r := fun latest' => same (booked.latest_inj latest latest')
    rw [outstanding_deliver other]
    exact (and_iff_left same).symm

variable [DecidableEq Handle]

theorem Vacated.handle_kept {vacant : Ring Handle Thread} (vacated : Vacated s vacant) {g : Handle}
    (unused : ∀ i, s.vedmaStatus i ≠ .handle g) : vacant.handle g = s.handle g := by
  cases vacated with
  | free entry => rfl
  | saved h entry done =>
    refine Ring.saveStatus_handle_other ?_
    rintro rfl
    exact unused _ entry

variable [DecidableEq Thread]

/-- A handle that no descriptor refers to is written by its own requests only. -/
theorem Effect.handle_kept {label : DmaLabel Handle Thread} {out : Option Int}
    (effect : Effect s label out s') {g : Handle} (unused : ∀ i, s.vedmaStatus i ≠ .handle g)
    (others : label.posted ≠ some g) : s'.handle g = s.handle g := by
  cases effect with
  | posted dst src size h vacant vacated =>
    have other : g ≠ h := fun same => others (congrArg some same.symm)
    exact (Ring.initHandle_other other).trans (vacated.handle_kept unused)
  | postWait t dst src size idle vacant vacated => exact vacated.handle_kept unused
  | _ => rfl

theorem outstanding_started {i : DescIndex} {g h : Handle} (fresh : L.result L.started = none) :
    Outstanding (L.start i (.handle h)) g ↔ h = g ∨ Outstanding L g := by
  by_cases same : h = g
  · subst same
    exact iff_of_true ⟨L.started, Function.update_self .., fresh⟩ (.inl rfl)
  · have kept : (L.start i (.handle h)).latest g = L.latest g :=
      Function.update_of_ne (fun eq => same eq.symm) ..
    rw [Outstanding, kept, or_iff_right same]
    rfl

theorem outstanding_observe {label : DmaLabel Handle Thread} {out : Option Int}
    (inv : DeliveryInv L s) (effect : Effect s label out s')
    (usage : Usage L ⟨s, label, out, s'⟩) (g : Handle) :
    Outstanding (L.observe ⟨s, label, out, s'⟩) g ↔
      startsFor ⟨s, label, out, s'⟩ = some g ∨
        Outstanding L g ∧ returnsFor ⟨s, label, out, s'⟩ ≠ some g := by
  cases effect with
  | rejected dst src size h =>
    rw [Ledger.observe_rejected]
    simp [startsFor, returnsFor, eagain]
  | posted dst src size h vacant vacated =>
    rw [Ledger.observe_posted, outstanding_started inv.ring.booked.result_none]
    simp [startsFor, returnsFor]
  | pollSaved h saved =>
    obtain ⟨r, latest, undelivered⟩ := usage
    obtain ⟨_, returned⟩ := inv.attached.saved h r latest saved
    rw [Ledger.observe_polled latest returned, outstanding_returned inv.ring.booked latest]
    simp [startsFor, returnsFor, returned]
  | pollCompleted h fresh done =>
    obtain ⟨r, latest, undelivered⟩ := usage
    rw [Ledger.observe_polled latest (exception_nonneg _),
      outstanding_returned inv.ring.booked latest]
    simp [startsFor, returnsFor, exception_nonneg]
  | pollBusy h fresh busy =>
    rw [Ledger.observe_busy (by decide)]
    simp [startsFor, returnsFor, eagain]
  | postWait t dst src size idle vacant vacated =>
    simp only [startsFor, returnsFor, reduceCtorEq, false_or, ne_eq, not_false_eq_true, and_true]
    exact Iff.rfl
  | waitDone t i waiting done =>
    simp only [startsFor, returnsFor, reduceCtorEq, false_or, ne_eq, not_false_eq_true, and_true]
    exact Iff.rfl
  | clearReturn t i word clearing =>
    obtain ⟨r, own⟩ := inv.ring.own_of_clearing clearing
    rw [Ledger.observe_clearReturn own,
      outstanding_deliver fun latest => inv.ring.booked.handle_ne_thread latest own rfl]
    simp [startsFor, returnsFor]
  | hardware i word busy done =>
    simp only [startsFor, returnsFor, reduceCtorEq, false_or, ne_eq, not_false_eq_true, and_true]
    exact Iff.rfl

end Libsysve.Vedma
