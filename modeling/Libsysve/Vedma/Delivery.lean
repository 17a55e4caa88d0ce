import Libsysve.Vedma.RingInvariant

/-!
# Every DMA result goes to its own request, once

When a handle is posted only after its last request was delivered and polled only until it
is, no code is lost, returned twice or returned for another request.
-/

set_option autoImplicit false

namespace Libsysve.Vedma

variable {Handle Thread : Type}

/-- How handles are used: `post` only without an undelivered request, `poll` only with one. -/
def Usage (L : Ledger Handle Thread) (e : DmaEntry Handle Thread) : Prop :=
  match e.label with
  | .post _ _ _ h => ∀ r ∈ L.latest h, L.result r ≠ none
  | .poll h => ∃ r ∈ L.latest h, L.result r = none
  | _ => True

instance decidableUsage (L : Ledger Handle Thread) :
    (e : DmaEntry Handle Thread) → Decidable (Usage L e)
  | ⟨_, .post _ _ _ h, _, _⟩ => inferInstanceAs (Decidable (∀ r ∈ L.latest h, L.result r ≠ none))
  | ⟨_, .poll h, _, _⟩ => inferInstanceAs (Decidable (∃ r ∈ L.latest h, L.result r = none))
  | ⟨_, .postWait .., _, _⟩ => isTrue trivial
  | ⟨_, .waitDone _, _, _⟩ => isTrue trivial
  | ⟨_, .clearReturn _, _, _⟩ => isTrue trivial
  | ⟨_, .hardware .., _, _⟩ => isTrue trivial

/-- The code of request `r` is there, and its owner has it: it was returned, or it is in the
owner's handle after the step. -/
def HandedOver (L : Ledger Handle Thread) (e : DmaEntry Handle Thread) (r : Nat) : Prop :=
  ∃ c, L.code r = some c ∧
    (L.result r = some c ∨
      ∃ g, L.owner r = some (.handle g) ∧ L.latest g = some r ∧ (e.after.handle g).status = c)

/-- Only the next descriptor is rewritten, and its last request is handed over. -/
def Rewrites (L : Ledger Handle Thread) (e : DmaEntry Handle Thread) : Prop :=
  (∀ i, i ≠ e.before.vedmaIndex → e.after.vedmaDesc i = e.before.vedmaDesc i) ∧
    ∀ r, L.slotReq e.before.vedmaIndex = some r → HandedOver L e r

/-- What a step guarantees.  A descriptor is rewritten only when its request is handed over;
a value that is returned is the code of the caller's own request and is the first one
returned for it; `-EAGAIN` is returned for a request that is not completed. -/
def Delivers (L : Ledger Handle Thread) (e : DmaEntry Handle Thread) : Prop :=
  match e.label, e.out with
  | .post _ _ _ _, some ret =>
    (ret = 0 ∧ Rewrites L e) ∨ (ret = -eagain ∧ e.after.vedmaDesc = e.before.vedmaDesc)
  | .postWait _ _ _ _, none => Rewrites L e
  | .poll h, some ret => e.after.vedmaDesc = e.before.vedmaDesc ∧
      ∃ r, L.latest h = some r ∧ L.result r = none ∧
        ((0 ≤ ret ∧ L.code r = some ret) ∨ (ret = -eagain ∧ L.code r = none))
  | .waitDone _, none => e.after.vedmaDesc = e.before.vedmaDesc
  | .clearReturn t, some ret => e.after.vedmaDesc = e.before.vedmaDesc ∧
      ∃ r, L.own t = some r ∧ L.result r = none ∧ L.code r = some ret
  | .hardware _ _, none => True
  | _, _ => False

/-- Every entry with a handle belongs to its undelivered request, and what a handle holds is
the code of its latest request. -/
structure Attached (L : Ledger Handle Thread) (s : Ring Handle Thread) : Prop where
  entry : ∀ i h, s.vedmaStatus i = .handle h →
    ∃ r, L.latest h = some r ∧ L.slotReq i = some r ∧ L.result r = none ∧
      (s.handle h).status = -1 ∧ (s.handle h).index = i
  saved : ∀ h r, L.latest h = some r → (s.handle h).status ≠ -1 →
    L.code r = some (s.handle h).status ∧ 0 ≤ (s.handle h).status

structure DeliveryInv (L : Ledger Handle Thread) (s : Ring Handle Thread) : Prop where
  ring : RingInv L s
  attached : Attached L s

variable {L : Ledger Handle Thread} {s s' : Ring Handle Thread}

theorem Attached.unfinished (attached : Attached L s) {i : DescIndex} {g : Handle}
    (entry : s.vedmaStatus i = .handle g) : Unfinished L g := by
  intro r latest
  obtain ⟨r', latest', _, undelivered, _⟩ := attached.entry i g entry
  obtain rfl := Option.some.inj (latest.symm.trans latest')
  exact undelivered

theorem Usage.careful [DecidableEq Handle] [DecidableEq Thread] {e : DmaEntry Handle Thread}
    (usage : Usage L e) (attached : Attached L e.before) : Careful L e := by
  unfold Usage at usage
  unfold Careful
  cases label : e.label with
  | post dst src size h =>
    exact fun g saved => Or.inr (attached.unfinished (Ring.entry_of_savesInto saved))
  | poll h =>
    rw [label] at usage
    obtain ⟨r, latest, undelivered⟩ := usage
    exact ⟨r, latest, fun delivered => absurd undelivered delivered⟩
  | postWait t dst src size =>
    exact fun g saved => attached.unfinished (Ring.entry_of_savesInto saved)
  | waitDone t => trivial
  | clearReturn t => trivial
  | hardware i word => trivial

/-! ### The handles after each step -/

theorem deliveryInv_initial (desc : DescIndex → DmaDesc) (handle : Handle → VeDmaHandle) :
    DeliveryInv (Ledger.blank : Ledger Handle Thread) (Ring.initial desc handle) where
  ring := ringInv_initial desc handle
  attached :=
    { entry := fun i h entry => absurd entry (by simp [Ring.initial])
      saved := fun h r latest => absurd latest (by simp [Ledger.blank]) }

theorem Attached.deliver (attached : Attached L s) {r : Nat} {v : Int}
    (other : ∀ i h, s.vedmaStatus i = .handle h → L.latest h ≠ some r) :
    Attached (L.deliver r v) s where
  entry := by
    intro i h entry
    obtain ⟨r', latest, slot, undelivered, fresh, index⟩ := attached.entry i h entry
    have differ : r' ≠ r := fun same => other i h entry (same ▸ latest)
    refine ⟨r', latest, slot, ?_, fresh, index⟩
    rw [Ledger.deliver_result_other differ, undelivered]
  saved := attached.saved

theorem Attached.clear (attached : Attached L s) {j : DescIndex} :
    Attached L (s.clearEntry j) where
  entry := by
    intro i h entry
    by_cases here : i = j
    · subst here
      rw [Ring.clearEntry_self] at entry
      exact absurd entry (by simp)
    · rw [Ring.clearEntry_other here] at entry
      exact attached.entry i h entry
  saved := attached.saved

theorem Attached.complete (attached : Attached L s) (ring : RingInv L s) {i : DescIndex}
    {word : BitVec 64} (busy : (s.vedmaDesc i).word = 1) :
    Attached (L.complete i word) (s.setWord i word) where
  entry := attached.entry
  saved h r latest saved := by
    obtain ⟨code, returned⟩ := attached.saved h r latest saved
    exact ⟨ring.booked.complete_code busy code, returned⟩

theorem DeliveryInv.polled (inv : DeliveryInv L s) {h : Handle} {r : Nat}
    (latest : L.latest h = some r) (undelivered : L.result r = none)
    (fresh : (s.handle h).status = -1) : L.slotReq (s.handle h).index = some r :=
  (inv.ring.handles h r latest).slot_of fresh (fun delivered => absurd undelivered delivered)

variable [DecidableEq Handle]

theorem Attached.vacated {vacant : Ring Handle Thread} (attached : Attached L s)
    (ring : RingInv L s) (vacated : Vacated s vacant) : Attached L vacant := by
  cases vacated with
  | free entry => exact attached
  | saved g entry done =>
    obtain ⟨rg, latestg, slotg, undelivered, fresh, index⟩ := attached.entry _ g entry
    constructor
    · intro i h entry'
      by_cases here : i = s.vedmaIndex
      · subst here
        rw [Ring.saveStatus_entry_self] at entry'
        exact absurd entry' (by simp)
      · rw [Ring.saveStatus_entry_other here] at entry'
        obtain ⟨r, latest, slot, undelivered', fresh', index'⟩ := attached.entry i h entry'
        have other : h ≠ g := by
          rintro rfl
          exact here (index'.symm.trans index)
        rw [Ring.saveStatus_handle_other other]
        exact ⟨r, latest, slot, undelivered', fresh', index'⟩
    · intro h r latest saved
      by_cases same : h = g
      · subst same
        obtain rfl := Option.some.inj (latest.symm.trans latestg)
        rw [Ring.saveStatus_handle_self]
        exact ⟨ring.booked.code_some done slotg, exception_nonneg _⟩
      · rw [Ring.saveStatus_handle_other same] at saved ⊢
        exact attached.saved h r latest saved

theorem DeliveryInv.handedOver {vacant : Ring Handle Thread} {r : Nat}
    {e : DmaEntry Handle Thread} (inv : DeliveryInv L s) (vacated : Vacated s vacant)
    (slot : L.slotReq s.vedmaIndex = some r)
    (kept : ∀ g, s.vedmaStatus s.vedmaIndex = .handle g → e.after.handle g = vacant.handle g) :
    HandedOver L e r := by
  cases vacated with
  | free entry =>
    obtain ⟨c, code, result⟩ := inv.ring.drained _ entry r slot
    exact ⟨c, code, Or.inl result⟩
  | saved g entry done =>
    obtain ⟨r', latest, slot', _⟩ := inv.attached.entry _ g entry
    obtain rfl := Option.some.inj (slot.symm.trans slot')
    refine ⟨_, inv.ring.booked.code_some done slot,
      Or.inr ⟨g, inv.ring.booked.latest_owner g r latest, latest, ?_⟩⟩
    rw [kept g entry, Ring.saveStatus_handle_self, Ring.nextWord]

variable [DecidableEq Thread]

theorem Attached.startHandle {h : Handle} (dst src : BitVec 64) (size : BitVec 32)
    (attached : Attached L s) (booked : Booked L s.vedmaDesc)
    (unused : ∀ i, s.vedmaStatus i ≠ .handle h) :
    Attached (L.start s.vedmaIndex (.handle h))
      ((s.initHandle h).startDma dst src size (.handle h)) where
  entry := by
    intro i g entry
    by_cases here : i = s.vedmaIndex
    · subst here
      have new : StatusEntry.handle h = .handle g := Ring.startDma_entry_self.symm.trans entry
      obtain rfl := StatusEntry.handle.inj new
      have fresh : (s.initHandle h).handle h = { status := -1, index := s.vedmaIndex } :=
        Ring.initHandle_self
      refine ⟨L.started, Function.update_self .., Ledger.start_slot_self,
        booked.result_none, congrArg _ fresh, congrArg _ fresh⟩
    · have old : s.vedmaStatus i = .handle g :=
        (Ring.startDma_entry_other (s := s.initHandle h) here).symm.trans entry
      have other : g ≠ h := fun same => unused i (same ▸ old)
      have kept : (s.initHandle h).handle g = s.handle g := Ring.initHandle_other other
      obtain ⟨r, latest, slot, undelivered, fresh, index⟩ := attached.entry i g old
      refine ⟨r, ?_, ?_, undelivered, (congrArg _ kept).trans fresh, (congrArg _ kept).trans index⟩
      · exact (Function.update_of_ne other ..).trans latest
      · rw [Ledger.start_slot_other here, slot]
  saved := by
    intro g r latest saved
    by_cases same : g = h
    · subst same
      have fresh : (s.initHandle g).handle g = { status := -1, index := s.vedmaIndex } :=
        Ring.initHandle_self
      exact absurd (congrArg _ fresh) saved
    · have kept : (s.initHandle h).handle g = s.handle g := Ring.initHandle_other same
      have old : L.latest g = some r := (Function.update_of_ne same ..).symm.trans latest
      have status : ((s.initHandle h).handle g).status = (s.handle g).status := congrArg _ kept
      have held := attached.saved g r old (fun none => saved (status.trans none))
      rw [← status] at held
      exact held

theorem Attached.startThread {t : Thread} (dst src : BitVec 64) (size : BitVec 32)
    (attached : Attached L s) :
    Attached (L.start s.vedmaIndex (.thread t))
      ((s.startDma dst src size .sync).setThread t (.waiting s.vedmaIndex)) where
  entry := by
    intro i g (entry : (s.startDma dst src size .sync).vedmaStatus i = .handle g)
    by_cases here : i = s.vedmaIndex
    · subst here
      rw [Ring.startDma_entry_self] at entry
      exact absurd entry (by simp)
    · rw [Ring.startDma_entry_other here] at entry
      obtain ⟨r, latest, slot, held⟩ := attached.entry i g entry
      refine ⟨r, latest, ?_, held⟩
      rw [Ledger.start_slot_other here, slot]
  saved := attached.saved

/-! ### What a step guarantees -/

theorem DeliveryInv.delivers {label : DmaLabel Handle Thread} {out : Option Int}
    (inv : DeliveryInv L s) (effect : Effect s label out s')
    (usage : Usage L ⟨s, label, out, s'⟩) : Delivers L ⟨s, label, out, s'⟩ := by
  cases effect with
  | rejected dst src size h => exact Or.inr ⟨rfl, rfl⟩
  | posted dst src size h vacant vacated =>
    refine Or.inl ⟨rfl, ?_, ?_⟩
    · intro i other
      rw [← vacated.desc]
      exact Ring.startDma_desc_other (s := vacant.initHandle h) (vacated.index ▸ other)
    · intro r slot
      refine inv.handedOver vacated slot (fun g entry => Ring.initHandle_other ?_)
      rintro rfl
      obtain ⟨r', latest, _, undelivered, _⟩ := inv.attached.entry _ g entry
      exact usage r' latest undelivered
  | pollSaved h saved =>
    obtain ⟨r, latest, undelivered⟩ := usage
    obtain ⟨code, returned⟩ := inv.attached.saved h r latest saved
    exact ⟨rfl, r, latest, undelivered, Or.inl ⟨returned, code⟩⟩
  | pollCompleted h fresh done =>
    obtain ⟨r, latest, undelivered⟩ := usage
    have code := inv.ring.booked.code_some done (inv.polled latest undelivered fresh)
    exact ⟨rfl, r, latest, undelivered, Or.inl ⟨exception_nonneg _, code⟩⟩
  | pollBusy h fresh busy =>
    obtain ⟨r, latest, undelivered⟩ := usage
    refine ⟨rfl, r, latest, undelivered, Or.inr ⟨rfl, ?_⟩⟩
    rcases inv.ring.booked.word _ r (inv.polled latest undelivered fresh) with
      ⟨_, none⟩ | ⟨done, _⟩
    · exact none
    · rw [busy] at done
      exact absurd done (by simp)
  | postWait t dst src size idle vacant vacated =>
    refine ⟨?_, ?_⟩
    · intro i other
      rw [← vacated.desc]
      exact Function.update_of_ne (vacated.index ▸ other) ..
    · intro r slot
      exact inv.handedOver vacated slot (fun g entry => rfl)
  | waitDone t i waiting done => rfl
  | clearReturn t i word clearing =>
    obtain ⟨r, own⟩ := inv.ring.own_of_clearing clearing
    obtain ⟨code, undelivered, _⟩ := inv.ring.clearReturn own clearing
    exact ⟨rfl, r, own, undelivered, code⟩
  | hardware i word busy done => trivial

theorem DeliveryInv.step {label : DmaLabel Handle Thread} {out : Option Int}
    (inv : DeliveryInv L s) (stepped : dmaStep s label = some (out, s'))
    (usage : Usage L ⟨s, label, out, s'⟩) :
    DeliveryInv (L.observe ⟨s, label, out, s'⟩) s' := by
  refine ⟨inv.ring.step stepped (usage.careful inv.attached), ?_⟩
  cases dmaStep_effect stepped with
  | rejected dst src size h =>
    rw [Ledger.observe_rejected]
    exact inv.attached
  | posted dst src size h vacant vacated =>
    have attached := inv.attached.vacated inv.ring vacated
    have unused : ∀ i, vacant.vedmaStatus i ≠ .handle h := by
      intro i entry
      obtain ⟨r, latest, _, undelivered, _⟩ := attached.entry i h entry
      exact usage r latest undelivered
    have started := attached.startHandle dst src size (vacated.desc ▸ inv.ring.booked) unused
    rw [vacated.index] at started
    rw [Ledger.observe_posted]
    exact started
  | pollSaved h saved =>
    obtain ⟨r, latest, undelivered⟩ := usage
    obtain ⟨_, returned⟩ := inv.attached.saved h r latest saved
    rw [Ledger.observe_polled latest returned]
    refine inv.attached.deliver (fun i g entry latest' => ?_)
    obtain rfl := inv.ring.booked.latest_inj latest latest'
    obtain ⟨_, _, _, _, fresh, _⟩ := inv.attached.entry i h entry
    exact saved fresh
  | pollCompleted h fresh done =>
    obtain ⟨r, latest, undelivered⟩ := usage
    rw [Ledger.observe_polled latest (exception_nonneg _)]
    have attached := inv.attached.clear (j := (s.handle h).index)
    refine attached.deliver (fun i g entry latest' => ?_)
    obtain rfl := inv.ring.booked.latest_inj latest latest'
    obtain ⟨_, _, _, _, _, index⟩ := attached.entry i h entry
    rw [← index] at entry
    exact absurd (Ring.clearEntry_self.symm.trans entry) (by simp)
  | pollBusy h fresh busy =>
    rw [Ledger.observe_busy (by decide)]
    exact inv.attached
  | postWait t dst src size idle vacant vacated =>
    have started := (inv.attached.vacated inv.ring vacated).startThread (t := t) dst src size
    rw [vacated.index] at started
    exact started
  | waitDone t i waiting done => exact ⟨inv.attached.entry, inv.attached.saved⟩
  | clearReturn t i word clearing =>
    obtain ⟨r, own⟩ := inv.ring.own_of_clearing clearing
    rw [Ledger.observe_clearReturn own]
    have attached : Attached (L.deliver r (exception word)) (s.clearEntry i) := by
      refine (inv.attached.clear (j := i)).deliver (fun j g _ latest => ?_)
      exact inv.ring.booked.handle_ne_thread latest own rfl
    exact ⟨attached.entry, attached.saved⟩
  | hardware i word busy done => exact inv.attached.complete inv.ring busy

/-- In every run in which the handles are used properly, from any contents of the handles
and of the descriptor memory, every step delivers what it should. -/
theorem ring_delivers (desc : DescIndex → DmaDesc) (handle : Handle → VeDmaHandle)
    (trace : List (DmaEntry Handle Thread)) (final : Ring Handle Thread)
    (run : (dmaMachine Handle Thread).Run (Ring.initial desc handle) trace final)
    (usage : (Monitor.mk Ledger.blank Ledger.observe Usage).Safe trace) :
    (Monitor.mk Ledger.blank Ledger.observe Delivers).Safe trace := by
  refine run.guarantee (deliveryInv_initial desc handle) ?_ usage
  intro L s label out s' inv stepped used
  exact ⟨inv.delivers (dmaStep_effect stepped) used, inv.step stepped used⟩

/-- Handles 0 to 127 are posted, request 0 ends with code 5, and handle 128 takes its
descriptor before handle 0 is polled. -/
def wrapLabels : List (DmaLabel Nat Nat) :=
  (List.range 128).map (.post 0 0 0) ++
    [.hardware 0 0x0005000000000002, .post 0 0 0 128, .poll 0]

theorem ring_delivers_wrapped :
    ∃ trace final, (dmaMachine Nat Nat).exec (.initial (fun _ => ⟨0, 0, 0, 0⟩) (fun _ => ⟨0, 0⟩))
        wrapLabels = some (trace, final) ∧
      (trace.getLast?.map Entry.out) = some (some 5) ∧
      (Monitor.mk Ledger.blank Ledger.observe Delivers).Safe trace := by
  have checked : ((dmaMachine Nat Nat).exec
      (.initial (fun _ => ⟨0, 0, 0, 0⟩) (fun _ => ⟨0, 0⟩)) wrapLabels).any (fun done =>
        decide ((done.1.getLast?.map Entry.out) = some (some 5) ∧
          (Monitor.mk Ledger.blank Ledger.observe Usage).SafeFrom Ledger.blank done.1)) = true := by
    decide +kernel
  rw [Option.any_eq_true] at checked
  obtain ⟨⟨trace, final⟩, ran, holds⟩ := checked
  obtain ⟨last, used⟩ := of_decide_eq_true holds
  have usage := (Monitor.mk Ledger.blank Ledger.observe Usage).safe_of_safeFrom trace used
  exact ⟨trace, final, ran, last, ring_delivers _ _ trace final (Machine.exec_run ran) usage⟩

end Libsysve.Vedma
