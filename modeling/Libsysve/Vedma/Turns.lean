import Libsysve.Vedma.Delivery

/-!
# No descriptor is lost

The descriptors are used in turn, and a status entry is only ever left by a request that is
still running or by a thread that is still in `ve_dma_post_wait`.  Nothing is asked of how
the handles are posted and polled.
-/

set_option autoImplicit false

namespace Libsysve.Vedma

variable {Handle Thread : Type}

/-- Descriptor `i` gets the request, and its entry is written. -/
structure Occupies (e : DmaEntry Handle Thread) (i : DescIndex) (dst src : BitVec 64)
    (size : BitVec 32) (entry : StatusEntry Handle) : Prop where
  desc : e.after.vedmaDesc = Function.update e.before.vedmaDesc i
    { word := 1, size := size.setWidth 64 + (8#64 <<< 32), src := src, dst := dst }
  entry : e.after.vedmaStatus i = entry

/-- A request that is accepted, the one numbered `L.started`, takes the descriptor whose
turn it is, and its handle or its thread knows which one. -/
def InTurn (L : Ledger Handle Thread) (e : DmaEntry Handle Thread) : Prop :=
  match e.label, e.out with
  | .post dst src size h, some ret => ret = 0 →
    ∃ i : DescIndex, i.val = L.started % vedmaNdesc ∧
      Occupies e i dst src size (.handle h) ∧ (e.after.handle h).index = i
  | .postWait t dst src size, _ =>
    ∃ i : DescIndex, i.val = L.started % vedmaNdesc ∧
      Occupies e i dst src size .sync ∧ e.after.thread t = .waiting i
  | _, _ => True

def AllCompleted (L : Ledger Handle Thread) : Prop :=
  ∀ i, ∀ r ∈ L.slotReq i, L.code r ≠ none

instance (L : Ledger Handle Thread) : Decidable (AllCompleted L) :=
  inferInstanceAs (Decidable (∀ i, ∀ r ∈ L.slotReq i, L.code r ≠ none))

def PostWait.isIdle : PostWait → Bool
  | .idle => true
  | .waiting _ => false
  | .clearing _ _ => false

theorem PostWait.idle_of_isIdle {left : PostWait} (idle : left.isIdle = true) : left = .idle := by
  cases left with
  | idle => rfl
  | waiting i => simp [PostWait.isIdle] at idle
  | clearing i word => simp [PostWait.isIdle] at idle

/-- A thread is inside `ve_dma_post_wait` with descriptor `i`. -/
inductive HoldsSlot (i : DescIndex) : PostWait → Prop
  | waiting : HoldsSlot i (.waiting i)
  | clearing (word : BitVec 64) : HoldsSlot i (.clearing i word)

inductive Accounted (L : Ledger Handle Thread) (thread : Thread → PostWait) (i : DescIndex) :
    StatusEntry Handle → Prop
  | null : Accounted L thread i .null
  | sync (t : Thread) (holds : HoldsSlot i (thread t)) : Accounted L thread i .sync
  | handle (g : Handle) (r : Nat) (slot : L.slotReq i = some r) :
      Accounted L thread i (.handle g)

structure TurnInv (L : Ledger Handle Thread) (s : Ring Handle Thread) : Prop where
  booked : Booked L s.vedmaDesc
  turn : s.vedmaIndex.val = L.started % vedmaNdesc
  accounted : ∀ i, Accounted L s.thread i (s.vedmaStatus i)

theorem turnInv_initial (desc : DescIndex → DmaDesc) (handle : Handle → VeDmaHandle) :
    TurnInv (Ledger.blank : Ledger Handle Thread) (Ring.initial desc handle) where
  booked := (ringInv_initial desc handle).booked
  turn := by simp [Ring.initial, Ledger.blank]
  accounted _ := .null

variable {L L' : Ledger Handle Thread} {s s' : Ring Handle Thread}
  {thread thread' : Thread → PostWait} {i : DescIndex} {entry : StatusEntry Handle}

/-! ### An entry after a step -/

theorem Accounted.imp (accounted : Accounted L thread i entry)
    (slots : ∀ r, L.slotReq i = some r → L'.slotReq i = some r)
    (threads : entry = .sync → ∀ t, HoldsSlot i (thread t) → HoldsSlot i (thread' t)) :
    Accounted L' thread' i entry := by
  cases accounted with
  | null => exact .null
  | sync t holds => exact .sync t (threads rfl t holds)
  | handle g r slot => exact .handle g r (slots r slot)

theorem Accounted.clear {j : DescIndex} {status : DescIndex → StatusEntry Handle}
    (accounted : i ≠ j → Accounted L thread i (status i)) :
    Accounted L thread i (Function.update status j .null i) := by
  by_cases here : i = j
  · rw [here, Function.update_self]
    exact .null
  · rw [Function.update_of_ne here]
    exact accounted here

theorem HoldsSlot.setThread [DecidableEq Thread] {t u : Thread} {left : PostWait}
    (holds : HoldsSlot i (s.thread u)) (moved : u = t → HoldsSlot i left) :
    HoldsSlot i ((s.setThread t left).thread u) := by
  by_cases same : u = t
  · subst same
    rw [Ring.setThread_self]
    exact moved rfl
  · rw [Ring.setThread_other left same]
    exact holds

theorem HoldsSlot.index {j : DescIndex} (holds : HoldsSlot i (.waiting j)) : i = j := by
  cases holds with
  | waiting => rfl

theorem HoldsSlot.index_clearing {j : DescIndex} {word : BitVec 64}
    (holds : HoldsSlot i (.clearing j word)) : i = j := by
  cases holds with
  | clearing word => rfl

theorem HoldsSlot.not_idle (holds : HoldsSlot i .idle) : False := by
  cases holds

/-! ### The steps -/

theorem TurnInv.deliver (inv : TurnInv L s) {r : Nat} {v : Int} (known : r < L.started) :
    TurnInv (L.deliver r v) s where
  booked := inv.booked.deliver known
  turn := inv.turn
  accounted i := (inv.accounted i).imp (fun _ slot => slot) (fun _ _ holds => holds)

theorem TurnInv.clearEntry (inv : TurnInv L s) {j : DescIndex} : TurnInv L (s.clearEntry j) where
  booked := inv.booked
  turn := inv.turn
  accounted i := Accounted.clear fun _ => inv.accounted i

theorem index_next {n : Nat} (j : DescIndex) (turn : j.val = n % vedmaNdesc) :
    (j + 1).val = (n + 1) % vedmaNdesc := by
  have next : (j + 1).val = (j.val + 1) % vedmaNdesc := rfl
  rw [next, turn, Nat.mod_add_mod]

variable [DecidableEq Handle]

theorem TurnInv.vacated {vacant : Ring Handle Thread} (inv : TurnInv L s)
    (vacated : Vacated s vacant) : TurnInv L vacant := by
  cases vacated with
  | free entry => exact inv
  | saved g entry done =>
    exact ⟨inv.booked, inv.turn, fun i => Accounted.clear fun _ => inv.accounted i⟩

variable [DecidableEq Thread]

theorem TurnInv.polled (inv : TurnInv L s) (before after : Ring Handle Thread) (h : Handle)
    (ret : Int) : TurnInv (L.observe ⟨before, .poll h, some ret, after⟩) s := by
  by_cases returned : 0 ≤ ret
  · cases latest : L.latest h with
    | none =>
      simp only [Ledger.observe, latest]
      exact inv
    | some r =>
      rw [Ledger.observe_polled latest returned]
      exact inv.deliver (inv.booked.latest_lt latest)
  · rw [Ledger.observe_busy (by omega)]
    exact inv

theorem TurnInv.start (inv : TurnInv L s) (dst src : BitVec 64) (size : BitVec 32)
    (o : Owner Handle Thread) (thread' : Thread → PostWait)
    (new : Accounted (L.start s.vedmaIndex o) thread' s.vedmaIndex entry)
    (threads : ∀ i t, HoldsSlot i (s.thread t) → HoldsSlot i (thread' t)) :
    TurnInv (L.start s.vedmaIndex o)
      { s.startDma dst src size entry with thread := thread' } where
  booked := inv.booked.start rfl
  turn := index_next s.vedmaIndex inv.turn
  accounted := by
    intro i
    change Accounted _ thread' i ((s.startDma dst src size entry).vedmaStatus i)
    by_cases here : i = s.vedmaIndex
    · rw [here, Ring.startDma_entry_self]
      exact new
    · rw [Ring.startDma_entry_other here]
      refine (inv.accounted i).imp (fun r slot => ?_) (fun _ t => threads i t)
      rw [Ledger.start_slot_other here, slot]

theorem TurnInv.step {label : DmaLabel Handle Thread} {out : Option Int} (inv : TurnInv L s)
    (effect : Effect s label out s') : TurnInv (L.observe ⟨s, label, out, s'⟩) s' := by
  cases effect with
  | rejected dst src size h =>
    rw [Ledger.observe_rejected]
    exact inv
  | posted dst src size h vacant vacated =>
    have before := inv.vacated vacated
    rw [Ledger.observe_posted, ← vacated.index]
    have initialised : TurnInv L (vacant.initHandle h) :=
      ⟨before.booked, before.turn, before.accounted⟩
    exact initialised.start dst src size (.handle h) vacant.thread
      (.handle h L.started Ledger.start_slot_self) (fun _ _ holds => holds)
  | pollSaved h saved => exact inv.polled s s h _
  | pollCompleted h fresh done => exact inv.clearEntry.polled s _ h _
  | pollBusy h fresh busy => exact inv.polled s s h _
  | postWait t dst src size idle vacant vacated =>
    have before := inv.vacated vacated
    have unmoved : vacant.thread t = .idle := by
      cases vacated with
      | free entry => exact idle
      | saved g entry done => exact idle
    have started := before.start dst src size (.thread t)
      (Function.update vacant.thread t (.waiting s.vedmaIndex)) (.sync t ?_) ?_
    · rw [vacated.index] at started
      exact started
    · rw [Function.update_self, vacated.index]
      exact .waiting
    · intro i u holds
      refine HoldsSlot.setThread (s := vacant) holds (fun same => ?_)
      rw [same, unmoved] at holds
      exact holds.not_idle.elim
  | waitDone t i waiting done =>
    refine ⟨inv.booked, inv.turn, fun j => ?_⟩
    refine (inv.accounted j).imp (fun _ slot => slot)
      (fun _ u holds => holds.setThread fun same => ?_)
    rw [same, waiting] at holds
    rw [holds.index]
    exact .clearing _
  | clearReturn t i word clearing =>
    have moved : TurnInv L ((s.clearEntry i).setThread t .idle) := by
      refine ⟨inv.booked, inv.turn, fun j => Accounted.clear fun other => ?_⟩
      refine (inv.accounted j).imp (fun _ slot => slot)
        (fun _ u holds => HoldsSlot.setThread (s := s) holds fun same => ?_)
      rw [same, clearing] at holds
      exact absurd holds.index_clearing other
    cases own : L.own t with
    | none =>
      simp only [Ledger.observe, own]
      exact moved
    | some r =>
      rw [Ledger.observe_clearReturn own]
      exact moved.deliver (inv.booked.owner_lt r _ (inv.booked.own_owner t r own))
  | hardware i word busy done =>
    exact ⟨inv.booked.complete done, inv.turn,
      fun j => (inv.accounted j).imp (fun _ slot => slot) (fun _ _ holds => holds)⟩

/-! ### What follows from the invariant -/

theorem TurnInv.inTurn {label : DmaLabel Handle Thread} {out : Option Int} (inv : TurnInv L s)
    (effect : Effect s label out s') : InTurn L ⟨s, label, out, s'⟩ := by
  cases effect with
  | rejected dst src size h => exact fun accepted => absurd accepted (by decide)
  | posted dst src size h vacant vacated =>
    intro _
    refine ⟨s.vedmaIndex, inv.turn, ⟨?_, ?_⟩, ?_⟩
    · rw [← vacated.index, ← vacated.desc]
      rfl
    · rw [← vacated.index]
      exact Ring.startDma_entry_self (s := vacant.initHandle h)
    · rw [← vacated.index]
      exact congrArg VeDmaHandle.index (Ring.initHandle_self (s := vacant))
  | pollSaved h saved => trivial
  | pollCompleted h fresh done => trivial
  | pollBusy h fresh busy => trivial
  | postWait t dst src size idle vacant vacated =>
    refine ⟨s.vedmaIndex, inv.turn, ⟨?_, ?_⟩, Ring.setThread_self _⟩
    · rw [← vacated.index, ← vacated.desc]
      rfl
    · rw [← vacated.index]
      have entry : (vacant.startDma dst src size .sync).vedmaStatus vacant.vedmaIndex = .sync :=
        Ring.startDma_entry_self
      exact entry
  | waitDone t i waiting done => trivial
  | clearReturn t i word clearing => trivial
  | hardware i word busy done => trivial

omit [DecidableEq Thread] in
theorem TurnInv.post_accepted (inv : TurnInv L s) (idle : ∀ t, s.thread t = .idle)
    (finished : AllCompleted L) (dst src : BitVec 64) (size : BitVec 32) (h : Handle) :
    (veDmaPost s dst src size h).1 = 0 := by
  have accounted := inv.accounted s.vedmaIndex
  cases entry : s.vedmaStatus s.vedmaIndex with
  | null => simp only [veDmaPost, entry]
  | sync =>
    rw [entry] at accounted
    cases accounted with
    | sync t holds =>
      rw [idle t] at holds
      exact holds.not_idle.elim
  | handle g =>
    rw [entry] at accounted
    cases accounted with
    | handle g r slot =>
      have done : completed s.nextWord = true := by
        rcases inv.booked.word _ r slot with ⟨_, running⟩ | ⟨done, _⟩
        · exact absurd running (finished _ r slot)
        · exact done
      simp only [veDmaPost, entry, if_pos done]

/-- In every run, from any contents of the handles and of the descriptor memory, the
requests take the descriptors in turn; at its end, when no DMA is running and no thread is in
`ve_dma_post_wait`, a post is accepted. -/
theorem ring_leaks_no_slot (desc : DescIndex → DmaDesc) (handle : Handle → VeDmaHandle)
    (trace : List (DmaEntry Handle Thread)) (final : Ring Handle Thread)
    (run : (dmaMachine Handle Thread).Run (Ring.initial desc handle) trace final) :
    (Monitor.mk Ledger.blank Ledger.observe InTurn).Safe trace ∧
      ((∀ t, final.thread t = .idle) → AllCompleted (trace.foldl Ledger.observe Ledger.blank) →
        ∀ dst src size h, (veDmaPost final dst src size h).1 = 0) := by
  have unconditional := Monitor.safe_true (Ledger.blank : Ledger Handle Thread) Ledger.observe trace
  constructor
  · refine run.guarantee (turnInv_initial desc handle) ?_ unconditional
    intro L s label out s' inv stepped _
    have effect := dmaStep_effect stepped
    exact ⟨inv.inTurn effect, inv.step effect⟩
  · have inv := run.invariant (turnInv_initial desc handle)
      (fun _ _ _ _ _ inv stepped _ => inv.step (dmaStep_effect stepped)) unconditional
    exact fun idle finished => inv.post_accepted idle finished

/-- A synchronous request, and 128 posts that go round the ring; none of them is ever polled. -/
def unpolledLabels : List (DmaLabel Nat Unit) :=
  [.postWait () 0 0 8, .hardware 0 2, .waitDone (), .clearReturn ()] ++
    (List.range 127).map (.post 0 0 0) ++
    (List.range 127).map (fun n => .hardware (Fin.ofNat vedmaNdesc (n + 1)) 2) ++
    [.post 0 0 0 200, .hardware 0 2]

theorem ring_leaks_no_slot_unpolled :
    ∃ trace final, (dmaMachine Nat Unit).exec
        (.initial (fun _ => ⟨0, 0, 0, 0⟩) (fun _ => ⟨0, 0⟩)) unpolledLabels =
          some (trace, final) ∧
      final.vedmaStatus final.vedmaIndex = .handle 0 ∧ (veDmaPost final 0 0 0 300).1 = 0 := by
  have checked : ((dmaMachine Nat Unit).exec
      (.initial (fun _ => ⟨0, 0, 0, 0⟩) (fun _ => ⟨0, 0⟩)) unpolledLabels).any (fun done =>
        decide (done.2.vedmaStatus done.2.vedmaIndex = .handle 0 ∧
          AllCompleted (done.1.foldl Ledger.observe Ledger.blank)) &&
        (done.2.thread ()).isIdle) = true := by
    decide +kernel
  rw [Option.any_eq_true] at checked
  obtain ⟨⟨trace, final⟩, ran, holds⟩ := checked
  rw [Bool.and_eq_true] at holds
  obtain ⟨entry, finished⟩ := of_decide_eq_true holds.1
  have idle : ∀ t, final.thread t = .idle := fun t => PostWait.idle_of_isIdle holds.2
  have accepts := (ring_leaks_no_slot _ _ trace final (Machine.exec_run ran)).2
  exact ⟨trace, final, ran, entry, accepts idle finished 0 0 0 300⟩

end Libsysve.Vedma
