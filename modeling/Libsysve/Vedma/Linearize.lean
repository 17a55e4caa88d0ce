import Libsysve.Library.Simulation
import Libsysve.Vedma.Linked

/-!
# The sections of vedma_main.S take effect at once

Every access of `Assembly` is either no step of the ring of `Ring` or one of its steps, and
the threads see the same calls and returns.  So what is proved of the ring, where a section
is one step, holds of the accesses in every order.
-/

set_option autoImplicit false

namespace Libsysve.Vedma

variable {Handle Thread : Type}

/-! ## The step of the ring at an access -/

def Request.label (q : Request Handle) (t : Thread) : DmaLabel Handle Thread :=
  match q.handle with
  | some h => .post q.dst q.src q.size h
  | none => .postWait t q.dst q.src q.size

abbrev RingLabel (Handle Thread : Type) :=
  Machine.AtomicLabel Thread (Call Handle) (DmaLabel Handle Thread)

/-- The step that a request takes which has found its descriptor taken. -/
def Request.rejects (q : Request Handle) (t : Thread) : Option (RingLabel Handle Thread) :=
  match q.handle with
  | some _ => some (.serve t (q.label t))
  | none => none

def Pc.mark (m : Memory Handle) (t : Thread) : Pc Handle → Option (RingLabel Handle Thread)
  | .ldStatus q s34 =>
    match m.vedmaStatus s34 with
    | .sync => q.rejects t
    | .null => some (.serve t (q.label t))
    | .handle _ => none
  | .lhmDesc q s34 => if completed (m.vedmaDesc s34).word then none else q.rejects t
  | .ldHandle q _ _ => some (.serve t (q.label t))
  | .ldlStatus h => if (m.handle h).status ≠ -1 then some (.serve t (.poll h)) else none
  | .lhmPoll h _ => some (.serve t (.poll h))
  | .lhmWait _ s34 =>
    if completed (m.vedmaDesc s34).word then some (.serve t (.waitDone t)) else none
  | .stWait _ _ _ => some (.serve t (.clearReturn t))
  | .ret _ => some (.ret t)
  | .outside | .cas _ _ | .ldIndex _ | .ldlIndex _ | .stores _ _ => none

abbrev CpuEntry (Handle Thread : Type) :=
  Entry (Cpu Handle Thread) (CpuLabel Handle Thread) (Option Int)

def cpuMark (e : CpuEntry Handle Thread) : Option (RingLabel Handle Thread) :=
  match e.label with
  | .call t c => some (.call t c)
  | .access t => (e.before.pc t).mark e.before.memory t
  | .hardware i word => some (.spontaneous (.hardware i word))

abbrev RingEvent (Handle Thread : Type) := Machine.HistoryEvent Thread (Call Handle) Int

/-- What the threads see: the calls, and what they return. -/
def cpuEvent (e : CpuEntry Handle Thread) : Option (RingEvent Handle Thread) :=
  match e.label with
  | .call t c => some (.call t c)
  | .access t => e.out.map (.ret t)
  | .hardware _ _ => none

def ringCalls [DecidableEq Handle] [DecidableEq Thread] :
    Machine.Interface Thread (Call Handle) (DmaLabel Handle Thread) where
  serves t c op :=
    match c with
    | .poll h => op = .poll h
    | .request q =>
      op = q.label t ∨ (q.handle = none ∧ (op = .waitDone t ∨ op = .clearReturn t))
  spontaneous
    | .hardware _ _ => true
    | _ => false

variable [DecidableEq Handle] [DecidableEq Thread]

/-! ## What a request does to the ring -/

section
variable {m : Memory Handle} {thread : Thread → PostWait} {q : Request Handle} {t : Thread}
  {i : DescIndex} {g : Handle}

/-- What a request that is started gives its caller at once. -/
def Request.answer (q : Request Handle) : Option Int :=
  match q.handle with
  | some _ => some 0
  | none => none

theorem Request.serve_null (idle : thread t = .idle) (index : m.vedmaIndex = i)
    (entry : m.vedmaStatus i = .null) :
    dmaStep (m.ring thread) (q.label t) = some (q.answer,
      (m.after (q.start i)).ring (Function.update thread t (q.exit i).tail)) := by
  subst index
  have same : Function.update thread t .idle = thread := idle ▸ Function.update_eq_self t thread
  cases handle : q.handle with
  | none =>
    simp [Request.label, Request.answer, Request.start, Request.exit, Exit.tail, handle, dmaStep,
      veDmaPostWait, Memory.ring, Memory.after, Memory.store, Memory.setDesc, Memory.setStatus,
      idle, entry, Ring.startDma, Ring.setThread]
  | some h =>
    simp [Request.label, Request.answer, Request.start, Request.exit, Exit.tail, handle, dmaStep,
      veDmaPost, Memory.ring, Memory.after, Memory.store, Memory.setDesc, Memory.setStatus,
      Memory.setHandle, entry, Ring.startDma, Ring.initHandle, same]

theorem Request.serve_saved (idle : thread t = .idle) (index : m.vedmaIndex = i)
    (entry : m.vedmaStatus i = .handle g) (done : completed (m.vedmaDesc i).word = true) :
    dmaStep (m.ring thread) (q.label t) = some (q.answer,
      (m.after (.handleStatus g (exception (m.vedmaDesc i).word) :: .status i .null ::
        q.start i)).ring (Function.update thread t (q.exit i).tail)) := by
  subst index
  have same : Function.update thread t .idle = thread := idle ▸ Function.update_eq_self t thread
  cases handle : q.handle with
  | none =>
    simp [Request.label, Request.answer, Request.start, Request.exit, Exit.tail, handle, dmaStep,
      veDmaPostWait, Memory.ring, Memory.after, Memory.store, Memory.setDesc, Memory.setStatus,
      Memory.setHandle, idle, entry, done, Ring.startDma, Ring.setThread, Ring.saveStatus,
      Ring.nextWord]
  | some h =>
    simp [Request.label, Request.answer, Request.start, Request.exit, Exit.tail, handle, dmaStep,
      veDmaPost, Memory.ring, Memory.after, Memory.store, Memory.setDesc, Memory.setStatus,
      Memory.setHandle, entry, done, Ring.startDma, Ring.initHandle, Ring.saveStatus,
      Ring.nextWord, same]

theorem Request.serve_rejected {h : Handle} (handle : q.handle = some h)
    (index : m.vedmaIndex = i)
    (taken : m.vedmaStatus i = .sync ∨
      ((∃ g, m.vedmaStatus i = .handle g) ∧ completed (m.vedmaDesc i).word = false)) :
    dmaStep (m.ring thread) (q.label t) = some (some (-eagain), m.ring thread) := by
  subst index
  rcases taken with entry | ⟨⟨g, entry⟩, busy⟩
  · simp [Request.label, handle, dmaStep, veDmaPost, Memory.ring, entry]
  · simp [Request.label, handle, dmaStep, veDmaPost, Memory.ring, Ring.nextWord, entry, busy]

end

/-! ## What holds of the ring -/

/-- The invariants of the ring, and that no descriptor runs that was never used. -/
structure RingFacts (L : Ledger Handle Thread) (s : Ring Handle Thread) : Prop where
  delivery : DeliveryInv L s
  turn : TurnInv L s
  unused : ∀ i, L.slotReq i = none → (s.vedmaDesc i).word ≠ 1

omit [DecidableEq Handle] [DecidableEq Thread] in
theorem ringFacts_initial (desc : DescIndex → DmaDesc) (handle : Handle → VeDmaHandle)
    (stopped : ∀ i, (desc i).word ≠ 1) :
    RingFacts (Ledger.blank : Ledger Handle Thread) (Ring.initial desc handle) :=
  ⟨deliveryInv_initial desc handle, turnInv_initial desc handle, fun i _ => stopped i⟩

variable {L : Ledger Handle Thread} {s s' : Ring Handle Thread} {i : DescIndex} {t : Thread}

omit [DecidableEq Handle] [DecidableEq Thread] in
theorem RingFacts.stopped (facts : RingFacts L s) (entry : s.vedmaStatus i = .null) :
    (s.vedmaDesc i).word ≠ 1 := by
  cases slot : L.slotReq i with
  | none => exact facts.unused i slot
  | some r =>
    obtain ⟨c, code, _⟩ := facts.delivery.ring.drained i entry r slot
    intro busy
    rw [facts.delivery.ring.booked.code_none busy slot] at code
    exact absurd code (by simp)

omit [DecidableEq Handle] [DecidableEq Thread] in
theorem RingFacts.waits (facts : RingFacts L s) (holds : HoldsSlot i (s.thread t)) :
    ∃ r, Waits L s.vedmaStatus t i r := by
  have thread := facts.delivery.ring.threads t
  cases left : s.thread t with
  | idle =>
    rw [left] at holds
    exact holds.not_idle.elim
  | waiting j =>
    rw [left] at holds thread
    obtain rfl := holds.index
    exact thread
  | clearing j word =>
    rw [left] at holds thread
    obtain rfl := holds.index_clearing
    obtain ⟨r, waits, _⟩ := thread
    exact ⟨r, waits⟩

theorem unused_start {o : Owner Handle Thread} {j : DescIndex}
    (unused : (L.start i o).slotReq j = none) : j ≠ i ∧ L.slotReq j = none := by
  have other : j ≠ i := by
    rintro rfl
    rw [Ledger.start_slot_self] at unused
    exact absurd unused (by simp)
  exact ⟨other, (Ledger.start_slot_other other).symm.trans unused⟩

theorem observe_poll_slot {h : Handle} {out : Option Int} :
    (L.observe ⟨s, .poll h, out, s'⟩).slotReq = L.slotReq := by
  cases out with
  | none => rfl
  | some v =>
    by_cases returned : 0 ≤ v
    · cases latest : L.latest h with
      | none => simp only [Ledger.observe, latest]
      | some r => rw [Ledger.observe_polled latest returned]; rfl
    · rw [Ledger.observe_busy (by omega)]

theorem observe_return_slot {v : Int} :
    (L.observe ⟨s, .clearReturn t, some v, s'⟩).slotReq = L.slotReq := by
  cases own : L.own t with
  | none => simp only [Ledger.observe, own]
  | some r => rw [Ledger.observe_clearReturn own]; rfl

theorem RingFacts.step {label : DmaLabel Handle Thread} {out : Option Int}
    (facts : RingFacts L s) (stepped : dmaStep s label = some (out, s'))
    (usage : Usage L ⟨s, label, out, s'⟩) :
    RingFacts (L.observe ⟨s, label, out, s'⟩) s' := by
  have effect := dmaStep_effect stepped
  refine ⟨facts.delivery.step stepped usage, facts.turn.step effect, ?_⟩
  cases effect with
  | rejected dst src size h =>
    rw [Ledger.observe_rejected]
    exact facts.unused
  | posted dst src size h vacant vacated =>
    rw [Ledger.observe_posted]
    intro j unused
    obtain ⟨other, unused⟩ := unused_start unused
    rw [Ring.startDma_desc_other (s := vacant.initHandle h) (vacated.index ▸ other)]
    exact vacated.desc ▸ facts.unused j unused
  | pollSaved h saved =>
    rw [observe_poll_slot]
    exact facts.unused
  | pollCompleted h fresh done =>
    rw [observe_poll_slot]
    exact facts.unused
  | pollBusy h fresh busy =>
    rw [Ledger.observe_busy (by decide)]
    exact facts.unused
  | postWait t dst src size idle vacant vacated =>
    intro j unused
    obtain ⟨other, unused⟩ := unused_start unused
    have kept : (vacant.startDma dst src size .sync).vedmaDesc j = vacant.vedmaDesc j :=
      Ring.startDma_desc_other (vacated.index ▸ other)
    rw [show ((vacant.startDma dst src size .sync).setThread t (.waiting s.vedmaIndex)).vedmaDesc =
      (vacant.startDma dst src size .sync).vedmaDesc from rfl, kept]
    exact vacated.desc ▸ facts.unused j unused
  | waitDone t i waiting done => exact facts.unused
  | clearReturn t i word clearing =>
    rw [observe_return_slot]
    exact facts.unused
  | hardware i word busy done =>
    intro j unused
    by_cases here : j = i
    · intro running
      simp only [Ring.setWord, here, Function.update_self] at running
      rw [running, completed_one] at done
      exact absurd done (by simp)
    · simp only [Ring.setWord, Function.update_of_ne here]
      exact facts.unused j unused

/-! ## The accesses -/

section
variable {f f' : Cpu Handle Thread} {left : List (Store Handle)}
  {r r' : ServedRing Handle Thread} {pc pc' : Pc Handle} {m : Memory Handle}
  {out : Option Int} {q : Request Handle} {x : BitVec 64}

variable (Handle Thread) in
/-- The ring, called as `vedma.h` says. -/
def ringMachine :
    Machine (ServedRing Handle Thread) (RingLabel Handle Thread) (Option Int) :=
  (dmaMachine Handle Thread).atomic ringCalls

abbrev RingMatched (L : Ledger Handle Thread) (r : ServedRing Handle Thread)
    (e : CpuEntry Handle Thread) : Prop :=
  Machine.Matched (ringMachine Handle Thread) LinkedRing cpuEvent Machine.historyEvent
    (((Monitor.mk Ledger.blank Ledger.observe Usage).through Machine.operation).allowed L) r e
    (cpuMark e)

theorem matched_stutter (here : f.pc t = pc) (unmarked : pc.mark f.memory t = none)
    (linked : Linked f' left r) : RingMatched L r ⟨f, .access t, none, f'⟩ := by
  have none : cpuMark ⟨f, .access t, none, f'⟩ = none := by
    simp only [cpuMark, here, unmarked]
  rw [RingMatched, none]
  exact .stutter rfl ⟨left, linked⟩

theorem matched_serve {c : Call Handle} {op : DmaLabel Handle Thread} (here : f.pc t = pc)
    (marked : pc.mark f.memory t = some (.serve t op)) (called : r.phase t = .called c)
    (serves : Machine.Interface.serves ringCalls t c op = true)
    (stepped : dmaStep r.object op = some (out, s'))
    (linked : Usage L ⟨r.object, op, out, s'⟩ → ∃ left, Linked f' left (r.answer t out s')) :
    RingMatched L r ⟨f, .access t, none, f'⟩ := by
  have mark : cpuMark ⟨f, .access t, none, f'⟩ = some (.serve t op) := by
    simp only [cpuMark, here, marked]
  rw [RingMatched, mark]
  refine .step _ out _ (Machine.atomic_serve called serves stepped) rfl (fun used => ?_)
  refine linked (used ⟨r.object, op, out, s'⟩ ?_)
  simp [Machine.operation]

theorem matched_read (linked : Linked f left r) (here : f.pc t = pc)
    (unmarked : pc.mark f.memory t = none) (locked : pc'.locked = pc.locked)
    (same : pc'.left = pc.left) (tail : pc'.tail = pc.tail) (phase : pc'.phase = pc.phase)
    (sees : pc'.Sees f.memory) (register : ∀ call s63, pc' = .cas call s63 → s63 ≠ 0) :
    RingMatched L r ⟨f, .access t, none, f.move t f.memory pc'⟩ := by
  subst here
  exact matched_stutter rfl unmarked
    (linked.inside locked same tail sees register rfl (phase_same linked.phase phase))

/-- A request finds its descriptor taken: `ve_dma_post` gives up, and `ve_dma_post_wait` goes
on with `again`. -/
theorem matched_busy {again : Pc Handle} (linked : Linked f left r) (here : f.pc t = pc)
    (mark : pc.mark f.memory t = q.rejects t) (locked : pc.locked = true)
    (none : pc.left = []) (tail : pc.tail = .idle) (phase : pc.phase = .called (.request q))
    (stays : again = pc) (index : f.memory.vedmaIndex = i)
    (taken : f.memory.vedmaStatus i = .sync ∨
      ((∃ g, f.memory.vedmaStatus i = .handle g) ∧
        completed (f.memory.vedmaDesc i).word = false)) :
    RingMatched L r ⟨f, .access t, Option.none, f.move t f.memory (q.busy again)⟩ := by
  cases handle : q.handle with
  | none =>
    have loops : q.busy again = pc := by
      simp only [Request.busy, handle, stays]
    rw [loops]
    refine matched_read linked here (by rw [mark, Request.rejects, handle]) rfl rfl rfl rfl
      (here ▸ linked.sees t) (fun call s63 cas => linked.exclusive.register t call s63 ?_)
    rw [here, cas]
  | some h =>
    obtain rfl := linked.empty here locked none
    have gives : q.busy again = .stores [] (.returns (-eagain)) := by
      simp only [Request.busy, handle]
    rw [gives]
    refine matched_serve here (by rw [mark, Request.rejects, handle])
      (linked.called here phase) (by simp [ringCalls])
      (linked.ring ▸ Request.serve_rejected handle index taken) (fun _ => ⟨[], ?_⟩)
    refine linked.commit (here ▸ locked) trivial .nil ?_ rfl
    have idle : f.tails t = .idle := by rw [Cpu.tails, here, tail]
    rw [Machine.answer_object, Exit.tail, ← idle, Function.update_eq_self]
    exact linked.ring

omit [DecidableEq Handle] [DecidableEq Thread] in
theorem Request.start_exit (q : Request Handle) (s34 : DescIndex) (m : Memory Handle)
    (left : List (Store Handle)) : (Pc.stores left (q.exit s34)).Sees m := by
  cases handle : q.handle <;> simp [Pc.Sees, Request.exit, handle]

omit [DecidableEq Handle] in
theorem answer_request (called : r.phase t = .called (.request q)) (object : Ring Handle Thread) :
    (r.answer t q.answer object).phase = Function.update r.phase t (q.exit i).phase := by
  cases handle : q.handle with
  | none =>
    simp only [Request.answer, Request.exit, handle, Exit.phase, Machine.Served.answer]
    rw [← called, Function.update_eq_self]
  | some h =>
    simp only [Request.answer, Request.exit, handle, Exit.phase, Machine.Served.answer,
      Machine.Served.setPhase]

/-- The stores keep to descriptor `i`, and at most one starts it. -/
structure KeepsTo (left : List (Store Handle)) (i : DescIndex) : Prop where
  once : left.Pairwise fun w w' => ∀ j, w.starts = some j → w'.starts ≠ some j
  slot : ∀ w ∈ left, ∀ j, w.slot = some j → j = i

omit [DecidableEq Handle] in
theorem Request.start_keeps (q : Request Handle) (i : DescIndex) : KeepsTo (q.start i) i := by
  cases handle : q.handle <;> constructor <;>
    simp [Request.start, handle, Store.starts, Store.slot]

omit [DecidableEq Handle] in
theorem KeepsTo.cons {w : Store Handle} (keeps : KeepsTo left i) (none : w.starts = none)
    (slot : ∀ j, w.slot = some j → j = i) : KeepsTo (w :: left) i where
  once := by
    refine List.pairwise_cons.mpr ⟨fun w' _ j starts => ?_, keeps.once⟩
    rw [none] at starts
    exact absurd starts (by simp)
  slot := List.forall_mem_cons.mpr ⟨slot, keeps.slot⟩

theorem KeepsTo.apart {exit : Exit Handle} (keeps : KeepsTo left i)
    (facts : RingFacts L r.object) (linked : Linked f [] r)
    (stopped : (∃ w ∈ left, w.starts = some i) → (f.memory.vedmaDesc i).word ≠ 1)
    (entry : f.memory.vedmaStatus i ≠ .sync) :
    Apart (f.move t f.memory (.stores left exit)) left where
  once := keeps.once
  starts := by
    intro w member j starts
    obtain rfl := keeps.slot w member j (Store.slot_of_starts starts)
    exact stopped ⟨w, member, starts⟩
  waits := by
    intro w member j slot u holds
    obtain rfl := keeps.slot w member j slot
    by_cases here : u = t
    · rw [here, Cpu.move_self]
      rfl
    · rw [Cpu.tails, Cpu.move_other here] at holds
      have sync : ∃ r', Waits L r.object.vedmaStatus u j r' := by
        refine facts.waits (?_ : HoldsSlot j (r.object.thread u))
        rw [linked.ring]
        exact holds
      obtain ⟨r', waits⟩ := sync
      refine absurd ?_ entry
      have status := waits.entry
      rw [linked.ring] at status
      exact status

theorem matched_starts (facts : RingFacts L r.object) (linked : Linked f [] r)
    (here : f.pc t = pc) (mark : pc.mark f.memory t = some (.serve t (q.label t)))
    (locked : pc.locked = true) (phase : pc.phase = .called (.request q))
    (keeps : KeepsTo left i) (stopped : (f.memory.vedmaDesc i).word ≠ 1)
    (entry : f.memory.vedmaStatus i ≠ .sync)
    (stepped : dmaStep (f.memory.ring f.tails) (q.label t) = some (q.answer,
      (f.memory.after left).ring (Function.update f.tails t (q.exit i).tail))) :
    RingMatched L r ⟨f, .access t, none, f.move t f.memory (.stores left (q.exit i))⟩ := by
  have called := linked.called here phase
  refine matched_serve here mark called (by simp [ringCalls]) (linked.ring ▸ stepped)
    (fun _ => ⟨left, ?_⟩)
  refine linked.commit (here ▸ locked) (q.start_exit i f.memory _) ?_ Machine.answer_object
    (answer_request called _)
  exact keeps.apart facts linked (fun _ => stopped) entry

theorem matched_poll {h : Handle} {v : Int} (linked : Linked f [] r) (here : f.pc t = pc)
    (mark : pc.mark f.memory t = some (.serve t (.poll h))) (locked : pc.locked = true)
    (tail : pc.tail = .idle) (phase : pc.phase = .called (.poll h))
    (stepped : dmaStep (f.memory.ring f.tails) (.poll h) =
      some (some v, (f.memory.after left).ring f.tails))
    (apart : (∃ r' ∈ L.latest h, L.result r' = none) →
      Apart (f.move t f.memory (.stores left (.returns v))) left) :
    RingMatched L r ⟨f, .access t, none, f.move t f.memory (.stores left (.returns v))⟩ := by
  refine matched_serve here mark (linked.called here phase) (by simp [ringCalls])
    (linked.ring ▸ stepped) (fun used => ⟨left, ?_⟩)
  refine linked.commit (here ▸ locked) trivial (apart used) ?_ rfl
  have idle : f.tails t = .idle := by rw [Cpu.tails, here, tail]
  rw [Machine.answer_object, Exit.tail, ← idle, Function.update_eq_self]

omit [DecidableEq Handle] [DecidableEq Thread] in
theorem RingFacts.polled {h : Handle} (facts : RingFacts L s) (fresh : (s.handle h).status = -1)
    (used : ∃ r' ∈ L.latest h, L.result r' = none) :
    s.vedmaStatus (s.handle h).index = .handle h := by
  obtain ⟨r', latest, undelivered⟩ := used
  cases facts.delivery.ring.handles h r' latest with
  | saved done kept => exact absurd fresh done
  | pending fresh undelivered slot entry => exact entry
  | delivered fresh v result code cleared =>
    rw [undelivered] at result
    exact absurd result (by simp)

theorem matched_lhmPoll {h : Handle} (facts : RingFacts L r.object) (linked : Linked f left r)
    (here : f.pc t = .lhmPoll h i)
    (accessed : Accessed f.memory (.lhmPoll h i) out m pc') :
    RingMatched L r ⟨f, .access t, out, f.move t m pc'⟩ := by
  obtain rfl := linked.empty here rfl rfl
  have sees := linked.sees t
  rw [here] at sees
  obtain ⟨fresh, index⟩ := sees
  cases accessed with
  | pollDone h i done =>
    refine matched_poll linked here rfl rfl rfl rfl ?_ ?_
    · simp [dmaStep, veDmaPoll, Memory.ring, Memory.after, Memory.store, Memory.setStatus,
        Ring.clearEntry, fresh, index, done]
    · intro used
      have keeps : KeepsTo [(.status i .null : Store Handle)] i := by
        constructor <;> simp [Store.slot]
      refine keeps.apart facts linked (fun starts => ?_) ?_
      · simp [Store.starts] at starts
      · have entry := facts.polled (h := h) (by rw [linked.ring]; exact fresh) used
        rw [linked.ring] at entry
        have status : f.memory.vedmaStatus (f.memory.handle h).index = .handle h := entry
        rw [← index, status]
        simp
  | pollBusy h i busy =>
    refine matched_poll linked here rfl rfl rfl rfl ?_ (fun _ => .nil)
    simp [dmaStep, veDmaPoll, Memory.ring, fresh, index, busy]

omit [DecidableEq Thread] in
/-- No store that is left concerns a descriptor that a thread outside its section waits for. -/
theorem Linked.elsewhere (linked : Linked f left r) (was : (f.pc t).locked = false)
    (holds : HoldsSlot i (f.tails t)) : ∀ w ∈ left, w.slot ≠ some i := by
  intro w member slot
  have locked := linked.apart.waits w member i slot t holds
  rw [was] at locked
  exact absurd locked (by simp)

theorem matched_waitDone (linked : Linked f left r) (here : f.pc t = .lhmWait q i)
    (done : completed (f.memory.vedmaDesc i).word = true) :
    RingMatched L r ⟨f, .access t, none,
      f.move t f.memory (.stWait q i (f.memory.vedmaDesc i).word)⟩ := by
  have was : (f.pc t).locked = false := by rw [here]; rfl
  have tail : f.tails t = .waiting i := by rw [Cpu.tails, here]; rfl
  have other := linked.elsewhere was (i := i) (tail ▸ HoldsSlot.waiting)
  have word : ((f.memory.after left).vedmaDesc i).word = (f.memory.vedmaDesc i).word :=
    Memory.after_word_other fun w member starts =>
      other w member (Store.slot_of_starts starts)
  have handle : q.handle = Option.none := by
    have sees := linked.sees t
    rw [here] at sees
    exact sees
  have mark : (Pc.lhmWait q i).mark f.memory t = some (.serve t (.waitDone t)) := by
    simp [Pc.mark, done]
  have stepped : dmaStep r.object (.waitDone t) = some (none,
      r.object.setThread t (.clearing i (f.memory.vedmaDesc i).word)) := by
    rw [linked.object]
    simp [dmaStep, Memory.ring, tail, word, done, Ring.setThread]
  have called := linked.called here rfl
  refine matched_serve here mark called (by simp [ringCalls, handle]) stepped
    (fun _ => ⟨left, ?_⟩)
  refine linked.outside was rfl rfl rfl (fun j holds => ?_) (by simp) ?_ ?_ handle
    (fun u _ _ => linked.sees u)
  · rw [holds.index_clearing, here]
    exact .waiting
  · rw [Machine.answer_object, linked.object]
    rfl
  · exact ((Function.update_eq_self_iff).mpr called.symm).symm

theorem matched_stWait (facts : RingFacts L r.object) (linked : Linked f left r)
    (here : f.pc t = .stWait q i x) :
    RingMatched L r ⟨f, .access t, none,
      f.move t (f.memory.setStatus i .null) (.ret (exception x))⟩ := by
  have was : (f.pc t).locked = false := by rw [here]; rfl
  have tail : f.tails t = .clearing i x := by rw [Cpu.tails, here]; rfl
  have other := linked.elsewhere was (i := i) (tail ▸ HoldsSlot.clearing x)
  have handle : q.handle = Option.none := by
    have sees := linked.sees t
    rw [here] at sees
    exact sees
  have stepped : dmaStep r.object (.clearReturn t) = some (some (exception x),
      (r.object.clearEntry i).setThread t .idle) := by
    rw [linked.object]
    simp [dmaStep, Memory.ring, tail, Ring.setThread, Ring.clearEntry]
  refine matched_serve here rfl (linked.called here rfl) (by simp [ringCalls, handle]) stepped
    (fun _ => ⟨left, ?_⟩)
  refine linked.outside was rfl rfl rfl (fun j holds => holds.not_idle.elim) (by simp) ?_ rfl
    trivial ?_
  · rw [Machine.answer_object, linked.object, Memory.after_status_comm other]
    rfl
  · intro u _ locked
    have sync : ∃ r', Waits L r.object.vedmaStatus t i r' := by
      refine facts.waits (?_ : HoldsSlot i (r.object.thread t))
      rw [linked.object, show ((f.memory.after left).ring f.tails).thread t = .clearing i x
        from tail]
      exact .clearing x
    obtain ⟨r', waits⟩ := sync
    have status : f.memory.vedmaStatus i = .sync := by
      rw [← Memory.after_status_other other]
      have entry := waits.entry
      rw [linked.object] at entry
      exact entry
    refine (linked.sees u).setStatus fun g handle => ?_
    rw [status] at handle
    exact absurd handle (by simp)

theorem matched_null (facts : RingFacts L r.object) (linked : Linked f left r)
    (here : f.pc t = .ldStatus q i) (entry : f.memory.vedmaStatus i = .null) :
    RingMatched L r ⟨f, .access t, none,
      f.move t f.memory (.stores (q.start i) (q.exit i))⟩ := by
  obtain rfl := linked.empty here rfl rfl
  have index : f.memory.vedmaIndex = i := by
    have sees := linked.sees t
    rw [here] at sees
    exact sees
  have idle : f.tails t = .idle := by rw [Cpu.tails, here]; rfl
  refine matched_starts facts linked here (by simp [Pc.mark, entry]) rfl rfl (q.start_keeps i)
    ?_ (by simp [entry]) (Request.serve_null idle index entry)
  have stopped := facts.stopped (i := i) (by rw [linked.ring]; exact entry)
  rw [linked.ring] at stopped
  exact stopped

theorem matched_ldHandle {s62 : Int} {g : Handle} (facts : RingFacts L r.object)
    (linked : Linked f left r) (here : f.pc t = .ldHandle q i s62)
    (entry : f.memory.vedmaStatus i = .handle g) :
    RingMatched L r ⟨f, .access t, none, f.move t f.memory
      (.stores (.handleStatus g s62 :: .status i .null :: q.start i) (q.exit i))⟩ := by
  obtain rfl := linked.empty here rfl rfl
  have sees := linked.sees t
  rw [here] at sees
  obtain ⟨index, _, done, rfl⟩ := sees
  have idle : f.tails t = .idle := by rw [Cpu.tails, here]; rfl
  have keeps := ((q.start_keeps i).cons (w := .status i .null) rfl
    (by simp [Store.slot])).cons (w := .handleStatus g (exception (f.memory.vedmaDesc i).word))
    rfl (by simp [Store.slot])
  refine matched_starts facts linked here rfl rfl rfl keeps (fun running => ?_)
    (by simp [entry]) (Request.serve_saved idle index entry done)
  rw [running, completed_one] at done
  exact absurd done (by simp)

theorem matched_access (facts : RingFacts L r.object) (linked : Linked f left r)
    (here : f.pc t = pc) (accessed : Accessed f.memory pc out m pc')
    (exclusive : Exclusive (f.move t m pc')) :
    RingMatched L r ⟨f, .access t, out, f.move t m pc'⟩ := by
  have sees := linked.sees t
  rw [here] at sees
  cases accessed with
  | taken call s63 free =>
    obtain rfl := linked.leaves.nobody (linked.exclusive.free free)
    have leaves := Leaves.holder exclusive call.section_locked
    rw [call.section_left] at leaves
    refine matched_stutter here rfl (linked.gate exclusive leaves ?_ ?_ call.section_sees)
    · rw [call.section_tail, here]
      rfl
    · rw [call.section_phase, here]
      rfl
  | refused call s63 held =>
    refine matched_read linked here rfl rfl rfl rfl rfl trivial (fun call' s63' again => ?_)
    exact (Pc.cas.inj again).2 ▸ held
  | ldIndex q => exact matched_read linked here rfl rfl rfl rfl rfl rfl (by simp)
  | statusSync q i entry =>
    exact matched_busy linked here (by simp [Pc.mark, entry]) rfl rfl rfl rfl rfl sees
      (Or.inl entry)
  | statusNull q i entry => exact matched_null facts linked here entry
  | statusHandle q i g entry =>
    exact matched_read linked here (by simp [Pc.mark, entry]) rfl rfl rfl rfl ⟨sees, g, entry⟩
      (by simp)
  | descDone q i done =>
    exact matched_read linked here (by simp [Pc.mark, done]) rfl rfl rfl rfl
      ⟨sees.1, sees.2, done, rfl⟩ (by simp)
  | descBusy q i busy =>
    exact matched_busy linked here (by simp [Pc.mark, busy]) rfl rfl rfl rfl rfl sees.1
      (Or.inr ⟨sees.2, busy⟩)
  | ldHandle q i s62 g entry => exact matched_ldHandle facts linked here entry
  | pollSaved h saved =>
    obtain rfl := linked.empty here rfl rfl
    refine matched_poll linked here (by simp [Pc.mark, saved]) rfl rfl rfl ?_ (fun _ => .nil)
    simp [dmaStep, veDmaPoll, Memory.ring, saved]
  | pollFresh h fresh =>
    exact matched_read linked here (by simp [Pc.mark, fresh]) rfl rfl rfl rfl fresh (by simp)
  | ldlIndex h => exact matched_read linked here rfl rfl rfl rfl rfl ⟨sees, rfl⟩ (by simp)
  | pollDone h i done => exact matched_lhmPoll facts linked here (.pollDone h i done)
  | pollBusy h i busy => exact matched_lhmPoll facts linked here (.pollBusy h i busy)
  | store next left' exit =>
    have mine := linked.leaves.mine t (by rw [here]; rfl)
    rw [here] at mine
    obtain rfl : next :: left' = left := mine
    exact matched_stutter here rfl (linked.store here)
  | unlock exit =>
    obtain rfl := linked.empty here rfl rfl
    refine matched_stutter here rfl
      (linked.gate exclusive (.free rfl exclusive) ?_ ?_ (exit.pc_sees sees))
    · rw [exit.pc_tail, here]
      rfl
    · rw [exit.pc_phase, here]
      rfl
  | waitDone q i done => exact matched_waitDone linked here done
  | waitBusy q i busy =>
    exact matched_read linked here (by simp [Pc.mark, busy]) rfl rfl rfl rfl sees (by simp)
  | stWait q i word => exact matched_stWait facts linked here
  | ret s0 =>
    have mark : cpuMark ⟨f, .access t, some s0, f.move t f.memory .outside⟩ = some (.ret t) := by
      simp only [cpuMark, here, Pc.mark]
    have answered : r.phase t = .answered s0 := by
      rw [linked.phase t, here]
      rfl
    rw [RingMatched, mark]
    refine .step _ (some s0) _ (Machine.atomic_ret answered) rfl (fun _ => ⟨left, ?_⟩)
    refine linked.outside (by rw [here]; rfl) rfl rfl rfl
      (fun j holds => holds.not_idle.elim) (by simp) ?_ rfl trivial (fun u _ _ => linked.sees u)
    have idle : f.tails t = .idle := by rw [Cpu.tails, here]; rfl
    have object := linked.object
    rwa [← Function.update_eq_self t f.tails, idle] at object

theorem matched_step {sl : Thread → BitVec 64} (nonzero : ∀ t, sl t ≠ 0)
    {label : CpuLabel Handle Thread} (facts : RingFacts L r.object) (linked : LinkedRing f r)
    (stepped : cpuStep sl f label = some (out, f')) :
    RingMatched L r ⟨f, label, out, f'⟩ := by
  obtain ⟨left, linked⟩ := linked
  have effect := cpuStep_effect stepped
  have exclusive := linked.exclusive.step nonzero effect
  cases effect with
  | access t out m pc accessed => exact matched_access facts linked rfl accessed exclusive
  | call t c outside =>
    have idle : r.phase t = .idle := by
      rw [linked.phase t, outside]
      rfl
    refine .step _ none _ (Machine.atomic_call idle) rfl (fun _ => ⟨left, ?_⟩)
    refine linked.outside (by rw [outside]; rfl) rfl rfl rfl
      (fun j holds => holds.not_idle.elim) (fun call s63 cas => ?_) ?_ rfl trivial
      (fun u _ _ => linked.sees u)
    · exact (Pc.cas.inj cas).2 ▸ nonzero t
    · have idle : f.tails t = .idle := by rw [Cpu.tails, outside]; rfl
      have object := linked.object
      rwa [← Function.update_eq_self t f.tails, idle] at object
  | hardware i word busy done =>
    have other : ∀ w ∈ left, w.starts ≠ some i := fun w member starts =>
      linked.apart.starts w member i starts busy
    have running : (r.object.vedmaDesc i).word = 1 := by
      rw [linked.object]
      exact (Memory.after_word_other other).trans busy
    have stepped' : dmaStep r.object (.hardware i word) =
        some (none, r.object.setWord i word) := by
      simp [dmaStep, running, done]
    refine .step _ none _ (Machine.atomic_spontaneous rfl stepped') rfl (fun _ => ⟨left, ?_⟩)
    exact linked.hardware busy exclusive

end

end Libsysve.Vedma
