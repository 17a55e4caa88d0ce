import Mathlib.Logic.Relation
import Libsysve.Vedma.Linearizable

/-!
# Nobody waits for ever

Threads spin on the lock word, on the entry of the next descriptor while they hold the lock,
and on their own descriptor.  Whatever happened before, the thread that holds the lock can
give it back, and a call that need not wait for the lock can return: it takes accesses of the
calls that are under way, and the hardware.
-/

set_option autoImplicit false

namespace Libsysve.Vedma

variable {Handle Thread : Type} [DecidableEq Handle] [DecidableEq Thread]

def CpuLabel.isCall : CpuLabel Handle Thread → Bool
  | .call _ _ => true
  | .access _ | .hardware _ _ => false

/-- A step that is no new call. -/
def Cpu.Goes (sl : Thread → BitVec 64) (f f' : Cpu Handle Thread) : Prop :=
  ∃ label out, label.isCall = false ∧ cpuStep sl f label = some (out, f')

abbrev Cpu.Reaches (sl : Thread → BitVec 64) : Cpu Handle Thread → Cpu Handle Thread → Prop :=
  Relation.ReflTransGen (Cpu.Goes sl)

def Live (f : Cpu Handle Thread) : Prop :=
  ∃ s : ServedRing Handle Thread, LinkedRing f s ∧ ∃ L, RingFacts L s.object

/-- Steps of the ring for which no handle has to be used properly. -/
def RingLabel.quiet : RingLabel Handle Thread → Bool
  | .serve _ (.post _ _ _ _) | .serve _ (.poll _) => false
  | .spontaneous (.post _ _ _ _) | .spontaneous (.poll _) => false
  | _ => true

variable {sl : Thread → BitVec 64} {f f' : Cpu Handle Thread} {t : Thread}
  {label : CpuLabel Handle Thread} {out : Option Int} {L : Ledger Handle Thread}

theorem quiet_usage {s : ServedRing Handle Thread} {l : RingLabel Handle Thread}
    (quiet : RingLabel.quiet l = true) {s' : ServedRing Handle Thread} :
    (servedUsage Handle Thread).allowed L ⟨s, l, out, s'⟩ := by
  intro e taken
  cases l with
  | call t c => simp [Machine.operation] at taken
  | ret t => simp [Machine.operation] at taken
  | serve t op =>
    obtain rfl : (⟨s.object, op, out, s'.object⟩ : DmaEntry Handle Thread) = e := by
      simpa [Machine.operation] using taken
    cases op <;> trivial
  | spontaneous op =>
    obtain rfl : (⟨s.object, op, out, s'.object⟩ : DmaEntry Handle Thread) = e := by
      simpa [Machine.operation] using taken
    cases op <;> trivial

theorem Live.step (nonzero : ∀ t, sl t ≠ 0) (live : Live f)
    (stepped : cpuStep sl f label = some (out, f'))
    (quiet : ∀ l ∈ cpuMark ⟨f, label, out, f'⟩, RingLabel.quiet l = true) : Live f' := by
  obtain ⟨s, linked, L, facts⟩ := live
  have matched := matched_step nonzero facts linked stepped
  rw [RingMatched] at matched
  generalize cpuMark ⟨f, label, out, f'⟩ = mark at quiet matched
  cases matched with
  | stutter hidden related => exact ⟨s, related, L, facts⟩
  | step l out' s' stepped' seen related =>
    have used : (servedUsage Handle Thread).allowed L ⟨s, l, out', s'⟩ :=
      quiet_usage (quiet l rfl)
    exact ⟨s', related used, _, ServedFacts.step facts stepped' used⟩

/-! ## Single steps -/

theorem Cpu.Goes.access {m : Memory Handle} {pc pc' : Pc Handle} (here : f.pc t = pc)
    (step : Vedma.access f.memory pc = some (out, m, pc')) : Cpu.Goes sl f (f.move t m pc') :=
  ⟨.access t, out, rfl, by simp [cpuStep, here, step]⟩

theorem Live.access (nonzero : ∀ t, sl t ≠ 0) (live : Live f) {m : Memory Handle}
    {pc pc' : Pc Handle} (here : f.pc t = pc)
    (step : Vedma.access f.memory pc = some (out, m, pc'))
    (quiet : ∀ l ∈ pc.mark f.memory t, RingLabel.quiet l = true) :
    Live (f.move t m pc') := by
  have stepped : cpuStep sl f (.access t) = some (out, f.move t m pc') := by
    simp [cpuStep, here, step]
  refine live.step nonzero stepped (fun l marked => quiet l ?_)
  simpa [cpuMark, here] using marked

theorem Cpu.Reaches.access {m : Memory Handle} {pc pc' : Pc Handle}
    {goal : Cpu Handle Thread → Prop}
    (here : f.pc t = pc) (step : Vedma.access f.memory pc = some (out, m, pc'))
    (next : ∃ f', Cpu.Reaches sl (f.move t m pc') f' ∧ goal f') :
    ∃ f', Cpu.Reaches sl f f' ∧ goal f' := by
  obtain ⟨f', reaches, holds⟩ := next
  exact ⟨f', .head (.access here step) reaches, holds⟩

/-! ## The stores up to the one that unlocks -/

/-- A thread is out of its section, with the lock free: its call has its answer, or it waits
for its own descriptor. -/
def Released (t : Thread) (f : Cpu Handle Thread) : Prop :=
  f.memory.vedmaLock = 0 ∧
    ((∃ s0, f.pc t = .ret s0) ∨ ((∃ q i, f.pc t = .lhmWait q i) ∧ Live f))

theorem stores_return {left : List (Store Handle)} {s0 : Int}
    (here : f.pc t = .stores left (.returns s0)) :
    ∃ f', Cpu.Reaches sl f f' ∧ Released t f' := by
  induction left generalizing f with
  | nil =>
    refine Cpu.Reaches.access here rfl ⟨_, .refl, rfl, Or.inl ⟨s0, ?_⟩⟩
    rw [Cpu.move_self]
    rfl
  | cons next left ih => exact Cpu.Reaches.access here rfl (ih Cpu.move_self)

theorem stores_wait {left : List (Store Handle)} {q : Request Handle} {i : DescIndex}
    (nonzero : ∀ t, sl t ≠ 0) (live : Live f) (here : f.pc t = .stores left (.waits q i)) :
    ∃ f', Cpu.Reaches sl f f' ∧ Released t f' := by
  induction left generalizing f with
  | nil =>
    have after := live.access nonzero here rfl (by simp [Pc.mark])
    refine Cpu.Reaches.access here rfl ⟨_, .refl, rfl, Or.inr ⟨⟨q, i, ?_⟩, after⟩⟩
    rw [Cpu.move_self]
    rfl
  | cons next left ih =>
    have after := live.access nonzero here rfl (by simp [Pc.mark])
    exact Cpu.Reaches.access here rfl (ih after Cpu.move_self)

theorem started {left : List (Store Handle)} {q : Request Handle} {i : DescIndex} {pc : Pc Handle}
    (nonzero : ∀ t, sl t ≠ 0) (live : Live f) (here : f.pc t = pc)
    (mark : pc.mark f.memory t = some (.serve t (q.label t)))
    (step : Vedma.access f.memory pc = some (none, f.memory, .stores left (q.exit i))) :
    ∃ f', Cpu.Reaches sl f f' ∧ Released t f' := by
  refine Cpu.Reaches.access here step ?_
  cases handle : q.handle with
  | some h =>
    have now : (f.move t f.memory (.stores left (q.exit i))).pc t = .stores left (.returns 0) := by
      rw [Cpu.move_self, Request.exit, handle]
    exact stores_return now
  | none =>
    have now : (f.move t f.memory (.stores left (q.exit i))).pc t = .stores left (.waits q i) := by
      rw [Cpu.move_self, Request.exit, handle]
    refine stores_wait nonzero (live.access nonzero here step ?_) now
    simp [mark, Request.label, handle, RingLabel.quiet]

/-! ## The section -/

variable {q : Request Handle} {i : DescIndex} {g : Handle}

omit [DecidableEq Thread] in
theorem Live.linked (live : Live f) : ∃ left s, Linked f left s ∧ ∃ L, RingFacts L s.object := by
  obtain ⟨s, ⟨left, linked⟩, facts⟩ := live
  exact ⟨left, s, linked, facts⟩

omit [DecidableEq Handle] [DecidableEq Thread] in
theorem RingFacts.running {s : Ring Handle Thread} {r : Nat} (facts : RingFacts L s)
    (slot : L.slotReq i = some r) :
    completed (s.vedmaDesc i).word = true ∨ (s.vedmaDesc i).word = 1 := by
  rcases facts.delivery.ring.booked.word i r slot with ⟨running, _⟩ | ⟨done, _⟩
  · exact Or.inr running
  · exact Or.inl done

theorem hardware_step (busy : (f.memory.vedmaDesc i).word = 1) :
    cpuStep sl f (.hardware i 2) = some (none, f.setMemory (f.memory.store (.word i 2))) :=
  if_pos ⟨busy, by decide⟩

theorem Cpu.Goes.hardware (busy : (f.memory.vedmaDesc i).word = 1) :
    Cpu.Goes sl f (f.setMemory (f.memory.store (.word i 2))) :=
  ⟨.hardware i 2, none, rfl, hardware_step busy⟩

theorem Live.hardware (nonzero : ∀ t, sl t ≠ 0) (live : Live f)
    (busy : (f.memory.vedmaDesc i).word = 1) :
    Live (f.setMemory (f.memory.store (.word i 2))) := by
  refine live.step nonzero (hardware_step busy) (fun l marked => ?_)
  obtain rfl : .spontaneous (.hardware i 2) = l := by simpa [cpuMark] using marked
  rfl

omit [DecidableEq Thread] in
theorem hardware_done :
    completed ((f.setMemory (f.memory.store (.word i 2))).memory.vedmaDesc i).word = true := by
  rw [Cpu.setMemory, Memory.store, Memory.setDesc]
  simp only [Function.update_self]
  decide

theorem ldHandle_released {s62 : Int} (nonzero : ∀ t, sl t ≠ 0) (live : Live f)
    (here : f.pc t = .ldHandle q i s62) : ∃ f', Cpu.Reaches sl f f' ∧ Released t f' := by
  obtain ⟨left, s, linked, _⟩ := live.linked
  have sees := linked.sees t
  rw [here] at sees
  obtain ⟨_, ⟨g, entry⟩, _⟩ := sees
  have step : Vedma.access f.memory (.ldHandle q i s62) = some (none, f.memory,
      .stores (.handleStatus g s62 :: .status i .null :: q.start i) (q.exit i)) := by
    simp [Vedma.access, entry]
  exact started nonzero live here rfl step

theorem lhmDesc_done (nonzero : ∀ t, sl t ≠ 0) (live : Live f) (here : f.pc t = .lhmDesc q i)
    (done : completed (f.memory.vedmaDesc i).word = true) :
    ∃ f', Cpu.Reaches sl f f' ∧ Released t f' := by
  have step : Vedma.access f.memory (.lhmDesc q i) =
      some (none, f.memory, .ldHandle q i (exception (f.memory.vedmaDesc i).word)) := by
    simp [Vedma.access, done]
  have after := live.access nonzero here step (by simp [Pc.mark, done])
  exact Cpu.Reaches.access here step (ldHandle_released nonzero after Cpu.move_self)

/-- The entry of the next descriptor is a handle: the hardware completes its request. -/
theorem lhmDesc_released (nonzero : ∀ t, sl t ≠ 0) (live : Live f)
    (here : f.pc t = .lhmDesc q i) : ∃ f', Cpu.Reaches sl f f' ∧ Released t f' := by
  by_cases done : completed (f.memory.vedmaDesc i).word = true
  · exact lhmDesc_done nonzero live here done
  · obtain ⟨left, s, linked, L, facts⟩ := live.linked
    obtain rfl := linked.empty here rfl rfl
    have sees := linked.sees t
    rw [here] at sees
    obtain ⟨_, g, entry⟩ := sees
    have accounted := facts.turn.accounted i
    rw [linked.ring, show (f.memory.ring f.tails).vedmaStatus i = .handle g from entry]
      at accounted
    cases accounted with
    | handle g r slot =>
      have running := facts.running slot
      rw [linked.ring] at running
      have busy : (f.memory.vedmaDesc i).word = 1 := running.resolve_left done
      have after := live.hardware nonzero busy
      obtain ⟨f', reaches, released⟩ := lhmDesc_done nonzero after here hardware_done
      exact ⟨f', .head (.hardware busy) reaches, released⟩

/-! ## The wait for the own descriptor -/

variable {u : Thread}

structure Moved (sl : Thread → BitVec 64) (u : Thread) (f f' : Cpu Handle Thread) : Prop where
  reaches : Cpu.Reaches sl f f'
  live : Live f'
  others : ∀ t, t ≠ u → f'.pc t = f.pc t

theorem Moved.access (nonzero : ∀ t, sl t ≠ 0) (live : Live f) {m : Memory Handle}
    {pc pc' : Pc Handle} (here : f.pc u = pc)
    (step : Vedma.access f.memory pc = some (out, m, pc'))
    (quiet : ∀ l ∈ pc.mark f.memory u, RingLabel.quiet l = true) :
    Moved sl u f (f.move u m pc') where
  reaches := .single (.access here step)
  live := live.access nonzero here step quiet
  others _ other := Cpu.move_other other

theorem Moved.trans {f'' : Cpu Handle Thread} (first : Moved sl u f f')
    (second : Moved sl u f' f'') : Moved sl u f f'' where
  reaches := first.reaches.trans second.reaches
  live := second.live
  others t other := (second.others t other).trans (first.others t other)

omit [DecidableEq Thread] in
theorem wait_running (live : Live f) (here : f.pc u = .lhmWait q i) :
    completed (f.memory.vedmaDesc i).word = true ∨ (f.memory.vedmaDesc i).word = 1 := by
  obtain ⟨left, s, linked, L, facts⟩ := live.linked
  have tail : f.tails u = .waiting i := by rw [Cpu.tails, here]; rfl
  have other := linked.elsewhere (by rw [here]; rfl) (tail ▸ HoldsSlot.waiting)
  have holds : HoldsSlot i (s.object.thread u) := by
    rw [linked.object, show ((f.memory.after left).ring f.tails).thread u = .waiting i from tail]
    exact .waiting
  obtain ⟨r, waits⟩ := facts.waits holds
  have running := facts.running waits.slot
  have word : (s.object.vedmaDesc i).word = (f.memory.vedmaDesc i).word := by
    rw [linked.object]
    exact Memory.after_word_other fun w member starts =>
      other w member (Store.slot_of_starts starts)
  rwa [word] at running

theorem wait_done (nonzero : ∀ t, sl t ≠ 0) (live : Live f) (here : f.pc u = .lhmWait q i)
    (done : completed (f.memory.vedmaDesc i).word = true) :
    ∃ f' x, Moved sl u f f' ∧ f'.pc u = .stWait q i x := by
  have step : Vedma.access f.memory (.lhmWait q i) =
      some (none, f.memory, .stWait q i (f.memory.vedmaDesc i).word) := by
    simp [Vedma.access, done]
  refine ⟨_, _, Moved.access nonzero live here step ?_, Cpu.move_self⟩
  simp [Pc.mark, done, RingLabel.quiet]

theorem wait_ends (nonzero : ∀ t, sl t ≠ 0) (live : Live f) (here : f.pc u = .lhmWait q i) :
    ∃ f' x, Moved sl u f f' ∧ f'.pc u = .stWait q i x := by
  rcases wait_running live here with done | busy
  · exact wait_done nonzero live here done
  · obtain ⟨f', x, moved, now⟩ := wait_done nonzero (live.hardware nonzero busy) here hardware_done
    exact ⟨f', x, ⟨.head (.hardware busy) moved.reaches, moved.live, moved.others⟩, now⟩

theorem entry_clears (nonzero : ∀ t, sl t ≠ 0) (live : Live f)
    (here : (∃ q, f.pc u = .lhmWait q i) ∨ ∃ q x, f.pc u = .stWait q i x) :
    ∃ f' s0, Moved sl u f f' ∧ f'.memory.vedmaStatus i = .null ∧ f'.pc u = .ret s0 := by
  have clears : ∀ {f : Cpu Handle Thread} {q x}, Live f → f.pc u = .stWait q i x →
      ∃ f' s0, Moved sl u f f' ∧ f'.memory.vedmaStatus i = .null ∧ f'.pc u = .ret s0 := by
    intro f q x live here
    refine ⟨_, _, Moved.access nonzero live here rfl ?_, Function.update_self .., Cpu.move_self⟩
    simp [Pc.mark, RingLabel.quiet]
  rcases here with ⟨q, here⟩ | ⟨q, x, here⟩
  · obtain ⟨f₁, x, moved, now⟩ := wait_ends nonzero live here
    obtain ⟨f₂, s0, moved', cleared, done⟩ := clears moved.live now
    exact ⟨f₂, s0, moved.trans moved', cleared, done⟩
  · exact clears live here

omit [DecidableEq Thread] in
theorem sync_waiting (live : Live f) (here : f.pc t = .ldStatus q i)
    (entry : f.memory.vedmaStatus i = .sync) :
    ∃ u, u ≠ t ∧ ((∃ q, f.pc u = .lhmWait q i) ∨ ∃ q x, f.pc u = .stWait q i x) := by
  obtain ⟨left, s, linked, L, facts⟩ := live.linked
  obtain rfl := linked.empty here rfl rfl
  have accounted := facts.turn.accounted i
  rw [linked.ring, show (f.memory.ring f.tails).vedmaStatus i = .sync from entry] at accounted
  cases accounted with
  | sync u holds =>
    have holds : HoldsSlot i (f.pc u).tail := holds
    have other : u ≠ t := by
      rintro rfl
      rw [here] at holds
      exact holds.not_idle
    refine ⟨u, other, ?_⟩
    cases pc : f.pc u with
    | lhmWait q j =>
      rw [pc] at holds
      obtain rfl := holds.index
      exact Or.inl ⟨q, rfl⟩
    | stWait q j x =>
      rw [pc] at holds
      obtain rfl := holds.index_clearing
      exact Or.inr ⟨q, x, rfl⟩
    | stores left exit =>
      exact absurd (linked.exclusive.one u t (by rw [pc]; rfl) (by rw [here]; rfl)) other
    | _ =>
      rw [pc] at holds
      exact holds.not_idle.elim

/-! ## Every call -/

theorem ldStatus_null (nonzero : ∀ t, sl t ≠ 0) (live : Live f) (here : f.pc t = .ldStatus q i)
    (entry : f.memory.vedmaStatus i = .null) : ∃ f', Cpu.Reaches sl f f' ∧ Released t f' := by
  have step : Vedma.access f.memory (.ldStatus q i) =
      some (none, f.memory, .stores (q.start i) (q.exit i)) := by
    simp [Vedma.access, entry]
  exact started nonzero live here (by simp [Pc.mark, entry]) step

theorem ldStatus_released (nonzero : ∀ t, sl t ≠ 0) (live : Live f)
    (here : f.pc t = .ldStatus q i) : ∃ f', Cpu.Reaches sl f f' ∧ Released t f' := by
  cases entry : f.memory.vedmaStatus i with
  | null => exact ldStatus_null nonzero live here entry
  | handle g =>
    have step : Vedma.access f.memory (.ldStatus q i) = some (none, f.memory, .lhmDesc q i) := by
      simp [Vedma.access, entry]
    have after := live.access nonzero here step (by simp [Pc.mark, entry])
    exact Cpu.Reaches.access here step (lhmDesc_released nonzero after Cpu.move_self)
  | sync =>
    -- the thread that the entry belongs to does not need the lock
    obtain ⟨u, other, waiting⟩ := sync_waiting live here entry
    obtain ⟨f₁, _, moved, cleared, _⟩ := entry_clears nonzero live waiting
    have still : f₁.pc t = .ldStatus q i := (moved.others t other.symm).trans here
    obtain ⟨f₂, reaches, released⟩ := ldStatus_null nonzero moved.live still cleared
    exact ⟨f₂, moved.reaches.trans reaches, released⟩

theorem section_released (nonzero : ∀ t, sl t ≠ 0) (live : Live f)
    (locked : (f.pc t).locked = true) : ∃ f', Cpu.Reaches sl f f' ∧ Released t f' := by
  have poll : ∀ {f : Cpu Handle Thread} {h i}, f.pc t = .lhmPoll h i →
      ∃ f', Cpu.Reaches sl f f' ∧ Released t f' := by
    intro f h i here
    by_cases done : completed (f.memory.vedmaDesc i).word = true
    · exact Cpu.Reaches.access here (if_pos done) (stores_return Cpu.move_self)
    · exact Cpu.Reaches.access here (if_neg done) (stores_return Cpu.move_self)
  cases here : f.pc t with
  | ldIndex q =>
    have after := live.access nonzero here rfl (by simp [Pc.mark])
    exact Cpu.Reaches.access here rfl (ldStatus_released nonzero after Cpu.move_self)
  | ldStatus q i => exact ldStatus_released nonzero live here
  | lhmDesc q i => exact lhmDesc_released nonzero live here
  | ldHandle q i s62 => exact ldHandle_released nonzero live here
  | ldlStatus h =>
    by_cases fresh : (f.memory.handle h).status = -1
    · refine Cpu.Reaches.access here (if_neg (not_not.mpr fresh)) ?_
      exact Cpu.Reaches.access Cpu.move_self rfl (poll Cpu.move_self)
    · exact Cpu.Reaches.access here (if_pos fresh) (stores_return Cpu.move_self)
  | ldlIndex h => exact Cpu.Reaches.access here rfl (poll Cpu.move_self)
  | lhmPoll h i => exact poll here
  | stores left exit =>
    cases exit with
    | returns s0 => exact stores_return here
    | waits q i => exact stores_wait nonzero live here
  | _ =>
    rw [here] at locked
    exact absurd locked (by simp [Pc.locked])

theorem ret_returns {s0 : Int} (here : f.pc t = .ret s0) :
    ∃ f', Cpu.Reaches sl f f' ∧ f'.pc t = .outside :=
  Cpu.Reaches.access here rfl ⟨_, .refl, Cpu.move_self⟩

theorem wait_returns (nonzero : ∀ t, sl t ≠ 0) (live : Live f)
    (here : (∃ q, f.pc t = .lhmWait q i) ∨ ∃ q x, f.pc t = .stWait q i x) :
    ∃ f', Cpu.Reaches sl f f' ∧ f'.pc t = .outside := by
  obtain ⟨f₁, s0, moved, _, done⟩ := entry_clears nonzero live here
  have returns : ∃ f', Cpu.Reaches sl f₁ f' ∧ f'.pc t = .outside := ret_returns done
  obtain ⟨f₂, reaches, out⟩ := returns
  exact ⟨f₂, moved.reaches.trans reaches, out⟩

theorem section_returns (nonzero : ∀ t, sl t ≠ 0) (live : Live f)
    (locked : (f.pc t).locked = true) : ∃ f', Cpu.Reaches sl f f' ∧ f'.pc t = .outside := by
  obtain ⟨f₁, reaches, _, ⟨s0, done⟩ | ⟨⟨q, i, waits⟩, live'⟩⟩ :=
    section_released nonzero live locked
  · have returns : ∃ f', Cpu.Reaches sl f₁ f' ∧ f'.pc t = .outside := ret_returns done
    obtain ⟨f₂, last, out⟩ := returns
    exact ⟨f₂, reaches.trans last, out⟩
  · obtain ⟨f₂, last, out⟩ := wait_returns nonzero live' (Or.inl ⟨q, waits⟩)
    exact ⟨f₂, reaches.trans last, out⟩

/-- A call that does not have to wait for somebody else's section can return. -/
theorem call_returns (nonzero : ∀ t, sl t ≠ 0) (live : Live f)
    (gate : f.memory.vedmaLock = 0 ∨ ∀ call s63, f.pc t ≠ .cas call s63) :
    ∃ f', Cpu.Reaches sl f f' ∧ f'.pc t = .outside := by
  cases here : f.pc t with
  | outside => exact ⟨f, .refl, here⟩
  | cas call s63 =>
    have free : f.memory.vedmaLock = 0 := gate.resolve_right fun waits => waits call s63 here
    have step : Vedma.access f.memory (.cas call s63) =
        some (none, f.memory.setLock s63, call.section) := if_pos free
    have after := live.access nonzero here step (by simp [Pc.mark])
    exact Cpu.Reaches.access here step
      (section_returns nonzero after (by rw [Cpu.move_self, call.section_locked]))
  | ret s0 => exact ret_returns here
  | lhmWait q i => exact wait_returns nonzero live (Or.inl ⟨q, here⟩)
  | stWait q i x => exact wait_returns nonzero live (Or.inr ⟨q, x, here⟩)
  | _ => exact section_returns nonzero live (by rw [here]; rfl)

/-- In every state that a run reaches with handles that are used properly, the calls under
way and the hardware can bring the lock back, and every call that need not wait for the lock
can return. -/
theorem vedma_lock_live (desc : DescIndex → DmaDesc) (handle : Handle → VeDmaHandle)
    (sl : Thread → BitVec 64) (nonzero : ∀ t, sl t ≠ 0) (stopped : ∀ i, (desc i).word ≠ 1)
    (trace : List (CpuEntry Handle Thread)) (final : Cpu Handle Thread)
    (run : (cpuMachine Handle sl).Run (Cpu.initial desc handle) trace final)
    (usage : (Monitor.mk Ledger.blank Ledger.observe Usage).Safe (ringSteps desc handle trace)) :
    (∃ f, Cpu.Reaches sl final f ∧ f.memory.vedmaLock = 0) ∧
      ∀ t, (final.memory.vedmaLock = 0 ∨ ∀ call s63, final.pc t ≠ .cas call s63) →
        ∃ f, Cpu.Reaches sl final f ∧ f.pc t = .outside := by
  obtain ⟨s, _, linked, _, facts⟩ := cpu_simulated desc handle nonzero stopped run usage
  have live : Live final := ⟨s, linked, facts⟩
  refine ⟨?_, fun t gate => call_returns nonzero live gate⟩
  by_cases free : final.memory.vedmaLock = 0
  · exact ⟨final, .refl, free⟩
  · obtain ⟨left, linked⟩ := linked
    obtain ⟨t, locked⟩ := linked.exclusive.held free
    obtain ⟨f, reaches, released⟩ := section_released nonzero live locked
    exact ⟨f, reaches, released.1⟩

/-- Thread 0 waits for its own descriptor, thread 1 is in its section, and thread 2 has just
failed to take the lock. -/
def waitingLabels : List (CpuLabel Nat Nat) :=
  [.call 0 (.request ⟨0x100, 0x200, 8, none⟩)] ++ List.replicate 10 (.access 0) ++
    [.call 1 (.request ⟨0x300, 0x400, 8, some 7⟩), .access 1, .access 1, .access 1,
      .call 2 (.request ⟨0x500, 0x600, 8, none⟩), .access 2]

theorem vedma_lock_live_waiting :
    ∃ trace final, (cpuMachine Nat (fun _ => 0x1000)).exec (Cpu.initial blankDesc blankHandle)
        waitingLabels = some (trace, final) ∧
      final.memory.vedmaLock = 0x1000 ∧
      (∃ f, Cpu.Reaches (fun _ => 0x1000) final f ∧ f.memory.vedmaLock = 0) ∧
      ∃ f, Cpu.Reaches (fun _ => 0x1000) final f ∧ f.pc 0 = .outside := by
  have checked : ((cpuMachine Nat (fun _ => 0x1000)).exec (Cpu.initial blankDesc blankHandle)
      waitingLabels).any (fun done =>
        decide (done.2.memory.vedmaLock = 0x1000 ∧ (done.2.pc 0).tail.isIdle = false ∧
          (Monitor.mk Ledger.blank Ledger.observe Usage).SafeFrom Ledger.blank
            (ringSteps blankDesc blankHandle done.1))) = true := by
    decide +kernel
  rw [Option.any_eq_true] at checked
  obtain ⟨⟨trace, final⟩, ran, holds⟩ := checked
  obtain ⟨held, tail, used⟩ := of_decide_eq_true holds
  have usage := (Monitor.mk Ledger.blank Ledger.observe Usage).safe_of_safeFrom _ used
  obtain ⟨free, returns⟩ := vedma_lock_live blankDesc blankHandle (fun _ => 0x1000)
    (fun _ => by decide) (fun _ => by simp [blankDesc]) trace final (Machine.exec_run ran) usage
  refine ⟨trace, final, ran, held, free, returns 0 (Or.inr fun call s63 cas => ?_)⟩
  rw [cas] at tail
  exact absurd tail (by simp [Pc.tail, PostWait.isIdle])

end Libsysve.Vedma
