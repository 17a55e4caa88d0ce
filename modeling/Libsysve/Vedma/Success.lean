import Libsysve.Vedma.Ring

/-!
# A ring on which every DMA succeeds

`ve_dma_post` is refused exactly when the next descriptor is busy.  When every request that
completes has code 0, a poll of a handle that was posted returns 0 or `-EAGAIN`, whoever else
uses the ring and however often it has come round.
-/

set_option autoImplicit false

namespace Libsysve.Vedma

variable {Handle Thread : Type}

/-- The next descriptor is that of a synchronous request or of one that is not completed. -/
def Ring.NextBusy (s : Ring Handle Thread) : Prop :=
  match s.vedmaStatus s.vedmaIndex with
  | .null => False
  | .sync => True
  | .handle _ => completed s.nextWord = false

instance Ring.decidableNextBusy (s : Ring Handle Thread) : Decidable s.NextBusy := by
  unfold Ring.NextBusy
  split <;> infer_instance

/-- A request that completes has code 0. -/
def Succeeds (e : DmaEntry Handle Thread) : Prop :=
  match e.label with
  | .hardware _ word => exception word = 0
  | _ => True

instance decidableSucceeds : (e : DmaEntry Handle Thread) → Decidable (Succeeds e)
  | ⟨_, .hardware _ word, _, _⟩ => inferInstanceAs (Decidable (exception word = 0))
  | ⟨_, .post .., _, _⟩ => isTrue trivial
  | ⟨_, .poll _, _, _⟩ => isTrue trivial
  | ⟨_, .postWait .., _, _⟩ => isTrue trivial
  | ⟨_, .waitDone _, _, _⟩ => isTrue trivial
  | ⟨_, .clearReturn _, _, _⟩ => isTrue trivial

def SlotsOk (s : Ring Handle Thread) : Prop :=
  ∀ i, s.vedmaStatus i ≠ .null → exception (s.vedmaDesc i).word = 0

/-- What is to be found for the handle is code 0. -/
def HandleOk (s : Ring Handle Thread) (h : Handle) : Prop :=
  (s.handle h).status = 0 ∨
    ((s.handle h).status = -1 ∧ exception (s.vedmaDesc (s.handle h).index).word = 0)

theorem slotsOk_initial (desc : DescIndex → DmaDesc) (handle : Handle → VeDmaHandle) :
    SlotsOk (Ring.initial desc handle : Ring Handle Thread) :=
  fun _ used => absurd rfl used

variable {s s' : Ring Handle Thread}

section
variable [DecidableEq Handle]

theorem veDmaPost_accepted (s : Ring Handle Thread) (dst src : BitVec 64) (size : BitVec 32)
    (h : Handle) : (veDmaPost s dst src size h).1 = 0 ↔ ¬s.NextBusy := by
  cases entry : s.vedmaStatus s.vedmaIndex with
  | null => simp [veDmaPost, Ring.NextBusy, entry]
  | sync => simp [veDmaPost, Ring.NextBusy, entry, eagain]
  | handle g => cases done : completed s.nextWord <;>
      simp [veDmaPost, Ring.NextBusy, entry, done, eagain]

/-! ## The steps -/

theorem Vacated.used {vacant : Ring Handle Thread} (vacated : Vacated s vacant) {i : DescIndex}
    (used : vacant.vedmaStatus i ≠ .null) : s.vedmaStatus i ≠ .null := by
  cases vacated with
  | free entry => exact used
  | saved g entry done =>
    by_cases next : i = s.vedmaIndex
    · rw [next, entry]
      simp
    · rwa [Ring.saveStatus_entry_other next] at used

theorem Vacated.handleOk {vacant : Ring Handle Thread} (vacated : Vacated s vacant)
    (slots : SlotsOk s) {h : Handle} (ok : HandleOk s h) : HandleOk vacant h := by
  cases vacated with
  | free entry => exact ok
  | saved g entry done =>
    by_cases same : h = g
    · left
      rw [same, Ring.saveStatus_handle_self]
      exact slots s.vedmaIndex (by simp [entry])
    · rw [HandleOk, Ring.saveStatus_handle_other same]
      exact ok

end

theorem startDma_code {dst src : BitVec 64} {size : BitVec 32} {entry : StatusEntry Handle}
    {i : DescIndex} (ok : i ≠ s.vedmaIndex → exception (s.vedmaDesc i).word = 0) :
    exception ((s.startDma dst src size entry).vedmaDesc i).word = 0 := by
  by_cases next : i = s.vedmaIndex
  · rw [next]
    simp only [Ring.startDma, Function.update_self]
    decide
  · rw [Ring.startDma_desc_other next]
    exact ok next

theorem SlotsOk.startDma {dst src : BitVec 64} {size : BitVec 32} {entry : StatusEntry Handle}
    (slots : SlotsOk s) : SlotsOk (s.startDma dst src size entry) := by
  intro i used
  refine startDma_code fun other => slots i ?_
  rwa [Ring.startDma_entry_other other] at used

theorem HandleOk.startDma {dst src : BitVec 64} {size : BitVec 32} {entry : StatusEntry Handle}
    {h : Handle} (ok : HandleOk s h) : HandleOk (s.startDma dst src size entry) h :=
  ok.imp id fun ⟨fresh, code⟩ => ⟨fresh, startDma_code fun _ => code⟩

theorem SlotsOk.vacated [DecidableEq Handle] {vacant : Ring Handle Thread} (slots : SlotsOk s)
    (vacated : Vacated s vacant) : SlotsOk vacant := by
  intro i used
  rw [vacated.desc]
  exact slots i (vacated.used used)

theorem SlotsOk.clearEntry (slots : SlotsOk s) (i : DescIndex) : SlotsOk (s.clearEntry i) := by
  intro j used
  by_cases same : j = i
  · rw [same, Ring.clearEntry_self] at used
    exact absurd rfl used
  · rw [Ring.clearEntry_other same] at used
    exact slots j used

theorem setWord_code {word : BitVec 64} (code : exception word = 0) {i j : DescIndex}
    (ok : exception (s.vedmaDesc j).word = 0) :
    exception ((s.setWord i word).vedmaDesc j).word = 0 := by
  by_cases same : j = i
  · rw [same]
    simp only [Ring.setWord, Function.update_self]
    exact code
  · simp only [Ring.setWord, Function.update_of_ne same]
    exact ok

theorem handleOk_post [DecidableEq Handle] (s : Ring Handle Thread) (dst src : BitVec 64)
    (size : BitVec 32) (h : Handle) :
    HandleOk ((s.initHandle h).startDma dst src size (.handle h)) h := by
  have entry : ((s.initHandle h).startDma dst src size (.handle h)).handle h =
      { status := -1, index := s.vedmaIndex } := Ring.initHandle_self
  right
  rw [entry]
  exact ⟨rfl, startDma_code fun other => absurd rfl other⟩

variable [DecidableEq Handle] [DecidableEq Thread] {label : DmaLabel Handle Thread}
  {out : Option Int}

theorem Effect.slotsOk (effect : Effect s label out s') (slots : SlotsOk s)
    (succeeds : Succeeds ⟨s, label, out, s'⟩) : SlotsOk s' := by
  cases effect with
  | rejected dst src size h => exact slots
  | posted dst src size h vacant vacated =>
    have free : SlotsOk vacant := slots.vacated vacated
    have set : SlotsOk (vacant.initHandle h) := free
    exact set.startDma
  | pollSaved h saved => exact slots
  | pollCompleted h fresh done => exact slots.clearEntry _
  | pollBusy h fresh busy => exact slots
  | postWait t dst src size idle vacant vacated => exact (slots.vacated vacated).startDma
  | waitDone t i waiting done => exact slots
  | clearReturn t i word clearing => exact slots.clearEntry i
  | hardware i word busy done => exact fun j used => setWord_code succeeds (slots j used)

theorem Effect.handleOk (effect : Effect s label out s') (slots : SlotsOk s)
    (succeeds : Succeeds ⟨s, label, out, s'⟩) {h : Handle} (ok : HandleOk s h) :
    HandleOk s' h := by
  cases effect with
  | rejected dst src size h' => exact ok
  | posted dst src size h' vacant vacated =>
    by_cases same : h = h'
    · rw [same]
      exact handleOk_post vacant dst src size h'
    · have kept := vacated.handleOk slots ok
      have other : HandleOk (vacant.initHandle h') h := by
        rw [HandleOk, Ring.initHandle_other same]
        exact kept
      exact other.startDma
  | pollSaved h' saved => exact ok
  | pollCompleted h' fresh done => exact ok
  | pollBusy h' fresh busy => exact ok
  | postWait t dst src size idle vacant vacated =>
    have kept : HandleOk (vacant.startDma dst src size .sync) h :=
      (vacated.handleOk slots ok).startDma
    exact kept
  | waitDone t i waiting done => exact ok
  | clearReturn t i word clearing => exact ok
  | hardware i word busy done =>
    exact ok.imp id fun ⟨fresh, code⟩ => ⟨fresh, setWord_code succeeds code⟩

theorem HandleOk.poll {h : Handle} (ok : HandleOk s h) {ret : Int}
    (effect : Effect s (.poll h) (some ret) s') : ret = 0 ∨ ret = -eagain := by
  cases effect with
  | pollSaved _ saved =>
    rcases ok with zero | ⟨fresh, _⟩
    · exact .inl zero
    · exact absurd fresh saved
  | pollCompleted _ fresh done =>
    rcases ok with zero | ⟨_, code⟩
    · rw [zero] at fresh
      exact absurd fresh (by decide)
    · exact .inl code
  | pollBusy _ fresh busy => exact .inr rfl

theorem slotsOk_run {start final : Ring Handle Thread} {trace : List (DmaEntry Handle Thread)}
    (slots : SlotsOk start) (run : (dmaMachine Handle Thread).Run start trace final)
    (succeed : ∀ e ∈ trace, Succeeds e) : SlotsOk final := by
  induction run with
  | nil => exact slots
  | snoc ran stepped ih =>
    have before := ih fun e member => succeed e (List.mem_append_left _ member)
    exact (dmaStep_effect stepped).slotsOk before
      (succeed _ (List.mem_append_right _ (List.mem_singleton_self _)))

end Libsysve.Vedma
