import Libsysve.Vedma.Section
import Libsysve.Vedma.Turns

/-!
# The ring that belongs to a memory

A section takes effect at the load that decides it, and `left` are the stores it still has to
make then.  What other threads and the hardware do meanwhile concerns other cells, so the ring
is the memory with the stores that are left already made.
-/

set_option autoImplicit false

namespace Libsysve.Vedma

variable {Handle Thread : Type}

def Memory.ring (m : Memory Handle) (thread : Thread → PostWait) : Ring Handle Thread where
  vedmaDesc := m.vedmaDesc
  vedmaIndex := m.vedmaIndex
  vedmaStatus := m.vedmaStatus
  handle := m.handle
  thread := thread

def Exit.tail : Exit Handle → PostWait
  | .returns _ => .idle
  | .waits _ s34 => .waiting s34

def Pc.tail : Pc Handle → PostWait
  | .stores _ exit => exit.tail
  | .lhmWait _ s34 => .waiting s34
  | .stWait _ s34 s63 => .clearing s34 s63
  | _ => .idle

def Cpu.tails (f : Cpu Handle Thread) (t : Thread) : PostWait := (f.pc t).tail

abbrev CallPhase (Handle : Type) := Machine.Phase (Call Handle) Int

def Exit.phase : Exit Handle → CallPhase Handle
  | .returns s0 => .answered s0
  | .waits q _ => .called (.request q)

def Pc.phase : Pc Handle → CallPhase Handle
  | .outside => .idle
  | .cas call _ => .called call
  | .ldIndex q | .ldStatus q _ | .lhmDesc q _ | .ldHandle q _ _ => .called (.request q)
  | .ldlStatus h | .ldlIndex h | .lhmPoll h _ => .called (.poll h)
  | .stores _ exit => exit.phase
  | .lhmWait q _ | .stWait q _ _ => .called (.request q)
  | .ret s0 => .answered s0

/-- The stores a thread still has to make before it unlocks. -/
def Pc.left : Pc Handle → List (Store Handle)
  | .stores left _ => left
  | _ => []

/-- What the thread that holds the lock has read is still so. -/
def Pc.Sees (m : Memory Handle) : Pc Handle → Prop
  | .ldStatus _ s34 => m.vedmaIndex = s34
  | .lhmDesc _ s34 => m.vedmaIndex = s34 ∧ ∃ g, m.vedmaStatus s34 = .handle g
  | .ldHandle _ s34 s62 => m.vedmaIndex = s34 ∧ (∃ g, m.vedmaStatus s34 = .handle g) ∧
      completed (m.vedmaDesc s34).word = true ∧ s62 = exception (m.vedmaDesc s34).word
  | .ldlIndex h => (m.handle h).status = -1
  | .lhmPoll h s34 => (m.handle h).status = -1 ∧ (m.handle h).index = s34
  | .stores _ (.waits q _) | .lhmWait q _ | .stWait q _ _ => q.handle = none
  | _ => True

/-- The descriptor that a store writes to, or whose entry it writes. -/
def Store.slot : Store Handle → Option DescIndex
  | .dst i _ | .src i _ | .size i _ | .word i _ | .status i _ => some i
  | .index _ | .handleStatus _ _ | .handleIndex _ _ => none

def Store.starts : Store Handle → Option DescIndex
  | .word i _ => some i
  | _ => none

abbrev ServedRing (Handle Thread : Type) :=
  Machine.Served (Ring Handle Thread) Thread (Call Handle) Int

/-- Only the thread that holds the lock has stores left. -/
structure Leaves (f : Cpu Handle Thread) (left : List (Store Handle)) : Prop where
  mine : ∀ t, (f.pc t).locked = true → (f.pc t).left = left
  nobody : (∀ t, (f.pc t).locked = false) → left = []

/-- What lets the stores that are left be made before the next step of somebody else: their
descriptors are not running, and no thread waits for them. -/
structure Apart (f : Cpu Handle Thread) (left : List (Store Handle)) : Prop where
  once : left.Pairwise fun w w' => ∀ i, w.starts = some i → w'.starts ≠ some i
  starts : ∀ w ∈ left, ∀ i, w.starts = some i → (f.memory.vedmaDesc i).word ≠ 1
  waits : ∀ w ∈ left, ∀ i, w.slot = some i → ∀ t, HoldsSlot i (f.tails t) →
    (f.pc t).locked = true

/-! ## The ends of a section -/

theorem Call.section_left (c : Call Handle) : c.section.left = [] := by cases c <;> rfl

theorem Call.section_tail (c : Call Handle) : c.section.tail = .idle := by cases c <;> rfl

theorem Call.section_phase (c : Call Handle) : c.section.phase = .called c := by cases c <;> rfl

theorem Call.section_sees {m : Memory Handle} (c : Call Handle) : c.section.Sees m := by
  cases c <;> trivial

theorem Exit.pc_tail (exit : Exit Handle) : exit.pc.tail = exit.tail := by cases exit <;> rfl

theorem Exit.pc_phase (exit : Exit Handle) : exit.pc.phase = exit.phase := by
  cases exit <;> rfl

theorem Exit.pc_sees {m : Memory Handle} {left : List (Store Handle)} (exit : Exit Handle)
    (sees : (Pc.stores left exit).Sees m) : exit.pc.Sees m := by
  cases exit <;> exact sees

/-! ## A step of one thread -/

variable {f : Cpu Handle Thread} {m : Memory Handle} {left : List (Store Handle)}
  {pc : Pc Handle} {t : Thread} {i : DescIndex} {w : Store Handle} {x : BitVec 64}

theorem Apart.nil : Apart f [] := by
  constructor <;> simp

theorem Store.slot_of_starts (starts : w.starts = some i) : w.slot = some i := by
  cases w <;> simp_all [Store.starts, Store.slot]

theorem Pc.left_unlocked (locked : pc.locked = false) : pc.left = [] := by
  cases pc <;> first | rfl | simp [Pc.locked] at locked

theorem Leaves.none (leaves : Leaves f left) (locked : (f.pc t).locked = true)
    (before : (f.pc t).left = []) : left = [] :=
  (leaves.mine t locked).symm.trans before

section
variable [DecidableEq Thread]

theorem Leaves.same (leaves : Leaves f left) (locked : pc.locked = (f.pc t).locked)
    (same : pc.left = (f.pc t).left) : Leaves (f.move t m pc) left where
  mine := by
    intro u lockedU
    by_cases here : u = t
    · rw [here, Cpu.move_self] at lockedU ⊢
      rw [same]
      exact leaves.mine t (locked ▸ lockedU)
    · rw [Cpu.move_other here] at lockedU ⊢
      exact leaves.mine u lockedU
  nobody := by
    intro free
    refine leaves.nobody fun u => ?_
    by_cases here : u = t
    · rw [here, ← locked]
      simpa using free t
    · simpa [Cpu.move_other here] using free u

theorem Leaves.holder (exclusive : Exclusive (f.move t m pc)) (locked : pc.locked = true) :
    Leaves (f.move t m pc) pc.left where
  mine := by
    intro u lockedU
    have here : u = t := exclusive.one u t lockedU (by rw [Cpu.move_self, locked])
    rw [here, Cpu.move_self]
  nobody free := by
    have out := free t
    rw [Cpu.move_self, locked] at out
    exact absurd out (by simp)

theorem Leaves.free (free : (f.move t m pc).memory.vedmaLock = 0)
    (exclusive : Exclusive (f.move t m pc)) : Leaves (f.move t m pc) [] where
  mine u lockedU := by
    rw [exclusive.free free u] at lockedU
    exact absurd lockedU (by simp)
  nobody _ := rfl

theorem Cpu.tails_move : (f.move t m pc).tails = Function.update f.tails t pc.tail := by
  funext u
  by_cases here : u = t
  · rw [here, Function.update_self, Cpu.tails, Cpu.move_self]
  · rw [Function.update_of_ne here, Cpu.tails, Cpu.move_other here, Cpu.tails]

theorem Cpu.tails_same (same : pc.tail = (f.pc t).tail) : (f.move t m pc).tails = f.tails := by
  rw [Cpu.tails_move, same]
  exact Function.update_eq_self t f.tails

theorem Apart.move (apart : Apart f left) (desc : m.vedmaDesc = f.memory.vedmaDesc)
    (locked : pc.locked = (f.pc t).locked) (tail : pc.tail = (f.pc t).tail) :
    Apart (f.move t m pc) left where
  once := apart.once
  starts w member i starts := by
    rw [show (f.move t m pc).memory.vedmaDesc = f.memory.vedmaDesc from desc]
    exact apart.starts w member i starts
  waits := by
    intro w member i slot u holds
    rw [Cpu.tails_same tail] at holds
    have waits := apart.waits w member i slot u holds
    by_cases here : u = t
    · rw [here, Cpu.move_self, locked]
      exact here ▸ waits
    · rw [Cpu.move_other here]
      exact waits

theorem phase_same {phase : Thread → CallPhase Handle} (before : ∀ u, phase u = (f.pc u).phase)
    (same : pc.phase = (f.pc t).phase) (u : Thread) :
    phase u = ((f.move t m pc).pc u).phase := by
  by_cases here : u = t
  · rw [here, Cpu.move_self, same]
    exact before t
  · rw [Cpu.move_other here]
    exact before u

theorem phase_new {phase : Thread → CallPhase Handle} (before : ∀ u, phase u = (f.pc u).phase)
    (u : Thread) :
    Function.update phase t pc.phase u = ((f.move t m pc).pc u).phase := by
  by_cases here : u = t
  · rw [here, Cpu.move_self, Function.update_self]
  · rw [Cpu.move_other here, Function.update_of_ne here]
    exact before u

theorem Pc.Sees.unlocked {m' : Memory Handle} (sees : pc.Sees m) (locked : pc.locked = false) :
    pc.Sees m' := by
  cases pc <;> first | exact sees | simp [Pc.locked] at locked

theorem Pc.Sees.setStatus (sees : pc.Sees m) (entry : ∀ g, m.vedmaStatus i ≠ .handle g) :
    pc.Sees (m.setStatus i .null) := by
  have kept : ∀ j, (∃ g, m.vedmaStatus j = .handle g) →
      ∃ g, (m.setStatus i .null).vedmaStatus j = .handle g := by
    rintro j ⟨g, status⟩
    have other : j ≠ i := by
      rintro rfl
      exact entry g status
    exact ⟨g, (Function.update_of_ne other ..).trans status⟩
  cases pc with
  | lhmDesc q j => exact ⟨sees.1, kept j sees.2⟩
  | ldHandle q j s62 => exact ⟨sees.1, kept j sees.2.1, sees.2.2⟩
  | stores left exit => cases exit <;> exact sees
  | _ => exact sees

theorem Pc.Sees.setLock (sees : pc.Sees m) : pc.Sees (m.setLock x) := by
  cases pc <;> exact sees

theorem sees_move (before : ∀ u, (f.pc u).Sees f.memory)
    (others : ∀ u, u ≠ t → (f.pc u).locked = true → (f.pc u).Sees m) (now : pc.Sees m)
    (u : Thread) : ((f.move t m pc).pc u).Sees m := by
  by_cases here : u = t
  · rw [here, Cpu.move_self]
    exact now
  · rw [Cpu.move_other here]
    cases locked : (f.pc u).locked with
    | true => exact others u here locked
    | false => exact (before u).unlocked locked

end

/-! ## Stores to different cells -/

/-- Changing a descriptor in two ways that do not interfere. -/
theorem Memory.setDesc_comm {j : DescIndex} (g k : DmaDesc → DmaDesc)
    (comm : i = j → ∀ d, g (k d) = k (g d)) :
    (m.setDesc i (g (m.vedmaDesc i))).setDesc j
        (k ((m.setDesc i (g (m.vedmaDesc i))).vedmaDesc j)) =
      (m.setDesc j (k (m.vedmaDesc j))).setDesc i
        (g ((m.setDesc j (k (m.vedmaDesc j))).vedmaDesc i)) := by
  by_cases same : i = j
  · subst same
    simp [Memory.setDesc, comm rfl]
  · simp only [Memory.setDesc, Function.update_of_ne same,
      Function.update_of_ne (Ne.symm same)]
    rw [Function.update_comm same]

theorem Memory.setDesc_word {j : DescIndex} {d : DmaDesc}
    (same : i = j → d.word = (m.vedmaDesc j).word) :
    ((m.setDesc j d).vedmaDesc i).word = (m.vedmaDesc i).word := by
  by_cases here : i = j
  · simp only [Memory.setDesc, here, Function.update_self, same]
  · simp only [Memory.setDesc, Function.update_of_ne here]

variable [DecidableEq Handle] {entry : StatusEntry Handle}

theorem Pc.Sees.setWord (sees : pc.Sees m) (busy : (m.vedmaDesc i).word = 1) :
    pc.Sees (m.store (.word i x)) := by
  cases pc with
  | ldHandle q j s62 =>
    have other : j ≠ i := by
      rintro rfl
      have done := sees.2.2.1
      rw [busy, completed_one] at done
      exact absurd done (by simp)
    have kept : (m.store (.word i x)).vedmaDesc j = m.vedmaDesc j :=
      Function.update_of_ne other ..
    refine ⟨sees.1, sees.2.1, ?_, ?_⟩
    · rw [kept]
      exact sees.2.2.1
    · rw [kept]
      exact sees.2.2.2
  | stores left exit => cases exit <;> exact sees
  | _ => exact sees

def Memory.after (m : Memory Handle) (left : List (Store Handle)) : Memory Handle :=
  left.foldl Memory.store m

@[simp] theorem Memory.after_nil : m.after [] = m := rfl

@[simp] theorem Memory.after_cons : m.after (w :: left) = (m.store w).after left := rfl

@[simp] theorem Memory.after_setLock : (m.setLock x).after left = (m.after left).setLock x := by
  induction left generalizing m with
  | nil => rfl
  | cons w left ih =>
    have swap : (m.setLock x).store w = (m.store w).setLock x := by cases w <;> rfl
    rw [Memory.after_cons, swap, ih, Memory.after_cons]

theorem Memory.store_word_comm (other : w.starts ≠ some i) :
    (m.store (.word i x)).store w = (m.store w).store (.word i x) := by
  cases w with
  | word j y =>
    refine setDesc_comm (fun d => { d with word := x }) (fun d => { d with word := y }) ?_
    exact fun same => absurd (congrArg some same.symm) other
  | dst j y =>
    exact setDesc_comm (fun d => { d with word := x }) (fun d => { d with dst := y })
      fun _ _ => rfl
  | src j y =>
    exact setDesc_comm (fun d => { d with word := x }) (fun d => { d with src := y })
      fun _ _ => rfl
  | size j y =>
    exact setDesc_comm (fun d => { d with word := x }) (fun d => { d with size := y })
      fun _ _ => rfl
  | status j e => rfl
  | index j => rfl
  | handleStatus h y => rfl
  | handleIndex h j => rfl

theorem Memory.store_status_comm (other : w.slot ≠ some i) :
    (m.setStatus i entry).store w = (m.store w).setStatus i entry := by
  cases w with
  | status j e =>
    have differ : i ≠ j := fun same => other (congrArg some same.symm)
    simp only [Memory.store, Memory.setStatus]
    rw [Function.update_comm differ]
  | _ => rfl

theorem Memory.store_word_other (other : w.starts ≠ some i) :
    ((m.store w).vedmaDesc i).word = (m.vedmaDesc i).word := by
  cases w with
  | word j y => exact setDesc_word fun same => absurd (congrArg some same.symm) other
  | dst j y => exact setDesc_word fun _ => rfl
  | src j y => exact setDesc_word fun _ => rfl
  | size j y => exact setDesc_word fun _ => rfl
  | status j e => rfl
  | index j => rfl
  | handleStatus h y => rfl
  | handleIndex h j => rfl

theorem Memory.after_word_comm (other : ∀ w ∈ left, w.starts ≠ some i) :
    (m.store (.word i x)).after left = (m.after left).store (.word i x) := by
  induction left generalizing m with
  | nil => rfl
  | cons w left ih =>
    rw [List.forall_mem_cons] at other
    rw [Memory.after_cons, Memory.store_word_comm other.1, ih other.2, Memory.after_cons]

theorem Memory.after_status_comm (other : ∀ w ∈ left, w.slot ≠ some i) :
    (m.setStatus i entry).after left = (m.after left).setStatus i entry := by
  induction left generalizing m with
  | nil => rfl
  | cons w left ih =>
    rw [List.forall_mem_cons] at other
    rw [Memory.after_cons, Memory.store_status_comm other.1, ih other.2, Memory.after_cons]

theorem Memory.after_status_other (other : ∀ w ∈ left, w.slot ≠ some i) :
    (m.after left).vedmaStatus i = m.vedmaStatus i := by
  induction left generalizing m with
  | nil => rfl
  | cons w left ih =>
    rw [List.forall_mem_cons] at other
    rw [Memory.after_cons, ih other.2]
    cases w with
    | status j e =>
      have differ : i ≠ j := fun same => other.1 (congrArg some same.symm)
      simp only [Memory.store, Memory.setStatus, Function.update_of_ne differ]
    | _ => rfl

theorem Memory.after_word_other (other : ∀ w ∈ left, w.starts ≠ some i) :
    ((m.after left).vedmaDesc i).word = (m.vedmaDesc i).word := by
  induction left generalizing m with
  | nil => rfl
  | cons w left ih =>
    rw [List.forall_mem_cons] at other
    rw [Memory.after_cons, ih other.2, Memory.store_word_other other.1]

theorem Apart.store [DecidableEq Thread] {next : Store Handle} {exit : Exit Handle}
    (apart : Apart f (next :: left)) (here : f.pc t = .stores (next :: left) exit) :
    Apart (f.move t (f.memory.store next) (.stores left exit)) left where
  once := apart.once.tail
  starts := by
    intro w member i starts
    have other : next.starts ≠ some i := fun same =>
      List.rel_of_pairwise_cons apart.once member i same starts
    rw [show (f.move t (f.memory.store next) (.stores left exit)).memory =
      f.memory.store next from rfl, Memory.store_word_other other]
    exact apart.starts w (List.mem_cons_of_mem next member) i starts
  waits := by
    have moved : Apart (f.move t f.memory (.stores left exit)) (next :: left) :=
      apart.move rfl (by rw [here]; rfl) (by rw [here]; rfl)
    exact fun w member => moved.waits w (List.mem_cons_of_mem next member)

/-- The memory and the calls belong to the ring, with the stores that are left made. -/
structure Linked (f : Cpu Handle Thread) (left : List (Store Handle))
    (s : ServedRing Handle Thread) : Prop where
  exclusive : Exclusive f
  leaves : Leaves f left
  apart : Apart f left
  object : s.object = (f.memory.after left).ring f.tails
  phase : ∀ t, s.phase t = (f.pc t).phase
  sees : ∀ t, (f.pc t).Sees f.memory

def LinkedRing (f : Cpu Handle Thread) (s : ServedRing Handle Thread) : Prop :=
  ∃ left, Linked f left s

section
variable {s : ServedRing Handle Thread}

theorem Linked.ring (linked : Linked f [] s) : s.object = f.memory.ring f.tails :=
  linked.object

theorem Linked.called (linked : Linked f left s) (here : f.pc t = pc) {c : Call Handle}
    (phase : pc.phase = .called c) : s.phase t = .called c := by
  rw [linked.phase t, here, phase]

theorem Linked.empty (linked : Linked f left s) (here : f.pc t = pc) (locked : pc.locked = true)
    (none : pc.left = []) : left = [] :=
  linked.leaves.none (here ▸ locked) (here ▸ none)

end

theorem linked_initial (desc : DescIndex → DmaDesc) (handle : Handle → VeDmaHandle) :
    Linked (Cpu.initial desc handle : Cpu Handle Thread) []
      { object := Ring.initial desc handle, phase := fun _ => .idle } where
  exclusive := exclusive_initial desc handle
  leaves := ⟨fun _ _ => rfl, fun _ => rfl⟩
  apart := .nil
  object := rfl
  phase _ := rfl
  sees _ := trivial

section
variable [DecidableEq Thread] {s s' : ServedRing Handle Thread} {exit : Exit Handle}
  {next : Store Handle}

theorem Linked.inside (linked : Linked f left s) (locked : pc.locked = (f.pc t).locked)
    (same : pc.left = (f.pc t).left) (tail : pc.tail = (f.pc t).tail) (sees : pc.Sees f.memory)
    (register : ∀ call s63, pc = .cas call s63 → s63 ≠ 0) (object : s'.object = s.object)
    (phase : ∀ u, s'.phase u = ((f.move t f.memory pc).pc u).phase) :
    Linked (f.move t f.memory pc) left s' where
  exclusive := linked.exclusive.stay rfl locked register
  leaves := linked.leaves.same locked same
  apart := linked.apart.move rfl locked tail
  object := by
    rw [object, linked.object, Cpu.tails_same tail]
    rfl
  phase := phase
  sees := sees_move linked.sees (fun u _ _ => linked.sees u) sees

theorem Linked.outside (linked : Linked f left s) (was : (f.pc t).locked = false)
    (locked : pc.locked = false) (lock : m.vedmaLock = f.memory.vedmaLock)
    (desc : m.vedmaDesc = f.memory.vedmaDesc)
    (tail : ∀ i, HoldsSlot i pc.tail → HoldsSlot i (f.pc t).tail)
    (register : ∀ call s63, pc = .cas call s63 → s63 ≠ 0)
    (object : s'.object = (m.after left).ring (Function.update f.tails t pc.tail))
    (phase : s'.phase = Function.update s.phase t pc.phase) (sees : pc.Sees m)
    (others : ∀ u, u ≠ t → (f.pc u).locked = true → (f.pc u).Sees m) :
    Linked (f.move t m pc) left s' where
  exclusive := linked.exclusive.stay lock (locked.trans was.symm) register
  leaves := linked.leaves.same (locked.trans was.symm)
    ((Pc.left_unlocked locked).trans (Pc.left_unlocked was).symm)
  apart :=
    { once := linked.apart.once
      starts := fun w member i starts => by
        rw [show (f.move t m pc).memory.vedmaDesc = f.memory.vedmaDesc from desc]
        exact linked.apart.starts w member i starts
      waits := by
        intro w member i slot u holds
        by_cases here : u = t
        · rw [here, Cpu.tails, Cpu.move_self] at holds
          have waits := linked.apart.waits w member i slot t (tail i holds)
          rw [was] at waits
          exact absurd waits (by simp)
        · rw [Cpu.tails, Cpu.move_other here] at holds
          rw [Cpu.move_other here]
          exact linked.apart.waits w member i slot u holds }
  object := by
    rw [object, Cpu.tails_move]
    rfl
  phase := by
    rw [phase]
    exact phase_new linked.phase
  sees := sees_move linked.sees others sees

theorem Linked.gate (linked : Linked f [] s)
    (exclusive : Exclusive (f.move t (f.memory.setLock x) pc))
    (leaves : Leaves (f.move t (f.memory.setLock x) pc) []) (tail : pc.tail = (f.pc t).tail)
    (phase : pc.phase = (f.pc t).phase) (sees : pc.Sees f.memory) :
    Linked (f.move t (f.memory.setLock x) pc) [] s where
  exclusive := exclusive
  leaves := leaves
  apart := .nil
  object := by
    rw [linked.object, Cpu.tails_same tail]
    rfl
  phase := phase_same linked.phase phase
  sees := sees_move linked.sees (fun u _ _ => (linked.sees u).setLock) sees.setLock

theorem Linked.commit (linked : Linked f [] s) (locked : (f.pc t).locked = true)
    (sees : (Pc.stores left exit).Sees f.memory)
    (apart : Apart (f.move t f.memory (.stores left exit)) left)
    (object : s'.object = (f.memory.after left).ring (Function.update f.tails t exit.tail))
    (phase : s'.phase = Function.update s.phase t exit.phase) :
    Linked (f.move t f.memory (.stores left exit)) left s' := by
  have exclusive : Exclusive (f.move t f.memory (.stores left exit)) :=
    linked.exclusive.stay rfl (by rw [locked]; rfl) (by simp)
  exact
    { exclusive := exclusive
      leaves := Leaves.holder exclusive rfl
      apart := apart
      object := by
        rw [object, Cpu.tails_move]
        rfl
      phase := by
        have now : s'.phase = Function.update s.phase t (Pc.stores left exit).phase := phase
        rw [now]
        exact phase_new linked.phase
      sees := sees_move linked.sees (fun u _ _ => linked.sees u) sees }

omit [DecidableEq Thread] in
theorem Linked.hardware (linked : Linked f left s) (busy : (f.memory.vedmaDesc i).word = 1)
    (exclusive : Exclusive (f.setMemory (f.memory.store (.word i x)))) :
    Linked (f.setMemory (f.memory.store (.word i x))) left
      { s with object := s.object.setWord i x } := by
  have other : ∀ w ∈ left, w.starts ≠ some i := fun w member starts =>
    linked.apart.starts w member i starts busy
  exact
    { exclusive := exclusive
      leaves := ⟨linked.leaves.mine, linked.leaves.nobody⟩
      apart :=
        { once := linked.apart.once
          starts := by
            intro w member j starts
            have differ : (Store.word i x : Store Handle).starts ≠ some j := by
              intro same
              exact other w member (starts.trans same.symm)
            rw [show (f.setMemory (f.memory.store (.word i x))).memory =
              f.memory.store (.word i x) from rfl, Memory.store_word_other differ]
            exact linked.apart.starts w member j starts
          waits := linked.apart.waits }
      object := by
        rw [linked.object]
        exact congrArg (fun m => Memory.ring m f.tails)
          (Memory.after_word_comm (m := f.memory) (x := x) other).symm
      phase := linked.phase
      sees := fun t => (linked.sees t).setWord busy }

theorem Linked.store (linked : Linked f (next :: left) s)
    (here : f.pc t = .stores (next :: left) exit) :
    Linked (f.move t (f.memory.store next) (.stores left exit)) left s where
  exclusive := linked.exclusive.stay (f.memory.store_lock next) (by rw [here]; rfl) (by simp)
  leaves := Leaves.holder
    (linked.exclusive.stay (f.memory.store_lock next) (by rw [here]; rfl) (by simp)) rfl
  apart := linked.apart.store here
  object := by
    rw [linked.object, Cpu.tails_same (by rw [here]; rfl)]
    rfl
  phase := phase_same linked.phase (by rw [here]; rfl)
  sees := by
    refine sees_move linked.sees (fun u other locked => ?_) ?_
    · exact absurd (linked.exclusive.one u t locked (by rw [here]; rfl)) other
    · have before := linked.sees t
      rw [here] at before
      cases exit <;> exact before

end

end Libsysve.Vedma
