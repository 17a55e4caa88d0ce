import Mathlib.Algebra.Ring.Int.Defs
import Mathlib.Algebra.Ring.Nat
import Mathlib.Data.Fin.Basic
import Mathlib.Logic.Function.Basic
import Libsysve.Library.Machine

/-!
# The descriptor ring of vedma_main.S

The 128 DMA descriptors are used in turn.  `vedma_status[i]` says who uses descriptor `i`:
nobody (NULL), a synchronous request (1) or the handle of an asynchronous one.  The section
of a function that holds `vedma_lock` is one step.  `ve_dma_post_wait` goes on after it has
unlocked: it waits for its descriptor, and it clears its entry and returns.  A call of
`ve_dma_wait` is a sequence of polls.  The hardware completes started descriptors.
-/

set_option autoImplicit false

namespace Libsysve.Vedma

def vedmaNdesc : Nat := 128

instance : NeZero vedmaNdesc := ⟨by decide⟩

abbrev DescIndex := Fin vedmaNdesc

def eagain : Int := 11

inductive StatusEntry (Handle : Type) where
  | null
  | sync
  | handle (h : Handle)
deriving DecidableEq, Repr

/-- The four words of a descriptor, from offset 0x00 to 0x18. -/
structure DmaDesc where
  word : BitVec 64
  size : BitVec 64
  src : BitVec 64
  dst : BitVec 64

def exception (word : BitVec 64) : Int := (word >>> 48).toNat

/-- `and %s62, 2, %s63` on the first word of a descriptor is not zero. -/
def completed (word : BitVec 64) : Bool := word &&& 2#64 != 0#64

structure VeDmaHandle where
  status : Int
  index : DescIndex

/-- What is left to do of a thread's `ve_dma_post_wait` after it has unlocked; `word` is
what it has read from the descriptor. -/
inductive PostWait where
  | idle
  | waiting (index : DescIndex)
  | clearing (index : DescIndex) (word : BitVec 64)

/-- `vedma_vars`, the descriptors, the handles and the calls of `ve_dma_post_wait`. -/
structure Ring (Handle Thread : Type) where
  vedmaDesc : DescIndex → DmaDesc
  vedmaIndex : DescIndex
  vedmaStatus : DescIndex → StatusEntry Handle
  handle : Handle → VeDmaHandle
  thread : Thread → PostWait

variable {Handle Thread : Type}

namespace Ring

/-- What `ve_dma_init` leaves in a process that has just mapped its descriptors. -/
def initial (desc : DescIndex → DmaDesc) (handle : Handle → VeDmaHandle) :
    Ring Handle Thread where
  vedmaDesc := desc
  vedmaIndex := 0
  vedmaStatus _ := .null
  handle := handle
  thread _ := .idle

variable (s : Ring Handle Thread)

def nextWord : BitVec 64 := (s.vedmaDesc s.vedmaIndex).word

/-- "save DMA status" and "clear vedma_status[index]". -/
def saveStatus [DecidableEq Handle] (g : Handle) : Ring Handle Thread :=
  { s with
    handle := Function.update s.handle g { s.handle g with status := exception s.nextWord }
    vedmaStatus := Function.update s.vedmaStatus s.vedmaIndex .null }

/-- "initialize handle" -/
def initHandle [DecidableEq Handle] (h : Handle) : Ring Handle Thread :=
  { s with handle := Function.update s.handle h { status := -1, index := s.vedmaIndex } }

/-- "start DMA", "update vedma_status[index]" and "update vedma_index". -/
def startDma (dst src : BitVec 64) (size : BitVec 32) (entry : StatusEntry Handle) :
    Ring Handle Thread :=
  { s with
    vedmaDesc := Function.update s.vedmaDesc s.vedmaIndex
      { word := 1, size := size.setWidth 64 + (8#64 <<< 32), src := src, dst := dst }
    vedmaStatus := Function.update s.vedmaStatus s.vedmaIndex entry
    vedmaIndex := s.vedmaIndex + 1 }

def setThread [DecidableEq Thread] (t : Thread) (left : PostWait) : Ring Handle Thread :=
  { s with thread := Function.update s.thread t left }

def clearEntry (i : DescIndex) : Ring Handle Thread :=
  { s with vedmaStatus := Function.update s.vedmaStatus i .null }

def setWord (i : DescIndex) (word : BitVec 64) : Ring Handle Thread :=
  { s with vedmaDesc := Function.update s.vedmaDesc i { s.vedmaDesc i with word := word } }

/-! ### The fields after each of these -/

variable {s} {g h : Handle} {i j : DescIndex} {dst src : BitVec 64} {size : BitVec 32}
  {entry : StatusEntry Handle}

@[simp] theorem startDma_entry_self :
    (s.startDma dst src size entry).vedmaStatus s.vedmaIndex = entry := Function.update_self ..

theorem startDma_entry_other (other : i ≠ s.vedmaIndex) :
    (s.startDma dst src size entry).vedmaStatus i = s.vedmaStatus i :=
  Function.update_of_ne other ..

theorem startDma_desc_other (other : i ≠ s.vedmaIndex) :
    (s.startDma dst src size entry).vedmaDesc i = s.vedmaDesc i :=
  Function.update_of_ne other ..

@[simp] theorem clearEntry_self : (s.clearEntry i).vedmaStatus i = .null :=
  Function.update_self ..

theorem clearEntry_other (other : j ≠ i) :
    (s.clearEntry i).vedmaStatus j = s.vedmaStatus j := Function.update_of_ne other ..

section
variable [DecidableEq Handle]

@[simp] theorem saveStatus_handle_self :
    (s.saveStatus g).handle g =
      { status := exception s.nextWord, index := (s.handle g).index } :=
  Function.update_self ..

theorem saveStatus_handle_other (other : h ≠ g) :
    (s.saveStatus g).handle h = s.handle h := Function.update_of_ne other ..

@[simp] theorem saveStatus_entry_self :
    (s.saveStatus g).vedmaStatus s.vedmaIndex = .null := Function.update_self ..

theorem saveStatus_entry_other (other : i ≠ s.vedmaIndex) :
    (s.saveStatus g).vedmaStatus i = s.vedmaStatus i := Function.update_of_ne other ..

@[simp] theorem initHandle_self :
    (s.initHandle h).handle h = { status := -1, index := s.vedmaIndex } :=
  Function.update_self ..

theorem initHandle_other (other : g ≠ h) :
    (s.initHandle h).handle g = s.handle g := Function.update_of_ne other ..

end

variable [DecidableEq Thread] {t t' : Thread}

@[simp] theorem setThread_self (left : PostWait) : (s.setThread t left).thread t = left :=
  Function.update_self ..

theorem setThread_other (left : PostWait) (other : t' ≠ t) :
    (s.setThread t left).thread t' = s.thread t' := Function.update_of_ne other ..

end Ring

def veDmaPoll (s : Ring Handle Thread) (h : Handle) : Int × Ring Handle Thread :=
  if (s.handle h).status ≠ -1 then ((s.handle h).status, s)
  else
    let index := (s.handle h).index
    let word := (s.vedmaDesc index).word
    if completed word then (exception word, s.clearEntry index) else (-eagain, s)

theorem veDmaPoll_cases {s s' : Ring Handle Thread} {h : Handle} {ret : Int}
    (call : veDmaPoll s h = (ret, s')) :
    ((s.handle h).status ≠ -1 ∧ ret = (s.handle h).status ∧ s' = s) ∨
      ((s.handle h).status = -1 ∧
        ((completed (s.vedmaDesc (s.handle h).index).word = true ∧
            ret = exception (s.vedmaDesc (s.handle h).index).word ∧
            s' = s.clearEntry (s.handle h).index) ∨
          (completed (s.vedmaDesc (s.handle h).index).word = false ∧
            ret = -eagain ∧ s' = s))) := by
  unfold veDmaPoll at call
  by_cases saved : (s.handle h).status = -1
  · rw [if_neg (not_not.mpr saved)] at call
    by_cases done : completed (s.vedmaDesc (s.handle h).index).word = true
    · simp only [if_pos done, Prod.mk.injEq] at call
      exact Or.inr ⟨saved, Or.inl ⟨done, call.1.symm, call.2.symm⟩⟩
    · simp only [if_neg done, Prod.mk.injEq] at call
      exact Or.inr ⟨saved, Or.inr ⟨by simpa using done, call.1.symm, call.2.symm⟩⟩
  · rw [if_pos saved, Prod.mk.injEq] at call
    exact Or.inl ⟨saved, call.1.symm, call.2.symm⟩

/-- The handle in which a call that starts a request would save a status. -/
def Ring.savesInto (s : Ring Handle Thread) : Option Handle :=
  match s.vedmaStatus s.vedmaIndex with
  | .handle g => if completed s.nextWord then some g else none
  | _ => none

theorem Ring.savesInto_eq {s : Ring Handle Thread} {g : Handle}
    (entry : s.vedmaStatus s.vedmaIndex = .handle g) (done : completed s.nextWord = true) :
    s.savesInto = some g := by
  simp [Ring.savesInto, entry, done]

theorem Ring.entry_of_savesInto {s : Ring Handle Thread} {g : Handle}
    (saves : s.savesInto = some g) : s.vedmaStatus s.vedmaIndex = .handle g := by
  unfold Ring.savesInto at saves
  cases entry : s.vedmaStatus s.vedmaIndex with
  | null => simp [entry] at saves
  | sync => simp [entry] at saves
  | handle g' =>
    simp only [entry, Option.ite_none_right_eq_some, Option.some.injEq] at saves
    rw [saves.2]

variable [DecidableEq Handle]

/-- The entry of the next descriptor is free, after its status was saved if need be. -/
inductive Vacated (s : Ring Handle Thread) : Ring Handle Thread → Prop
  | free (entry : s.vedmaStatus s.vedmaIndex = .null) : Vacated s s
  | saved (g : Handle) (entry : s.vedmaStatus s.vedmaIndex = .handle g)
      (done : completed s.nextWord = true) : Vacated s (s.saveStatus g)

def veDmaPost (s : Ring Handle Thread) (dst src : BitVec 64) (size : BitVec 32) (h : Handle) :
    Int × Ring Handle Thread :=
  match s.vedmaStatus s.vedmaIndex with
  | .sync => (-eagain, s)
  | .null => (0, (s.initHandle h).startDma dst src size (.handle h))
  | .handle g =>
    if completed s.nextWord then
      (0, ((s.saveStatus g).initHandle h).startDma dst src size (.handle h))
    else (-eagain, s)

theorem Vacated.index {s vacant : Ring Handle Thread} (vacated : Vacated s vacant) :
    vacant.vedmaIndex = s.vedmaIndex := by
  cases vacated with
  | free entry => rfl
  | saved g entry done => rfl

theorem Vacated.desc {s vacant : Ring Handle Thread} (vacated : Vacated s vacant) :
    vacant.vedmaDesc = s.vedmaDesc := by
  cases vacated with
  | free entry => rfl
  | saved g entry done => rfl

theorem veDmaPost_cases {s s' : Ring Handle Thread} {dst src : BitVec 64} {size : BitVec 32}
    {h : Handle} {ret : Int} (call : veDmaPost s dst src size h = (ret, s')) :
    (ret = -eagain ∧ s' = s) ∨
      ∃ vacant, Vacated s vacant ∧ ret = 0 ∧
        s' = (vacant.initHandle h).startDma dst src size (.handle h) := by
  unfold veDmaPost at call
  cases entry : s.vedmaStatus s.vedmaIndex with
  | null =>
    simp only [entry, Prod.mk.injEq] at call
    exact Or.inr ⟨s, .free entry, call.1.symm, call.2.symm⟩
  | sync =>
    simp only [entry, Prod.mk.injEq] at call
    exact Or.inl ⟨call.1.symm, call.2.symm⟩
  | handle g =>
    by_cases done : completed s.nextWord = true
    · simp only [entry, if_pos done, Prod.mk.injEq] at call
      exact Or.inr ⟨_, .saved g entry done, call.1.symm, call.2.symm⟩
    · simp only [entry, if_neg done, Prod.mk.injEq] at call
      exact Or.inl ⟨call.1.symm, call.2.symm⟩

variable [DecidableEq Thread]

/-- The locked section of `ve_dma_post_wait`: while the entry belongs to a synchronous
request, or to an asynchronous one that is not completed, the caller spins. -/
def veDmaPostWait (s : Ring Handle Thread) (t : Thread) (dst src : BitVec 64)
    (size : BitVec 32) : Option (Ring Handle Thread) :=
  match s.vedmaStatus s.vedmaIndex with
  | .sync => none
  | .null => some ((s.startDma dst src size .sync).setThread t (.waiting s.vedmaIndex))
  | .handle g =>
    if completed s.nextWord then
      some (((s.saveStatus g).startDma dst src size .sync).setThread t (.waiting s.vedmaIndex))
    else none

theorem veDmaPostWait_cases {s s' : Ring Handle Thread} {t : Thread} {dst src : BitVec 64}
    {size : BitVec 32} (call : veDmaPostWait s t dst src size = some s') :
    ∃ vacant, Vacated s vacant ∧
      s' = (vacant.startDma dst src size .sync).setThread t (.waiting s.vedmaIndex) := by
  unfold veDmaPostWait at call
  cases entry : s.vedmaStatus s.vedmaIndex with
  | null =>
    simp only [entry, Option.some.injEq] at call
    exact ⟨s, .free entry, call.symm⟩
  | sync => simp [entry] at call
  | handle g =>
    by_cases done : completed s.nextWord = true
    · simp only [entry, if_pos done, Option.some.injEq] at call
      exact ⟨_, .saved g entry done, call.symm⟩
    · simp [entry, if_neg done] at call

inductive DmaLabel (Handle Thread : Type) where
  | post (dst src : BitVec 64) (size : BitVec 32) (h : Handle)
  | poll (h : Handle)
  | postWait (t : Thread) (dst src : BitVec 64) (size : BitVec 32)
  | waitDone (t : Thread)
  | clearReturn (t : Thread)
  | hardware (i : DescIndex) (word : BitVec 64)
deriving DecidableEq

/-- The handle a call passes to `ve_dma_post`. -/
def DmaLabel.posted : DmaLabel Handle Thread → Option Handle
  | .post _ _ _ h => some h
  | _ => none

/-- A step gives the value a call returns in it, if one does. -/
def dmaStep (s : Ring Handle Thread) :
    DmaLabel Handle Thread → Option (Option Int × Ring Handle Thread)
  | .post dst src size h =>
    let (ret, s') := veDmaPost s dst src size h
    some (some ret, s')
  | .poll h =>
    let (ret, s') := veDmaPoll s h
    some (some ret, s')
  | .postWait t dst src size =>
    match s.thread t with
    | .idle => (veDmaPostWait s t dst src size).map fun s' => (none, s')
    | _ => none
  | .waitDone t =>
    match s.thread t with
    | .waiting i =>
      if completed (s.vedmaDesc i).word then
        some (none, s.setThread t (.clearing i (s.vedmaDesc i).word))
      else none
    | _ => none
  | .clearReturn t =>
    match s.thread t with
    | .clearing i word => some (some (exception word), (s.clearEntry i).setThread t .idle)
    | _ => none
  | .hardware i word =>
    if (s.vedmaDesc i).word = 1 ∧ completed word = true then some (none, s.setWord i word)
    else none

inductive Effect (s : Ring Handle Thread) :
    DmaLabel Handle Thread → Option Int → Ring Handle Thread → Prop
  | rejected (dst src size h) : Effect s (.post dst src size h) (some (-eagain)) s
  | posted (dst src size h) (vacant : Ring Handle Thread) (vacated : Vacated s vacant) :
      Effect s (.post dst src size h) (some 0)
        ((vacant.initHandle h).startDma dst src size (.handle h))
  | pollSaved (h) (saved : (s.handle h).status ≠ -1) :
      Effect s (.poll h) (some (s.handle h).status) s
  | pollCompleted (h) (fresh : (s.handle h).status = -1)
      (done : completed (s.vedmaDesc (s.handle h).index).word = true) :
      Effect s (.poll h) (some (exception (s.vedmaDesc (s.handle h).index).word))
        (s.clearEntry (s.handle h).index)
  | pollBusy (h) (fresh : (s.handle h).status = -1)
      (busy : completed (s.vedmaDesc (s.handle h).index).word = false) :
      Effect s (.poll h) (some (-eagain)) s
  | postWait (t dst src size) (idle : s.thread t = .idle) (vacant : Ring Handle Thread)
      (vacated : Vacated s vacant) :
      Effect s (.postWait t dst src size) none
        ((vacant.startDma dst src size .sync).setThread t (.waiting s.vedmaIndex))
  | waitDone (t i) (waiting : s.thread t = .waiting i)
      (done : completed (s.vedmaDesc i).word = true) :
      Effect s (.waitDone t) none (s.setThread t (.clearing i (s.vedmaDesc i).word))
  | clearReturn (t i word) (clearing : s.thread t = .clearing i word) :
      Effect s (.clearReturn t) (some (exception word)) ((s.clearEntry i).setThread t .idle)
  | hardware (i word) (busy : (s.vedmaDesc i).word = 1) (done : completed word = true) :
      Effect s (.hardware i word) none (s.setWord i word)

theorem dmaStep_effect {s s' : Ring Handle Thread} {label : DmaLabel Handle Thread}
    {out : Option Int} (stepped : dmaStep s label = some (out, s')) : Effect s label out s' := by
  cases label with
  | post dst src size h =>
    obtain ⟨ret, new, call⟩ : ∃ ret new, veDmaPost s dst src size h = (ret, new) := ⟨_, _, rfl⟩
    simp only [dmaStep, call, Option.some.injEq, Prod.mk.injEq] at stepped
    obtain ⟨rfl, rfl⟩ := stepped
    rcases veDmaPost_cases call with ⟨rfl, rfl⟩ | ⟨vacant, vacated, rfl, rfl⟩
    · exact .rejected dst src size h
    · exact .posted dst src size h vacant vacated
  | poll h =>
    obtain ⟨ret, new, call⟩ : ∃ ret new, veDmaPoll s h = (ret, new) := ⟨_, _, rfl⟩
    simp only [dmaStep, call, Option.some.injEq, Prod.mk.injEq] at stepped
    obtain ⟨rfl, rfl⟩ := stepped
    rcases veDmaPoll_cases call with
      ⟨saved, rfl, rfl⟩ | ⟨fresh, ⟨done, rfl, rfl⟩ | ⟨busy, rfl, rfl⟩⟩
    · exact .pollSaved h saved
    · exact .pollCompleted h fresh done
    · exact .pollBusy h fresh busy
  | postWait t dst src size =>
    cases left : s.thread t with
    | idle =>
      simp only [dmaStep, left, Option.map_eq_some_iff] at stepped
      obtain ⟨new, call, result⟩ := stepped
      obtain ⟨rfl, rfl⟩ := Prod.mk.inj result
      obtain ⟨vacant, vacated, rfl⟩ := veDmaPostWait_cases call
      exact .postWait t dst src size left vacant vacated
    | waiting i => simp [dmaStep, left] at stepped
    | clearing i word => simp [dmaStep, left] at stepped
  | waitDone t =>
    cases left : s.thread t with
    | idle => simp [dmaStep, left] at stepped
    | waiting i =>
      by_cases done : completed (s.vedmaDesc i).word = true
      · simp only [dmaStep, left, if_pos done, Option.some.injEq, Prod.mk.injEq] at stepped
        obtain ⟨rfl, rfl⟩ := stepped
        exact .waitDone t i left done
      · simp [dmaStep, left, if_neg done] at stepped
    | clearing i word => simp [dmaStep, left] at stepped
  | clearReturn t =>
    cases left : s.thread t with
    | idle => simp [dmaStep, left] at stepped
    | waiting i => simp [dmaStep, left] at stepped
    | clearing i word =>
      simp only [dmaStep, left, Option.some.injEq, Prod.mk.injEq] at stepped
      obtain ⟨rfl, rfl⟩ := stepped
      exact .clearReturn t i word left
  | hardware i word =>
    by_cases enabled : (s.vedmaDesc i).word = 1 ∧ completed word = true
    · simp only [dmaStep, if_pos enabled, Option.some.injEq, Prod.mk.injEq] at stepped
      obtain ⟨rfl, rfl⟩ := stepped
      exact .hardware i word enabled.1 enabled.2
    · rw [dmaStep, if_neg enabled] at stepped
      exact absurd stepped (by simp)

abbrev DmaEntry (Handle Thread : Type) :=
  Entry (Ring Handle Thread) (DmaLabel Handle Thread) (Option Int)

variable (Handle Thread) in
def dmaMachine :
    Machine (Ring Handle Thread) (DmaLabel Handle Thread) (Option Int) where
  step := dmaStep

end Libsysve.Vedma
