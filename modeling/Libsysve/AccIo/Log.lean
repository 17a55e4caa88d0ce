import Mathlib.Algebra.BigOperators.Group.List.Basic
import Libsysve.AccIo.Basic
import Libsysve.Library.Monitor

/-!
# What the log of a call says

The chunk system calls in order, the bytes moved, whether a DMA failed, and the discipline
of the half-buffers: `dmaMonitor` follows which halves have a DMA outstanding and says what
may happen in between.
-/

set_option autoImplicit false

namespace Libsysve.AccIo

def chunkCalls (log : List IoEvent) : List ChunkCall :=
  log.filterMap fun
    | .sysCall c => some c
    | _ => none

def copyLen (reqs : List CopyReq) : Int := (reqs.map CopyReq.len).sum

def copiedBytes (log : List IoEvent) : Int :=
  (log.map fun
    | .copy _ _ reqs => copyLen reqs
    | _ => 0).sum

/-- The bytes that chunk system calls accepted or delivered. -/
def acceptedBytes (log : List IoEvent) : Int :=
  ((chunkCalls log).map fun c => max c.ret 0).sum

/-- A `ve_dma_post` was refused or a `ve_dma_wait` returned an exception code. -/
def IoEvent.dmaFails : IoEvent → Bool
  | .dmaPost _ _ _ _ _ ok => !ok
  | .dmaWait _ code => decide (1 ≤ code)
  | _ => false

def dmaFailed (log : List IoEvent) : Bool := log.any IoEvent.dmaFails

/-- The requests copy `size` bytes of one half-buffer, all inside it. -/
structure CopyInside (size : Int) (reqs : List CopyReq) : Prop where
  le : size ≤ parasSize
  length : copyLen reqs = size
  inside : ∀ req, req ∈ reqs → 0 ≤ req.off ∧ 0 ≤ req.len ∧ req.off + req.len ≤ size

/-- Which half-buffers have an outstanding DMA, and what is allowed meanwhile: no system
call on that VH half, no copy on that VE half, no other DMA; only a half with a DMA is
waited for; and system calls, copies and DMAs stay inside their half, a DMA with a length
that is a multiple of 4 and covers the data. -/
def dmaMonitor : Monitor (Half → Bool) IoEvent where
  start := fun _ => false
  after o
    | .dmaPost j _ _ _ _ true => Function.update o j true
    | .dmaWait j _ => Function.update o j false
    | _ => o
  allowed o
    | .sysCall c => o c.half = false ∧ c.size ≤ parasSize
    | .dmaPost j _ _ data size _ =>
      o j = false ∧ 4 ∣ size ∧ data ≤ size ∧ size ≤ parasSize
    | .dmaWait j _ => o j = true
    | .copy j size reqs => o j = false ∧ CopyInside size reqs
    | .plain _ _ => True

def outstanding (log : List IoEvent) : Half → Bool := dmaMonitor.stateAfter log

@[simp] theorem chunkCalls_nil : chunkCalls [] = [] := rfl

@[simp] theorem chunkCalls_snoc (log : List IoEvent) (e : IoEvent) :
    chunkCalls (log ++ [e]) =
      chunkCalls log ++ (match e with | .sysCall c => [c] | _ => []) := by
  cases e <;> simp [chunkCalls]

@[simp] theorem copiedBytes_snoc (log : List IoEvent) (e : IoEvent) :
    copiedBytes (log ++ [e]) =
      copiedBytes log + (match e with | .copy _ _ reqs => copyLen reqs | _ => 0) := by
  simp [copiedBytes]

@[simp] theorem dmaFailed_snoc (log : List IoEvent) (e : IoEvent) :
    dmaFailed (log ++ [e]) = (dmaFailed log || e.dmaFails) := by
  simp [dmaFailed]

@[simp] theorem copyLen_nil : copyLen [] = 0 := rfl

@[simp] theorem copyLen_cons (req : CopyReq) (reqs : List CopyReq) :
    copyLen (req :: reqs) = req.len + copyLen reqs := by
  simp [copyLen]

@[simp] theorem outstanding_snoc (log : List IoEvent) (e : IoEvent) :
    outstanding (log ++ [e]) = dmaMonitor.after (outstanding log) e :=
  dmaMonitor.stateAfter_snoc log e

/-! ## Every request is waited for once -/

/-- A DMA request on the halves `j` that the hardware accepted. -/
def IoEvent.posts (j : Half) : IoEvent → Bool
  | .dmaPost k _ _ _ _ ok => k = j && ok
  | _ => false

def IoEvent.waits (j : Half) : IoEvent → Bool
  | .dmaWait k _ => k = j
  | _ => false

theorem dmaMonitor_after (o : Half → Bool) (e : IoEvent) (j : Half) :
    dmaMonitor.after o e j = if e.posts j then true else if e.waits j then false else o j := by
  cases e with
  | dmaPost k dst src data size ok =>
    cases ok with
    | false => simp [dmaMonitor, IoEvent.posts, IoEvent.waits]
    | true =>
      by_cases same : k = j
      · simp [dmaMonitor, IoEvent.posts, same]
      · have other : j ≠ k := fun eq => same eq.symm
        simp [dmaMonitor, IoEvent.posts, IoEvent.waits, same, Function.update_of_ne other]
  | dmaWait k code =>
    by_cases same : k = j
    · simp [dmaMonitor, IoEvent.posts, IoEvent.waits, same]
    · have other : j ≠ k := fun eq => same eq.symm
      simp [dmaMonitor, IoEvent.posts, IoEvent.waits, same, Function.update_of_ne other]
  | sysCall c => rfl
  | copy k size reqs => rfl
  | plain num fd => rfl

theorem idle_of_posts {o : Half → Bool} {e : IoEvent} {j : Half}
    (allowed : dmaMonitor.allowed o e) (posts : e.posts j = true) : o j = false := by
  cases e with
  | dmaPost k dst src data size ok =>
    simp only [IoEvent.posts, Bool.and_eq_true, decide_eq_true_eq] at posts
    rw [← posts.1]
    exact allowed.1
  | _ => simp [IoEvent.posts] at posts

theorem busy_of_waits {o : Half → Bool} {e : IoEvent} {j : Half}
    (allowed : dmaMonitor.allowed o e) (waits : e.waits j = true) : o j = true := by
  cases e with
  | dmaWait k code =>
    simp only [IoEvent.waits, decide_eq_true_eq] at waits
    rw [← waits]
    exact allowed
  | _ => simp [IoEvent.waits] at waits

theorem posts_ne_waits (e : IoEvent) (j : Half) : ¬(e.posts j = true ∧ e.waits j = true) := by
  cases e <;> simp [IoEvent.posts, IoEvent.waits]

theorem posts_eq_waits (log : List IoEvent) (safe : dmaMonitor.Safe log) (j : Half) :
    log.countP (IoEvent.posts j) = log.countP (IoEvent.waits j) + (outstanding log j).toNat := by
  induction log using List.reverseRecOn with
  | nil => rfl
  | append_singleton log e ih =>
    obtain ⟨before, allowed⟩ := (dmaMonitor.safe_snoc log e).mp safe
    have count := ih before
    rw [List.countP_append, List.countP_append, List.countP_singleton, List.countP_singleton,
      count, outstanding_snoc, dmaMonitor_after]
    by_cases posts : e.posts j = true
    · have idle : outstanding log j = false := idle_of_posts allowed posts
      have noWait : ¬e.waits j = true := fun waits => posts_ne_waits e j ⟨posts, waits⟩
      simp [posts, noWait, idle]
    · by_cases waits : e.waits j = true
      · have busy : outstanding log j = true := busy_of_waits allowed waits
        simp [posts, waits, busy]
      · simp [posts, waits]

/-- An accepted request is waited for before the log ends with its half idle, and until then
the half sees no other request and no other wait. -/
theorem waited_after_post {rest : List IoEvent} : ∀ {before : List IoEvent} {j : Half},
    dmaMonitor.Safe (before ++ rest) → outstanding before j = true →
      outstanding (before ++ rest) j = false →
        ∃ between wait after, rest = between ++ wait :: after ∧ wait.waits j = true ∧
          ∀ e, e ∈ between → e.posts j = false ∧ e.waits j = false := by
  induction rest with
  | nil =>
    intro before j _ busy idle
    rw [List.append_nil, busy] at idle
    exact absurd idle (by decide)
  | cons e rest ih =>
    intro before j safe busy idle
    by_cases waits : e.waits j = true
    · exact ⟨[], e, rest, rfl, waits, by simp⟩
    · have allowed : dmaMonitor.allowed (outstanding before) e := safe before e rest rfl
      have noPost : ¬e.posts j = true := by
        intro posts
        rw [idle_of_posts allowed posts] at busy
        exact absurd busy (by decide)
      have stillBusy : outstanding (before ++ [e]) j = true := by
        rw [outstanding_snoc, dmaMonitor_after, if_neg noPost, if_neg waits, busy]
      have split : before ++ e :: rest = before ++ [e] ++ rest := by simp
      rw [split] at safe idle
      obtain ⟨between, wait, after, rfl, isWait, quiet⟩ := ih safe stillBusy idle
      refine ⟨e :: between, wait, after, rfl, isWait, ?_⟩
      intro event member
      rcases List.mem_cons.mp member with rfl | later
      · exact ⟨by simpa using noPost, by simpa using waits⟩
      · exact quiet event later

end Libsysve.AccIo
