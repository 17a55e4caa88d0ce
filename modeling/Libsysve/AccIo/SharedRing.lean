import Libsysve.AccIo.DmaOutcome
import Libsysve.Vedma.Reach

/-!
# The transfers of many threads on one ring

The threads of a process make their accelerated calls one after another, each with the two
handles `vedma_handle[j]` on its stack, while others use the ring through handles of their
own.  The pipelines use their handles as the ring requires, in every order of the accesses;
so what is proved of the ring holds of the transfers, and between two calls of a thread
nothing in the ring refers to its stack, nor does a store that a section still has to make.
-/

set_option autoImplicit false

namespace Libsysve.AccIo

open Libsysve.Vedma

/-! ## What a call does with its handles -/

/-- Which handles have a request that was not waited for.  Only the others are posted, and
only these are waited for. -/
def useMonitor : Monitor (Half → Bool) DmaUse where
  start := fun _ => false
  after o
    | .post j _ _ _ true => Function.update o j true
    | .wait j _ => Function.update o j false
    | _ => o
  allowed o
    | .post j _ _ _ _ => o j = false
    | .wait j _ => o j = true

theorem useMonitor_through_after :
    (useMonitor.through IoEvent.dmaUse).after = dmaMonitor.after := by
  funext o e
  cases e with
  | dmaPost j dst src data size ok => cases ok <;> rfl
  | _ => rfl

theorem useMonitor_safe {log : List IoEvent} (safe : dmaMonitor.Safe log) :
    useMonitor.Safe (dmaUses log) := by
  refine (useMonitor.through_safe IoEvent.dmaUse log).mp
    (safe.map id rfl (fun o e => congrFun (congrFun useMonitor_through_after.symm o) e) ?_)
  intro o e allowed use taken
  cases e with
  | dmaPost j dst src data size ok =>
    obtain rfl := Option.some.inj taken
    exact allowed.1
  | dmaWait j code =>
    obtain rfl := Option.some.inj taken
    exact allowed
  | _ => exact absurd taken (by simp [IoEvent.dmaUse])

theorem useMonitor_stateAfter (log : List IoEvent) :
    useMonitor.stateAfter (dmaUses log) = outstanding log := by
  rw [dmaUses, ← Monitor.through_stateAfter, Monitor.stateAfter, useMonitor_through_after]
  rfl

theorem useMonitor_determined {o o' : Half → Bool} {left : List DmaUse}
    (safe : useMonitor.SafeFrom o left) (safe' : useMonitor.SafeFrom o' left)
    (ends : left.foldl useMonitor.after o = left.foldl useMonitor.after o') : o = o' := by
  induction left generalizing o o' with
  | nil => exact ends
  | cons use left ih =>
    obtain ⟨now, later⟩ := safe
    obtain ⟨now', later'⟩ := safe'
    have same := ih later later' ends
    funext k
    have here := congrFun same k
    cases use with
    | post j dst src size ok =>
      by_cases other : k = j
      · subst other
        exact now.trans now'.symm
      · cases ok with
        | false => exact here
        | true =>
          simp only [useMonitor, Function.update_of_ne other] at here
          exact here
    | wait j code =>
      by_cases other : k = j
      · subst other
        exact now.trans now'.symm
      · simp only [useMonitor, Function.update_of_ne other] at here
        exact here

structure TransferRun where
  env : Env
  io : AccIoInfo
  num : SyscallNum
  fd : Int
  ofs : Int
  world : World
  call : AccCall
  valid : call.Valid
  small : call.total ≤ maxTotal
  fresh : world.Fresh

def TransferRun.result (r : TransferRun) : IoResult :=
  r.call.run r.env r.io r.num r.fd r.ofs r.world

def TransferRun.uses (r : TransferRun) : List DmaUse := dmaUses r.result.world.log

def planUses (calls : List TransferRun) : List DmaUse := calls.flatMap TransferRun.uses

theorem TransferRun.uses_safe (r : TransferRun) : useMonitor.SafeFrom useMonitor.start r.uses ∧
    r.uses.foldl useMonitor.after useMonitor.start = useMonitor.start := by
  have settled := r.call.run_settled r.env r.io r.num r.fd r.ofs r.valid r.small r.fresh
  refine ⟨useMonitor.safeFrom_of_safe _ (useMonitor_safe settled.safe), ?_⟩
  have idle := useMonitor_stateAfter r.result.world.log
  exact idle.trans (funext settled.idle)

theorem planUses_safe (calls : List TransferRun) :
    useMonitor.SafeFrom useMonitor.start (planUses calls) ∧
      (planUses calls).foldl useMonitor.after useMonitor.start = useMonitor.start := by
  induction calls with
  | nil => exact ⟨trivial, rfl⟩
  | cons r calls ih =>
    obtain ⟨safe, ends⟩ := r.uses_safe
    have split : planUses (r :: calls) = r.uses ++ planUses calls := List.flatMap_cons ..
    rw [split, Monitor.safeFrom_append, List.foldl_append, ends]
    exact ⟨⟨safe, ih.1⟩, ih.2⟩

/-! ## The threads take turns -/

variable {Handle Thread : Type} [DecidableEq Handle] [DecidableEq Thread]

/-- The handles of a process: two of each thread's calls, and those of others. -/
abbrev ProcHandle (Handle Thread : Type) := (Thread × Half) ⊕ Handle

/-- The part of thread `t`'s calls in a step: a request, or the poll that ends a
`ve_dma_wait`. -/
def threadUse (t : Thread) (e : DmaEntry (ProcHandle Handle Thread) Thread) : Option DmaUse :=
  match e.label, e.out with
  | .post dst src size (.inl (u, j)), some ret =>
    if u = t then some (.post j dst src size (ret = 0)) else none
  | .poll (.inl (u, j)), some ret =>
    if u = t ∧ ret ≠ -eagain then some (.wait j ret) else none
  | _, _ => none

def proceed (left : Thread → List DmaUse) (e : DmaEntry (ProcHandle Handle Thread) Thread) :
    Thread → List DmaUse := fun t =>
  match threadUse t e with
  | some _ => (left t).tail
  | none => left t

def DmaUse.waits (j : Half) : DmaUse → Bool
  | .wait k _ => k = j
  | _ => false

/-- A step with a handle of thread `t` is what the calls of `t` do next with the ring;
`ve_dma_wait` repeats a poll that returns `-EAGAIN`. -/
def Proceeds (left : Thread → List DmaUse) (e : DmaEntry (ProcHandle Handle Thread) Thread) :
    Prop :=
  match e.label, e.out with
  | .post dst src size (.inl (t, j)), some ret =>
    (left t).head? = some (.post j dst src size (ret = 0))
  | .poll (.inl (t, j)), some ret =>
    if ret = -eagain then (left t).head?.any (DmaUse.waits j) = true
    else (left t).head? = some (.wait j ret)
  | _, _ => True

def OtherUsage (L : Ledger (ProcHandle Handle Thread) Thread)
    (e : DmaEntry (ProcHandle Handle Thread) Thread) : Prop :=
  match e.label with
  | .post _ _ _ (.inl _) => True
  | .poll (.inl _) => True
  | _ => Usage L e

/-- The calls of a thread, seen from the ring: `o` says which of its handles have an
outstanding request. -/
structure Midway (L : Ledger (ProcHandle Handle Thread) Thread) (t : Thread)
    (left : List DmaUse) (o : Half → Bool) : Prop where
  safe : useMonitor.SafeFrom o left
  ends : left.foldl useMonitor.after o = useMonitor.start
  handles : ∀ j, Outstanding L (.inl (t, j)) ↔ o j = true

abbrev SharedState (Handle Thread : Type) :=
  (Thread → List DmaUse) × Ledger (ProcHandle Handle Thread) Thread

/-- The calls that the threads make, along with the others. -/
def sharedMonitor (calls : Thread → List TransferRun) :
    Monitor (SharedState Handle Thread) (DmaEntry (ProcHandle Handle Thread) Thread) where
  start := (fun t => planUses (calls t), Ledger.blank)
  after state e := (proceed state.1 e, state.2.observe e)
  allowed state e := Proceeds state.1 e ∧ OtherUsage state.2 e

structure SharedInv (state : SharedState Handle Thread)
    (s : Ring (ProcHandle Handle Thread) Thread) : Prop where
  delivery : DeliveryInv state.2 s
  threads : ∀ t, ∃ o, Midway state.2 t (state.1 t) o

instance decidableProceeds (left : Thread → List DmaUse) :
    (e : DmaEntry (ProcHandle Handle Thread) Thread) → Decidable (Proceeds left e)
  | ⟨_, .post dst src size (.inl (t, j)), some ret, _⟩ =>
    inferInstanceAs (Decidable ((left t).head? = some (.post j dst src size (ret = 0))))
  | ⟨_, .poll (.inl (t, j)), some ret, _⟩ =>
    inferInstanceAs (Decidable (if ret = -eagain then (left t).head?.any (DmaUse.waits j) = true
      else (left t).head? = some (.wait j ret)))
  | ⟨_, .post _ _ _ (.inl _), none, _⟩ => isTrue trivial
  | ⟨_, .poll (.inl _), none, _⟩ => isTrue trivial
  | ⟨_, .post _ _ _ (.inr _), _, _⟩ => isTrue trivial
  | ⟨_, .poll (.inr _), _, _⟩ => isTrue trivial
  | ⟨_, .postWait .., _, _⟩ => isTrue trivial
  | ⟨_, .waitDone _, _, _⟩ => isTrue trivial
  | ⟨_, .clearReturn _, _, _⟩ => isTrue trivial
  | ⟨_, .hardware .., _, _⟩ => isTrue trivial

instance decidableOtherUsage (L : Ledger (ProcHandle Handle Thread) Thread) :
    (e : DmaEntry (ProcHandle Handle Thread) Thread) → Decidable (OtherUsage L e)
  | ⟨_, .post _ _ _ (.inl _), _, _⟩ => isTrue trivial
  | ⟨_, .poll (.inl _), _, _⟩ => isTrue trivial
  | ⟨s, .post dst src size (.inr h), out, s'⟩ =>
    decidableUsage L ⟨s, .post dst src size (.inr h), out, s'⟩
  | ⟨s, .poll (.inr h), out, s'⟩ => decidableUsage L ⟨s, .poll (.inr h), out, s'⟩
  | ⟨_, .postWait .., _, _⟩ => isTrue trivial
  | ⟨_, .waitDone _, _, _⟩ => isTrue trivial
  | ⟨_, .clearReturn _, _, _⟩ => isTrue trivial
  | ⟨_, .hardware .., _, _⟩ => isTrue trivial

instance decidableTurn (calls : Thread → List TransferRun) (state : SharedState Handle Thread)
    (e : DmaEntry (ProcHandle Handle Thread) Thread) :
    Decidable ((sharedMonitor calls).allowed state e) :=
  inferInstanceAs (Decidable (Proceeds state.1 e ∧ OtherUsage state.2 e))

variable {state : SharedState Handle Thread} {left : Thread → List DmaUse}
  {calls : Thread → List TransferRun}
  {s s' : Ring (ProcHandle Handle Thread) Thread}
  {label : DmaLabel (ProcHandle Handle Thread) Thread} {out : Option Int}

omit [DecidableEq Handle] in
theorem threadUse_cases {e : DmaEntry (ProcHandle Handle Thread) Thread} {t : Thread}
    {use : DmaUse} (made : threadUse t e = some use) :
    (∃ dst src size j ret, e.label = .post dst src size (.inl (t, j)) ∧ e.out = some ret ∧
      use = .post j dst src size (ret = 0)) ∨
    ∃ j ret, e.label = .poll (.inl (t, j)) ∧ e.out = some ret ∧ ret ≠ -eagain ∧
      use = .wait j ret := by
  unfold threadUse at made
  split at made
  · next dst src size u j ret isLabel isOut =>
    by_cases mine : u = t
    · subst mine
      rw [if_pos rfl] at made
      exact .inl ⟨dst, src, size, j, ret, isLabel, isOut, (Option.some.inj made).symm⟩
    · rw [if_neg mine] at made
      exact absurd made (by simp)
  · next u j ret isLabel isOut =>
    by_cases mine : u = t ∧ ret ≠ -eagain
    · obtain ⟨rfl, ended⟩ := mine
      rw [if_pos ⟨rfl, ended⟩] at made
      exact .inr ⟨j, ret, isLabel, isOut, ended, (Option.some.inj made).symm⟩
    · rw [if_neg mine] at made
      exact absurd made (by simp)
  · exact absurd made (by simp)

omit [DecidableEq Handle] in
theorem threadUse_none {e : DmaEntry (ProcHandle Handle Thread) Thread} {t : Thread}
    (none : threadUse t e = none) (j : Half) :
    startsFor e ≠ some (.inl (t, j)) ∧ returnsFor e ≠ some (.inl (t, j)) := by
  constructor
  · intro starts
    unfold startsFor at starts
    split at starts
    · next dst src size h ret isLabel isOut =>
      split at starts
      · obtain rfl := Option.some.inj starts
        simp [threadUse, isLabel, isOut] at none
      · exact absurd starts (by simp)
    · exact absurd starts (by simp)
  · intro returns
    unfold returnsFor at returns
    split at returns
    · next h ret isLabel isOut =>
      split at returns
      · next nonneg =>
        obtain rfl := Option.some.inj returns
        have ended : ret ≠ -eagain := by
          have positive : (0 : Int) < eagain := by decide
          omega
        simp [threadUse, isLabel, isOut, ended] at none
      · exact absurd returns (by simp)
    · exact absurd returns (by simp)

theorem head_cons {α : Type} {first : α} {list : List α} (head : list.head? = some first) :
    list = first :: list.tail := (List.cons_head?_tail head).symm

omit [DecidableEq Handle] [DecidableEq Thread] in
theorem Proceeds.polling {t : Thread} {j : Half} {ret : Int}
    (proceeds : Proceeds left ⟨s, .poll (.inl (t, j)), some ret, s'⟩) :
    ∃ code rest, left t = .wait j code :: rest := by
  by_cases again : ret = -eagain
  · simp only [Proceeds, if_pos again] at proceeds
    obtain ⟨use, head, waits⟩ := (Option.any_eq_true ..).mp proceeds
    cases use with
    | post k dst src size ok => exact absurd waits (by simp [DmaUse.waits])
    | wait k code =>
      obtain rfl : k = j := by simpa [DmaUse.waits] using waits
      exact ⟨code, _, head_cons head⟩
  · simp only [Proceeds, if_neg again] at proceeds
    exact ⟨ret, _, head_cons proceeds⟩

omit [DecidableEq Handle] in
theorem Proceeds.next {e : DmaEntry (ProcHandle Handle Thread) Thread}
    (proceeds : Proceeds left e) {t : Thread} {use : DmaUse} (made : threadUse t e = some use) :
    left t = use :: proceed left e t := by
  have tail : proceed left e t = (left t).tail := by rw [proceed, made]
  rw [tail]
  apply head_cons
  unfold Proceeds at proceeds
  rcases threadUse_cases made with
    ⟨dst, src, size, j, ret, isLabel, isOut, rfl⟩ | ⟨j, ret, isLabel, isOut, ended, rfl⟩
  · simp only [isLabel, isOut] at proceeds
    exact proceeds
  · simp only [isLabel, isOut, if_neg ended] at proceeds
    exact proceeds

theorem SharedInv.usage (inv : SharedInv state s) (effect : Effect s label out s')
    (proceeds : Proceeds state.1 ⟨s, label, out, s'⟩)
    (others : OtherUsage state.2 ⟨s, label, out, s'⟩) : Usage state.2 ⟨s, label, out, s'⟩ := by
  have posting : ∀ dst src size h ret, label = .post dst src size h → out = some ret →
      Usage state.2 ⟨s, .post dst src size h, some ret, s'⟩ := by
    rintro dst src size (⟨t, j⟩ | h) ret rfl rfl
    · obtain ⟨o, midway⟩ := inv.threads t
      have next : state.1 t = _ := head_cons proceeds
      have safe := midway.safe
      rw [next] at safe
      refine not_outstanding_iff.mp fun outstanding => ?_
      have busy := (midway.handles j).mp outstanding
      rw [safe.1] at busy
      exact absurd busy (by decide)
    · exact others
  have polling : ∀ h ret, label = .poll h → out = some ret →
      Usage state.2 ⟨s, .poll h, some ret, s'⟩ := by
    rintro (⟨t, j⟩ | h) ret rfl rfl
    · obtain ⟨o, midway⟩ := inv.threads t
      obtain ⟨code, rest, next⟩ := proceeds.polling
      have safe := midway.safe
      rw [next] at safe
      exact (midway.handles j).mpr safe.1
    · exact others
  cases effect with
  | rejected dst src size h => exact posting dst src size h _ rfl rfl
  | posted dst src size h vacant vacated => exact posting dst src size h _ rfl rfl
  | pollSaved h saved => exact polling h _ rfl rfl
  | pollCompleted h fresh done => exact polling h _ rfl rfl
  | pollBusy h fresh busy => exact polling h _ rfl rfl
  | postWait t dst src size idle vacant vacated => trivial
  | waitDone t i waiting done => trivial
  | clearReturn t i word clearing => trivial
  | hardware i word busy done => trivial

theorem useMonitor_after_iff (o : Half → Bool) (use : DmaUse) (k : Half) :
    useMonitor.after o use k = true ↔
      match use with
      | .post j _ _ _ ok => (ok = true ∧ j = k) ∨ o k = true
      | .wait j _ => o k = true ∧ j ≠ k := by
  cases use with
  | post j dst src size ok =>
    cases ok with
    | false => simp [useMonitor]
    | true =>
      by_cases same : j = k
      · simp [useMonitor, same]
      · simp [useMonitor, same, Function.update_of_ne (Ne.symm same)]
  | wait j code =>
    by_cases same : j = k
    · simp [useMonitor, same]
    · simp [useMonitor, same, Function.update_of_ne (Ne.symm same)]

theorem SharedInv.step (inv : SharedInv state s)
    (stepped : dmaStep s label = some (out, s'))
    (turn : (sharedMonitor calls).allowed state ⟨s, label, out, s'⟩) :
    Usage state.2 ⟨s, label, out, s'⟩ ∧
      SharedInv ((sharedMonitor calls).after state ⟨s, label, out, s'⟩) s' := by
  have effect := dmaStep_effect stepped
  obtain ⟨proceeds, others⟩ := turn
  have usage := inv.usage effect proceeds others
  have delivers := inv.delivery.delivers effect usage
  refine ⟨usage, inv.delivery.step stepped usage, fun t => ?_⟩
  obtain ⟨o, midway⟩ := inv.threads t
  have observed : ∀ j, Outstanding (state.2.observe ⟨s, label, out, s'⟩) (.inl (t, j)) ↔ _ :=
    fun j => outstanding_observe inv.delivery effect usage (.inl (t, j))
  show ∃ o, Midway (state.2.observe ⟨s, label, out, s'⟩) t
    (proceed state.1 ⟨s, label, out, s'⟩ t) o
  cases made : threadUse t ⟨s, label, out, s'⟩ with
  | none =>
    have kept : proceed state.1 ⟨s, label, out, s'⟩ t = state.1 t := by rw [proceed, made]
    rw [kept]
    refine ⟨o, midway.safe, midway.ends, fun j => ?_⟩
    obtain ⟨starts, returns⟩ := threadUse_none made j
    rw [observed, or_iff_right starts, and_iff_left returns]
    exact midway.handles j
  | some use =>
    have next := proceeds.next made
    have safe := midway.safe
    have ends := midway.ends
    rw [next] at safe ends
    refine ⟨useMonitor.after o use, safe.2, ends, fun k => ?_⟩
    rw [observed, useMonitor_after_iff, midway.handles]
    rcases threadUse_cases made with
      ⟨dst, src, size, j, ret, rfl, rfl, rfl⟩ | ⟨j, ret, rfl, rfl, ended, rfl⟩
    · by_cases accepted : ret = 0
      · simp [startsFor, returnsFor, accepted]
      · simp [startsFor, returnsFor, accepted]
    · obtain ⟨_, _, _, _, ⟨nonneg, _⟩ | ⟨again, _⟩⟩ := delivers
      · simp [startsFor, returnsFor, nonneg]
      · exact absurd again ended

/-! ## Whole runs -/

omit [DecidableEq Handle] [DecidableEq Thread] in
theorem sharedInv_initial (desc : DescIndex → DmaDesc)
    (handle : ProcHandle Handle Thread → VeDmaHandle) (calls : Thread → List TransferRun) :
    SharedInv (fun t => planUses (calls t), Ledger.blank) (Ring.initial desc handle) where
  delivery := deliveryInv_initial desc handle
  threads t := by
    obtain ⟨safe, ends⟩ := planUses_safe (calls t)
    refine ⟨useMonitor.start, safe, ends, fun j => ?_⟩
    exact iff_of_false (initial_not_outstanding _) (by simp [useMonitor])

section
variable {desc : DescIndex → DmaDesc} {handle : ProcHandle Handle Thread → VeDmaHandle}
  {calls : Thread → List TransferRun} {trace : List (DmaEntry (ProcHandle Handle Thread) Thread)}
  {final : Ring (ProcHandle Handle Thread) Thread}

theorem shared_run
    (run : (dmaMachine (ProcHandle Handle Thread) Thread).Run (.initial desc handle) trace final)
    (turns : (sharedMonitor calls).Safe trace) :
    (Monitor.mk Ledger.blank Ledger.observe Usage).Safe trace ∧
      SharedInv ((sharedMonitor calls).stateAfter trace) final := by
  have initially := sharedInv_initial desc handle calls
  constructor
  · have used : (Monitor.mk (sharedMonitor calls).start (sharedMonitor calls).after
        fun state e => Usage state.2 e).Safe trace :=
      run.guarantee initially (fun _ _ _ _ _ inv stepped turn => inv.step stepped turn) turns
    exact used.map Prod.snd rfl (fun _ _ => rfl) (fun _ _ usage => usage)
  · exact run.invariant initially
      (fun _ _ _ _ _ inv stepped turn => (inv.step stepped turn).2) turns

/-! ## Between two calls -/

theorem sharedMonitor_ledger (calls : Thread → List TransferRun)
    (steps : List (DmaEntry (ProcHandle Handle Thread) Thread)) :
    ((sharedMonitor calls).stateAfter steps).2 = steps.foldl Ledger.observe Ledger.blank := by
  induction steps using List.reverseRecOn with
  | nil => rfl
  | append_singleton steps e ih =>
    rw [Monitor.stateAfter_snoc, List.foldl_append, ← ih]
    rfl

/-- The thread has ended some of its calls and has not begun the next one. -/
def BetweenCalls (calls : List TransferRun) (left : List DmaUse) : Prop :=
  ∃ n, left = planUses (calls.drop n)

omit [DecidableEq Handle] [DecidableEq Thread] in
theorem SharedInv.idle (inv : SharedInv state s) {t : Thread} {runs : List TransferRun}
    (between : BetweenCalls runs (state.1 t)) (j : Half) :
    ¬Outstanding state.2 (.inl (t, j)) := by
  obtain ⟨n, rest⟩ := between
  obtain ⟨o, midway⟩ := inv.threads t
  obtain ⟨safe, ends⟩ := planUses_safe (runs.drop n)
  rw [← rest] at safe ends
  have idle : o = useMonitor.start :=
    useMonitor_determined midway.safe safe (midway.ends.trans ends.symm)
  rw [midway.handles, idle]
  simp [useMonitor]

omit [DecidableEq Handle] [DecidableEq Thread] in
theorem SharedInv.unused (inv : SharedInv state s) {t : Thread} {runs : List TransferRun}
    (between : BetweenCalls runs (state.1 t)) (j : Half) (i : DescIndex) :
    s.vedmaStatus i ≠ .handle (.inl (t, j)) :=
  fun entry => inv.idle between j (inv.delivery.attached.outstanding entry)

/-- Nothing in the ring refers to the handles of a thread between two calls, and nobody else
writes them. -/
def LeavesStack (calls : Thread → List TransferRun) (left : Thread → List DmaUse)
    (e : DmaEntry (ProcHandle Handle Thread) Thread) : Prop :=
  ∀ t, BetweenCalls (calls t) (left t) → ∀ j,
    (∀ i, e.before.vedmaStatus i ≠ .handle (.inl (t, j))) ∧
      (e.label.posted ≠ some (.inl (t, j)) →
        e.after.handle (.inl (t, j)) = e.before.handle (.inl (t, j)))

theorem leavesStack_run
    (run : (dmaMachine (ProcHandle Handle Thread) Thread).Run (.initial desc handle) trace final)
    (turns : (sharedMonitor calls).Safe trace) :
    (Monitor.mk (sharedMonitor calls).start (sharedMonitor calls).after
      fun state => LeavesStack calls state.1).Safe trace := by
  refine run.guarantee (sharedInv_initial desc handle calls) ?_ turns
  intro state s label out s' inv stepped turn
  refine ⟨fun t between j => ?_, (inv.step stepped turn).2⟩
  have unused := inv.unused between j
  exact ⟨unused, (dmaStep_effect stepped).handle_kept unused⟩

end

/-! ## The accesses of a process -/

variable (desc : DescIndex → DmaDesc) (handle : ProcHandle Handle Thread → VeDmaHandle)

/-- With any number of threads making accelerated calls, in every order of the accesses, the
ring is used properly: every `ve_dma_wait` ends with the code of its own request. -/
theorem transfers_delivered (sl : Thread → BitVec 64) (nonzero : ∀ t, sl t ≠ 0)
    (stopped : ∀ i, (desc i).word ≠ 1) (calls : Thread → List TransferRun)
    (trace : List (CpuEntry (ProcHandle Handle Thread) Thread))
    (final : Cpu (ProcHandle Handle Thread) Thread)
    (run : (cpuMachine (ProcHandle Handle Thread) sl).Run (Cpu.initial desc handle) trace final)
    (turns : (sharedMonitor calls).Safe (ringSteps desc handle trace)) :
    (Monitor.mk Ledger.blank Ledger.observe Delivers).Safe (ringSteps desc handle trace) ∧
      ∃ s : ServedRing (ProcHandle Handle Thread) Thread,
        (ringMachine (ProcHandle Handle Thread) Thread).Run
            ⟨Ring.initial desc handle, fun _ => .idle⟩ (ringAlong desc handle trace) s ∧
          trace.filterMap cpuEvent =
            (ringAlong desc handle trace).filterMap Machine.historyEvent ∧
          (final.memory.vedmaLock = 0 → s.object = final.memory.ring final.tails) := by
  obtain ⟨_, steps⟩ := ringSteps_run desc handle trace
  have usage := (shared_run steps turns).1
  obtain ⟨s, ran, ⟨_, linked⟩, history, _⟩ := cpu_simulated desc handle nonzero stopped run usage
  refine ⟨?_, s, ran, history, fun free => ?_⟩
  · refine steps.guarantee (deliveryInv_initial desc handle) ?_ usage
    intro L s label out s' inv stepped used
    exact ⟨inv.delivers (dmaStep_effect stepped) used, inv.step stepped used⟩
  · obtain rfl := linked.leaves.nobody (linked.exclusive.free free)
    exact linked.ring

/-! ### Two threads -/

def oneByte (res : AccIoResources) : TransferRun where
  env := .steady 1
  io := res.info (.steady 1)
  num := .write
  fd := 7
  ofs := 0
  world := .blank
  call := .writePwrite 4096 1
  valid := ⟨by decide, by decide⟩
  small := by decide
  fresh := World.blank_fresh

def twoWriters : Bool → List TransferRun
  | false => [oneByte .sample]
  | true => [oneByte ⟨0x500000, 0x600000, 0x700000, 0x800000⟩]

def posts (t : Bool) (dst src : BitVec 64) : CpuLabel (ProcHandle Nat Bool) Bool :=
  .call t (.request ⟨dst, src, 4, some (.inl (t, half 0))⟩)

def polls (t : Bool) : CpuLabel (ProcHandle Nat Bool) Bool := .call t (.poll (.inl (t, half 0)))

/-- The second thread has to wait for the lock and polls once in vain; the first ends, and the
second is in its section again. -/
def twoWritersLabels : List (CpuLabel (ProcHandle Nat Bool) Bool) :=
  [posts false 0x200000 0x100000, .access false, posts true 0x600000 0x500000, .access true] ++
    List.replicate 12 (.access false) ++ List.replicate 13 (.access true) ++ [polls true] ++
    List.replicate 6 (.access true) ++
    [.hardware (Fin.ofNat vedmaNdesc 1) 2, .hardware (Fin.ofNat vedmaNdesc 0) 2, polls false] ++
    List.replicate 7 (.access false) ++ [polls true, .access true]

def zeroHandle : ProcHandle Nat Bool → VeDmaHandle := fun _ => ⟨0, 0⟩

theorem twoWriters_run :
    ∃ trace final, (cpuMachine (ProcHandle Nat Bool) (fun _ => 0x1000)).exec
        (Cpu.initial blankDesc zeroHandle) twoWritersLabels = some (trace, final) ∧
      trace.filterMap Entry.out = [0, 0, -11, 0] ∧
      (sharedMonitor twoWriters).Safe (ringSteps blankDesc zeroHandle trace) ∧
      ((sharedMonitor twoWriters).stateAfter (ringSteps blankDesc zeroHandle trace)).1 false = [] ∧
      final.memory.vedmaLock ≠ 0 ∧
      ∀ u, openCalls trace u ≠ some (.poll (.inl (false, half 0))) := by
  have checked : ((cpuMachine (ProcHandle Nat Bool) (fun _ => 0x1000)).exec
      (Cpu.initial blankDesc zeroHandle) twoWritersLabels).any (fun done =>
        decide (done.1.filterMap Entry.out = [0, 0, -11, 0] ∧
          (sharedMonitor twoWriters).SafeFrom (sharedMonitor twoWriters).start
            (ringSteps blankDesc zeroHandle done.1) ∧
          ((sharedMonitor twoWriters).stateAfter
            (ringSteps blankDesc zeroHandle done.1)).1 false = [] ∧
          done.2.memory.vedmaLock ≠ 0 ∧
          ∀ u, openCalls done.1 u ≠ some (.poll (.inl (false, half 0))))) = true := by
    decide +kernel
  rw [Option.any_eq_true] at checked
  obtain ⟨⟨trace, final⟩, ran, holds⟩ := checked
  obtain ⟨outs, turns, rest⟩ := of_decide_eq_true holds
  exact ⟨trace, final, ran, outs, (sharedMonitor twoWriters).safe_of_safeFrom _ turns, rest⟩

theorem transfers_delivered_two :
    ∃ trace final, (cpuMachine (ProcHandle Nat Bool) (fun _ => 0x1000)).exec
        (Cpu.initial blankDesc zeroHandle) twoWritersLabels = some (trace, final) ∧
      trace.filterMap Entry.out = [0, 0, -11, 0] ∧
      (Monitor.mk Ledger.blank Ledger.observe Delivers).Safe
        (ringSteps blankDesc zeroHandle trace) := by
  obtain ⟨trace, final, ran, outs, turns, _⟩ := twoWriters_run
  have delivered := transfers_delivered blankDesc zeroHandle (fun _ => 0x1000)
    (fun _ => by decide) (fun _ => by simp [blankDesc]) twoWriters trace final
    (Machine.exec_run ran) turns
  exact ⟨trace, final, ran, outs, delivered.1⟩

/-- Between two calls of a thread the ring has no pointer to the handles on its stack, and no
step of anybody else writes them.  In the memory this is so whenever `vedma_lock` is free, and
in the section of another thread as well: only the section that polls the handle itself has
still to clear its entry. -/
theorem stack_left_alone (sl : Thread → BitVec 64) (nonzero : ∀ t, sl t ≠ 0)
    (stopped : ∀ i, (desc i).word ≠ 1) (calls : Thread → List TransferRun)
    (trace : List (CpuEntry (ProcHandle Handle Thread) Thread))
    (final : Cpu (ProcHandle Handle Thread) Thread)
    (run : (cpuMachine (ProcHandle Handle Thread) sl).Run (Cpu.initial desc handle) trace final)
    (turns : (sharedMonitor calls).Safe (ringSteps desc handle trace)) :
    (Monitor.mk (sharedMonitor calls).start (sharedMonitor calls).after
        fun state => LeavesStack calls state.1).Safe (ringSteps desc handle trace) ∧
      (final.memory.vedmaLock = 0 → ∀ t,
        BetweenCalls (calls t)
            (((sharedMonitor calls).stateAfter (ringSteps desc handle trace)).1 t) →
          ∀ i j, final.memory.vedmaStatus i ≠ .handle (.inl (t, j))) ∧
      ∀ t, BetweenCalls (calls t)
          (((sharedMonitor calls).stateAfter (ringSteps desc handle trace)).1 t) →
        ∀ j, (∀ u, openCalls trace u ≠ some (.poll (.inl (t, j)))) →
          (∀ i, final.memory.vedmaStatus i ≠ .handle (.inl (t, j))) ∧
            ∀ u, ∀ w ∈ (final.pc u).left, ¬w.Reaches (.inl (t, j)) := by
  obtain ⟨_, steps⟩ := ringSteps_run desc handle trace
  refine ⟨leavesStack_run steps turns, fun free t between i j entry => ?_,
    fun t between j unpolled => ?inside⟩
  case inside =>
    have usage := (shared_run steps turns).1
    have reaching := reaching_run desc handle nonzero stopped run usage
    have idle := (shared_run steps turns).2.idle between j
    rw [sharedMonitor_ledger] at idle
    refine ⟨fun i entry => ?_,
      fun u w member reaches => idle (reaching.stores u w member _ reaches)⟩
    rcases reaching.entries i _ entry with outstanding | ⟨u, polls, _⟩
    · exact idle outstanding
    · exact unpolled u polls
  obtain ⟨s, ran, ⟨_, linked⟩, _⟩ :=
    cpu_simulated desc handle nonzero stopped run (shared_run steps turns).1
  obtain rfl := linked.leaves.nobody (linked.exclusive.free free)
  have inv := (shared_run ran.operations turns).2
  refine inv.unused between j i ?_
  rw [linked.ring]
  exact entry

theorem stack_left_alone_two :
    ∃ trace final, (cpuMachine (ProcHandle Nat Bool) (fun _ => 0x1000)).exec
        (Cpu.initial blankDesc zeroHandle) twoWritersLabels = some (trace, final) ∧
      BetweenCalls (twoWriters false) (((sharedMonitor twoWriters).stateAfter
        (ringSteps blankDesc zeroHandle trace)).1 false) ∧
      (Monitor.mk (sharedMonitor twoWriters).start (sharedMonitor twoWriters).after
        fun state => LeavesStack twoWriters state.1).Safe
          (ringSteps blankDesc zeroHandle trace) ∧
      final.memory.vedmaLock ≠ 0 ∧
      ∀ i, final.memory.vedmaStatus i ≠ .handle (.inl (false, half 0)) := by
  obtain ⟨trace, final, ran, _, turns, ended, held, unpolled⟩ := twoWriters_run
  have alone := stack_left_alone blankDesc zeroHandle (fun _ => 0x1000)
    (fun _ => by decide) (fun _ => by simp [blankDesc]) twoWriters trace final
    (Machine.exec_run ran) turns
  have inside := alone.2.2 false ⟨1, ended⟩ (half 0) unpolled
  exact ⟨trace, final, ran, ⟨1, ended⟩, alone.1, held, inside.1⟩

end Libsysve.AccIo
