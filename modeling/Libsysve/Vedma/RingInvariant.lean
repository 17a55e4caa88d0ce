import Libsysve.Vedma.Ledger

/-!
# The invariant of the descriptor ring

`RingInv` ties the record of the observer to the state of the ring.  The facts of each layer
(descriptors, handles, threads, entries that are free) have a lemma for every transition.
-/

set_option autoImplicit false

namespace Libsysve.Vedma

variable {Handle Thread : Type}

/-- Which request is where, and what its descriptor says of it. -/
structure Booked (L : Ledger Handle Thread) (desc : DescIndex → DmaDesc) : Prop where
  owner_lt : ∀ r o, L.owner r = some o → r < L.started
  code_lt : ∀ r c, L.code r = some c → r < L.started
  result_lt : ∀ r v, L.result r = some v → r < L.started
  latest_owner : ∀ h r, L.latest h = some r → L.owner r = some (.handle h)
  own_owner : ∀ t r, L.own t = some r → L.owner r = some (.thread t)
  slot_lt : ∀ i r, L.slotReq i = some r → r < L.started
  slot_inj : ∀ i j r, L.slotReq i = some r → L.slotReq j = some r → i = j
  word : ∀ i r, L.slotReq i = some r →
    ((desc i).word = 1 ∧ L.code r = none) ∨
      (completed (desc i).word = true ∧ L.code r = some (exception (desc i).word))

/-- Where the code of the latest request `r` of handle `h` is to be found: `d` is what the
handle holds, `status` the entries of the ring. -/
inductive HandleState (L : Ledger Handle Thread) (d : VeDmaHandle)
    (status : DescIndex → StatusEntry Handle) (h : Handle) (r : Nat) : Prop
  | saved (done : d.status ≠ -1) (kept : ∀ v, L.result r = some v → d.status = v)
  | pending (fresh : d.status = -1) (undelivered : L.result r = none)
      (slot : L.slotReq d.index = some r) (entry : status d.index = .handle h)
  | delivered (fresh : d.status = -1) (v : Int) (result : L.result r = some v)
      (code : L.code r = some v)
      (cleared : L.slotReq d.index = some r → status d.index = .null)

/-- Thread `t` waits for its own request, which is still in descriptor `i`. -/
structure Waits (L : Ledger Handle Thread) (status : DescIndex → StatusEntry Handle)
    (t : Thread) (i : DescIndex) (r : Nat) : Prop where
  own : L.own t = some r
  slot : L.slotReq i = some r
  entry : status i = .sync
  undelivered : L.result r = none

def ThreadState (L : Ledger Handle Thread) (status : DescIndex → StatusEntry Handle)
    (t : Thread) : PostWait → Prop
  | .idle => True
  | .waiting i => ∃ r, Waits L status t i r
  | .clearing i word => ∃ r, Waits L status t i r ∧ L.code r = some (exception word)

/-- A free entry is that of a request whose code was returned. -/
def Drained (L : Ledger Handle Thread) (status : DescIndex → StatusEntry Handle)
    (i : DescIndex) : Prop :=
  status i = .null → ∀ r, L.slotReq i = some r → ∃ c, L.code r = some c ∧ L.result r = some c

structure RingInv (L : Ledger Handle Thread) (s : Ring Handle Thread) : Prop where
  booked : Booked L s.vedmaDesc
  handles : ∀ h r, L.latest h = some r → HandleState L (s.handle h) s.vedmaStatus h r
  threads : ∀ t, ThreadState L s.vedmaStatus t (s.thread t)
  drained : ∀ i, Drained L s.vedmaStatus i

theorem ringInv_initial (desc : DescIndex → DmaDesc) (handle : Handle → VeDmaHandle) :
    RingInv (Ledger.blank : Ledger Handle Thread) (Ring.initial desc handle) where
  booked := by constructor <;> simp [Ledger.blank]
  handles := by simp [Ledger.blank]
  threads _ := trivial
  drained := by simp [Drained, Ledger.blank]

variable {L : Ledger Handle Thread} {desc : DescIndex → DmaDesc} {d : VeDmaHandle}
  {status : DescIndex → StatusEntry Handle} {h : Handle} {t : Thread} {i : DescIndex}
  {r r' : Nat} {v : Int} {word : BitVec 64}

theorem ThreadState.imp {L' : Ledger Handle Thread} {status' : DescIndex → StatusEntry Handle}
    {left : PostWait} (holds : ThreadState L status t left)
    (waits : ∀ i r, Waits L status t i r → Waits L' status' t i r)
    (code : ∀ r c, L.code r = some c → L'.code r = some c) : ThreadState L' status' t left := by
  cases left with
  | idle => trivial
  | waiting i =>
    obtain ⟨r, here⟩ := holds
    exact ⟨r, waits i r here⟩
  | clearing i word =>
    obtain ⟨r, here, read⟩ := holds
    exact ⟨r, waits i r here, code r _ read⟩

/-! ### A value is returned -/

theorem Booked.deliver (booked : Booked L desc) (known : r < L.started) :
    Booked (L.deliver r v) desc :=
  { booked with
    result_lt := by
      intro r' v' result
      by_cases same : r' = r
      · rw [same]
        exact known
      · rw [Ledger.deliver_result_other same] at result
        exact booked.result_lt r' v' result }

theorem HandleState.deliver_other (holds : HandleState L d status h r') (other : r' ≠ r) :
    HandleState (L.deliver r v) d status h r' := by
  have same := Ledger.deliver_result_other (L := L) (v := v) other
  cases holds with
  | saved done kept => exact .saved done (by rwa [same])
  | pending fresh undelivered slot entry => exact .pending fresh (by rwa [same]) slot entry
  | delivered fresh w result code cleared =>
    exact .delivered fresh w (by rwa [same]) code cleared

theorem Waits.deliver_other (here : Waits L status t i r') (other : r' ≠ r) :
    Waits (L.deliver r v) status t i r' :=
  { own := here.own
    slot := here.slot
    entry := here.entry
    undelivered := by rw [Ledger.deliver_result_other other, here.undelivered] }

theorem Drained.deliver (holds : Drained L status i) : Drained (L.deliver r v) status i := by
  intro free r' slot
  obtain ⟨c, code, result⟩ := holds free r' slot
  exact ⟨c, code, Ledger.deliver_result_done result⟩

/-! ### A descriptor is completed -/

theorem completed_one : completed 1 = false := by decide

theorem Booked.code_none (booked : Booked L desc) (busy : (desc i).word = 1)
    (slot : L.slotReq i = some r) : L.code r = none := by
  rcases booked.word i r slot with ⟨_, none⟩ | ⟨done, _⟩
  · exact none
  · rw [busy, completed_one] at done
    exact absurd done (by simp)

theorem Booked.code_some (booked : Booked L desc) (done : completed (desc i).word = true)
    (slot : L.slotReq i = some r) : L.code r = some (exception (desc i).word) := by
  rcases booked.word i r slot with ⟨busy, _⟩ | ⟨_, code⟩
  · rw [busy, completed_one] at done
    exact absurd done (by simp)
  · exact code

theorem Booked.complete_code (booked : Booked L desc) (busy : (desc i).word = 1) {c : Int}
    (known : L.code r = some c) : (L.complete i word).code r = some c := by
  have other : L.slotReq i ≠ some r := by
    intro slot
    rw [booked.code_none busy slot] at known
    exact absurd known (by simp)
  rw [Ledger.complete_code_other other, known]

theorem Booked.complete (booked : Booked L desc) (done : completed word = true) :
    Booked (L.complete i word) (Function.update desc i { desc i with word := word }) :=
  { booked with
    code_lt := by
      intro r c code
      by_cases slot : L.slotReq i = some r
      · exact booked.slot_lt i r slot
      · rw [Ledger.complete_code_other slot] at code
        exact booked.code_lt r c code
    word := by
      intro j r (slot : L.slotReq j = some r)
      by_cases here : j = i
      · subst here
        rw [Function.update_self]
        exact Or.inr ⟨done, Ledger.complete_code_self slot⟩
      · have other : L.slotReq i ≠ some r := fun same => here (booked.slot_inj j i r slot same)
        rw [Function.update_of_ne here, Ledger.complete_code_other other]
        exact booked.word j r slot }

theorem RingInv.complete {s : Ring Handle Thread} (inv : RingInv L s)
    (busy : (s.vedmaDesc i).word = 1) (done : completed word = true) :
    RingInv (L.complete i word) (s.setWord i word) where
  booked := inv.booked.complete done
  handles := by
    intro h r latest
    cases inv.handles h r latest with
    | saved done kept => exact .saved done kept
    | pending fresh undelivered slot entry => exact .pending fresh undelivered slot entry
    | delivered fresh v result code cleared =>
      exact .delivered fresh v result (inv.booked.complete_code busy code) cleared
  threads t := by
    refine (inv.threads t).imp ?_ ?_
    · exact fun j r here => ⟨here.own, here.slot, here.entry, here.undelivered⟩
    · exact fun r c known => inv.booked.complete_code busy known
  drained := by
    intro j free r slot
    obtain ⟨c, code, result⟩ := inv.drained j free r slot
    exact ⟨c, inv.booked.complete_code busy code, result⟩

/-! ### An entry is cleared -/

theorem HandleState.clear (holds : HandleState L d status h r)
    (other : d.index = i → L.slotReq i = some r → status i ≠ .handle h) :
    HandleState L d (Function.update status i .null) h r := by
  cases holds with
  | saved done kept => exact .saved done kept
  | pending fresh undelivered slot entry =>
    have elsewhere : d.index ≠ i := by
      rintro rfl
      exact other rfl slot entry
    exact .pending fresh undelivered slot (by rwa [Function.update_of_ne elsewhere])
  | delivered fresh v result code cleared =>
    refine .delivered fresh v result code (fun slot => ?_)
    by_cases here : d.index = i
    · rw [here, Function.update_self]
    · rw [Function.update_of_ne here]
      exact cleared slot

theorem Waits.clear {j : DescIndex} (here : Waits L status t j r) (other : j ≠ i) :
    Waits L (Function.update status i .null) t j r :=
  { own := here.own
    slot := here.slot
    entry := by rw [Function.update_of_ne other, here.entry]
    undelivered := here.undelivered }

theorem Drained.clear {j : DescIndex} (holds : Drained L status j)
    (returned : ∀ r, L.slotReq i = some r → ∃ c, L.code r = some c ∧ L.result r = some c) :
    Drained L (Function.update status i .null) j := by
  by_cases here : j = i
  · subst here
    exact fun _ => returned
  · intro free
    rw [Function.update_of_ne here] at free
    exact holds free

theorem Booked.handle_ne_thread (booked : Booked L desc) (latest : L.latest h = some r)
    (own : L.own t = some r') : r ≠ r' := by
  rintro rfl
  have owners := (booked.latest_owner h r latest).symm.trans (booked.own_owner t r own)
  simp at owners

theorem Booked.latest_inj {g : Handle} (booked : Booked L desc) (latest : L.latest h = some r)
    (other : L.latest g = some r) : h = g := by
  have owners := (booked.latest_owner h r latest).symm.trans (booked.latest_owner g r other)
  simpa using owners

theorem Booked.own_inj {t' : Thread} (booked : Booked L desc) (own : L.own t = some r)
    (other : L.own t' = some r) : t = t' := by
  have owners := (booked.own_owner t r own).symm.trans (booked.own_owner t' r other)
  simpa using owners

theorem Booked.result_none (booked : Booked L desc) : L.result L.started = none := by
  cases result : L.result L.started with
  | none => rfl
  | some v => exact absurd (booked.result_lt _ v result) (by omega)

theorem Booked.latest_lt (booked : Booked L desc) (latest : L.latest h = some r) :
    r < L.started :=
  booked.owner_lt r _ (booked.latest_owner h r latest)

/-! ### The steps of `ve_dma_poll` -/

theorem HandleState.slot_of (holds : HandleState L d status h r) (fresh : d.status = -1)
    (careful : L.result r ≠ none → d.status = -1 → L.slotReq d.index = some r) :
    L.slotReq d.index = some r := by
  cases holds with
  | saved done kept => exact absurd fresh done
  | pending _ undelivered slot entry => exact slot
  | delivered _ v result code cleared => exact careful (by simp [result]) fresh

variable {s : Ring Handle Thread}

theorem RingInv.pollSaved (inv : RingInv L s) (latest : L.latest h = some r)
    (saved : (s.handle h).status ≠ -1) : RingInv (L.deliver r (s.handle h).status) s where
  booked := inv.booked.deliver (inv.booked.latest_lt latest)
  handles := by
    intro g r' (latest' : L.latest g = some r')
    have before := inv.handles g r' latest'
    by_cases same : r' = r
    · subst same
      obtain rfl := inv.booked.latest_inj latest latest'
      refine .saved saved (fun v result => ?_)
      rw [Ledger.deliver_result_self, Option.some.injEq] at result
      cases before with
      | saved done kept =>
        cases known : L.result r' with
        | none => rwa [known, Option.getD_none] at result
        | some w => rw [kept w known, ← result, known, Option.getD_some]
      | pending fresh undelivered slot entry => exact absurd fresh saved
      | delivered fresh w known code cleared => exact absurd fresh saved
    · exact before.deliver_other same
  threads t := by
    refine (inv.threads t).imp (fun i r' here => ?_) (fun r c known => known)
    exact here.deliver_other (inv.booked.handle_ne_thread latest here.own).symm
  drained i := (inv.drained i).deliver

theorem RingInv.pollCompleted (inv : RingInv L s) (latest : L.latest h = some r)
    (fresh : (s.handle h).status = -1) (slot : L.slotReq (s.handle h).index = some r)
    (done : completed (s.vedmaDesc (s.handle h).index).word = true) :
    RingInv (L.deliver r (exception (s.vedmaDesc (s.handle h).index).word))
      (s.clearEntry (s.handle h).index) := by
  have code := inv.booked.code_some done slot
  have result : (L.result r).getD (exception (s.vedmaDesc (s.handle h).index).word) =
      exception (s.vedmaDesc (s.handle h).index).word := by
    cases inv.handles h r latest with
    | saved done' kept => exact absurd fresh done'
    | pending fresh' undelivered slot' entry => rw [undelivered, Option.getD_none]
    | delivered fresh' v known code' cleared =>
      rw [known, Option.getD_some]
      exact Option.some.inj (code'.symm.trans code)
  exact
    { booked := inv.booked.deliver (inv.booked.latest_lt latest)
      handles := by
        intro g r' (latest' : L.latest g = some r')
        by_cases same : r' = r
        · subst same
          obtain rfl := inv.booked.latest_inj latest latest'
          refine .delivered fresh _ ?_ code (fun _ => Function.update_self ..)
          rw [Ledger.deliver_result_self, result]
        · refine HandleState.clear ((inv.handles g r' latest').deliver_other same) ?_
          intro _ slot' _
          exact absurd (Option.some.inj (slot'.symm.trans slot)) same
      threads := by
        intro t
        refine (inv.threads t).imp (fun i r' here => ?_) (fun r c known => known)
        have other := inv.booked.handle_ne_thread latest here.own
        refine (here.deliver_other other.symm).clear (fun same => ?_)
        have slots := here.slot
        rw [same, slot] at slots
        exact other (Option.some.inj slots)
      drained := by
        intro i
        refine (inv.drained i).deliver.clear (fun r' (slot' : L.slotReq _ = some r') => ?_)
        obtain rfl := Option.some.inj (slot.symm.trans slot')
        exact ⟨_, code, by rw [Ledger.deliver_result_self, result]⟩ }

/-! ### The steps of `ve_dma_post_wait` after its section -/

theorem RingInv.own_of_clearing (inv : RingInv L s) (clearing : s.thread t = .clearing i word) :
    ∃ r, L.own t = some r := by
  have before := inv.threads t
  rw [clearing] at before
  obtain ⟨r, here, _⟩ := before
  exact ⟨r, here.own⟩

section
variable [DecidableEq Thread]

theorem RingInv.setThread (inv : RingInv L s) {left : PostWait}
    (new : ThreadState L s.vedmaStatus t left) : RingInv L (s.setThread t left) :=
  { inv with
    threads := by
      intro t'
      by_cases same : t' = t
      · subst same
        rw [Ring.setThread_self]
        exact new
      · rw [show (s.setThread t left).thread t' = s.thread t' from Function.update_of_ne same ..]
        exact inv.threads t' }

theorem RingInv.waitDone (inv : RingInv L s) (waiting : s.thread t = .waiting i)
    (done : completed (s.vedmaDesc i).word = true) :
    RingInv L (s.setThread t (.clearing i (s.vedmaDesc i).word)) := by
  refine inv.setThread ?_
  have before := inv.threads t
  rw [waiting] at before
  obtain ⟨r, here⟩ := before
  exact ⟨r, here, inv.booked.code_some done here.slot⟩

theorem RingInv.clearReturn (inv : RingInv L s) (own : L.own t = some r)
    (clearing : s.thread t = .clearing i word) :
    L.code r = some (exception word) ∧ L.result r = none ∧
      RingInv (L.deliver r (exception word)) ((s.clearEntry i).setThread t .idle) := by
  have before := inv.threads t
  rw [clearing] at before
  obtain ⟨r', here, code⟩ := before
  obtain rfl := Option.some.inj (own.symm.trans here.own)
  refine ⟨code, here.undelivered, ?_⟩
  have result : (L.deliver r (exception word)).result r = some (exception word) := by
    rw [Ledger.deliver_result_self, here.undelivered, Option.getD_none]
  exact
    { booked := inv.booked.deliver (inv.booked.owner_lt r _ (inv.booked.own_owner t r own))
      handles := by
        intro h r' (latest : L.latest h = some r')
        have other := inv.booked.handle_ne_thread latest own
        refine ((inv.handles h r' latest).deliver_other other).clear (fun _ _ entry => ?_)
        rw [here.entry] at entry
        exact absurd entry (by simp)
      threads := by
        intro t'
        by_cases same : t' = t
        · subst same
          rw [Ring.setThread_self]
          trivial
        · rw [show ((s.clearEntry i).setThread t .idle).thread t' = s.thread t' from
            Function.update_of_ne same ..]
          refine (inv.threads t').imp (fun j r' there => ?_) (fun r c known => known)
          have other : r' ≠ r := by
            rintro rfl
            exact same (inv.booked.own_inj there.own own)
          refine (there.deliver_other other).clear (fun slots => other ?_)
          rw [slots] at there
          exact Option.some.inj (there.slot.symm.trans here.slot)
      drained := by
        intro j
        refine (inv.drained j).deliver.clear (fun r' (slot : L.slotReq i = some r') => ?_)
        obtain rfl := Option.some.inj (here.slot.symm.trans slot)
        exact ⟨_, code, result⟩ }

end

/-! ### A request is started -/

variable [DecidableEq Handle]

/-- The invariant while a function that starts a request has made the next entry free: the
code of its last request may be in a handle only. -/
structure Opened (L : Ledger Handle Thread) (s : Ring Handle Thread) : Prop where
  booked : Booked L s.vedmaDesc
  handles : ∀ h r, L.latest h = some r → HandleState L (s.handle h) s.vedmaStatus h r
  threads : ∀ t, ThreadState L s.vedmaStatus t (s.thread t)
  drained : ∀ i, i ≠ s.vedmaIndex → Drained L s.vedmaStatus i
  free : s.vedmaStatus s.vedmaIndex = .null

/-- The handle whose status is saved has not returned a value for its latest request. -/
def Unfinished (L : Ledger Handle Thread) (g : Handle) : Prop :=
  ∀ r ∈ L.latest g, L.result r = none

instance (L : Ledger Handle Thread) (g : Handle) : Decidable (Unfinished L g) :=
  inferInstanceAs (Decidable (∀ r ∈ L.latest g, L.result r = none))

theorem exception_nonneg (word : BitVec 64) : 0 ≤ exception word :=
  Int.natCast_nonneg _

theorem RingInv.vacated {vacant : Ring Handle Thread} (inv : RingInv L s)
    (vacated : Vacated s vacant)
    (unfinished : ∀ g, s.vedmaStatus s.vedmaIndex = .handle g →
      completed s.nextWord = true → Unfinished L g) :
    Opened L vacant := by
  cases vacated with
  | free entry => exact ⟨inv.booked, inv.handles, inv.threads, fun i _ => inv.drained i, entry⟩
  | saved g entry done =>
    refine ⟨inv.booked, ?_, ?_, ?_, Ring.saveStatus_entry_self⟩
    · intro h r latest
      by_cases same : h = g
      · subst same
        rw [Ring.saveStatus_handle_self]
        have returned := exception_nonneg s.nextWord
        refine .saved (fun fresh => ?_) (fun v result => ?_)
        · exact absurd (fresh ▸ returned : (0 : Int) ≤ -1) (by decide)
        · rw [unfinished h entry done r latest] at result
          exact absurd result (by simp)
      · rw [Ring.saveStatus_handle_other same]
        refine (inv.handles h r latest).clear (fun _ _ other => ?_)
        rw [entry, StatusEntry.handle.injEq] at other
        exact same other.symm
    · intro t
      refine (inv.threads t).imp (fun i r here => here.clear ?_) (fun r c known => known)
      rintro rfl
      have other := here.entry
      rw [entry] at other
      exact absurd other (by simp)
    · intro i (other : i ≠ s.vedmaIndex) nothing
      rw [Ring.saveStatus_entry_other other] at nothing
      exact inv.drained i nothing

theorem RingInv.forget (inv : RingInv L s) : RingInv (L.forget h) s :=
  { inv with
    booked :=
      { inv.booked with
        latest_owner := fun g r known =>
          inv.booked.latest_owner g r (Ledger.forget_latest_other known).2 }
    handles := by
      intro g r known
      cases inv.handles g r (Ledger.forget_latest_other known).2 with
      | saved done kept => exact .saved done kept
      | pending fresh undelivered slot entry => exact .pending fresh undelivered slot entry
      | delivered fresh v result code cleared => exact .delivered fresh v result code cleared
    threads := fun t => (inv.threads t).imp
      (fun i r here => ⟨here.own, here.slot, here.entry, here.undelivered⟩)
      (fun r c code => code) }

variable [DecidableEq Thread] {o : Owner Handle Thread}

theorem Booked.start (booked : Booked L desc) {new : DmaDesc} (started : new.word = 1) :
    Booked (L.start i o) (Function.update desc i new) where
  owner_lt := by
    intro r o' known
    by_cases last : r = L.started
    · exact last ▸ Nat.lt_succ_self _
    · rw [show (L.start i o).owner r = L.owner r from Function.update_of_ne last ..] at known
      exact Nat.lt_succ_of_lt (booked.owner_lt r o' known)
  code_lt r c code := Nat.lt_succ_of_lt (booked.code_lt r c code)
  result_lt r v result := Nat.lt_succ_of_lt (booked.result_lt r v result)
  latest_owner := by
    intro h r known
    rcases Ledger.start_latest known with ⟨new, last⟩ | ⟨_, old⟩
    · rw [last, Ledger.start_owner_self, new]
    · rw [Ledger.start_owner_old (booked.latest_lt old)]
      exact booked.latest_owner h r old
  own_owner := by
    intro t r known
    rcases Ledger.start_own known with ⟨new, last⟩ | ⟨_, old⟩
    · rw [last, Ledger.start_owner_self, new]
    · have owner := booked.own_owner t r old
      rw [Ledger.start_owner_old (booked.owner_lt r _ owner)]
      exact owner
  slot_lt := by
    intro j r slot
    by_cases here : j = i
    · rw [here, Ledger.start_slot_self, Option.some.injEq] at slot
      exact slot ▸ Nat.lt_succ_self _
    · rw [Ledger.start_slot_other here] at slot
      exact Nat.lt_succ_of_lt (booked.slot_lt j r slot)
  slot_inj := by
    intro j k r slot slot'
    by_cases last : r = L.started
    · have at_i : ∀ j', (L.start i o).slotReq j' = some r → j' = i := by
        intro j' slot
        by_contra other
        rw [Ledger.start_slot_other other] at slot
        exact absurd (booked.slot_lt j' r slot) (by omega)
      rw [at_i j slot, at_i k slot']
    · have old : ∀ j', (L.start i o).slotReq j' = some r → L.slotReq j' = some r := by
        intro j' slot
        by_cases here : j' = i
        · rw [here, Ledger.start_slot_self, Option.some.injEq] at slot
          exact absurd slot.symm last
        · rwa [Ledger.start_slot_other here] at slot
      exact booked.slot_inj j k r (old j slot) (old k slot')
  word := by
    intro j r slot
    by_cases here : j = i
    · rw [here, Ledger.start_slot_self, Option.some.injEq] at slot
      rw [here, Function.update_self]
      refine Or.inl ⟨started, ?_⟩
      cases code : L.code r with
      | none => exact code
      | some c => exact absurd (booked.code_lt r c code) (by omega)
    · rw [Ledger.start_slot_other here] at slot
      rw [Function.update_of_ne here]
      exact booked.word j r slot

theorem HandleState.start {new : StatusEntry Handle} (holds : HandleState L d status h r)
    (old : r < L.started) (free : status i = .null) :
    HandleState (L.start i o) d (Function.update status i new) h r := by
  cases holds with
  | saved done kept => exact .saved done kept
  | pending fresh undelivered slot entry =>
    have elsewhere : d.index ≠ i := by
      rintro rfl
      rw [free] at entry
      exact absurd entry (by simp)
    refine .pending fresh undelivered ?_ ?_
    · rwa [Ledger.start_slot_other elsewhere]
    · rwa [Function.update_of_ne elsewhere]
  | delivered fresh v result code cleared =>
    refine .delivered fresh v result code (fun slot => ?_)
    obtain ⟨elsewhere, slot'⟩ := Ledger.start_slot_old old slot
    rw [Function.update_of_ne elsewhere]
    exact cleared slot'

theorem Waits.start {j : DescIndex} {new : StatusEntry Handle} (here : Waits L status t j r)
    (other : o ≠ .thread t) (free : status i = .null) :
    Waits (L.start i o) (Function.update status i new) t j r := by
  have elsewhere : j ≠ i := by
    rintro rfl
    have entry := here.entry
    rw [free] at entry
    exact absurd entry (by simp)
  refine ⟨?_, ?_, ?_, here.undelivered⟩
  · cases o with
    | handle g => exact here.own
    | thread u =>
      have differ : t ≠ u := fun same => other (by rw [same])
      exact (Function.update_of_ne differ ..).trans here.own
  · rw [Ledger.start_slot_other elsewhere, here.slot]
  · rw [Function.update_of_ne elsewhere, here.entry]

theorem Drained.start {j : DescIndex} {new : StatusEntry Handle} (used : new ≠ .null)
    (holds : j ≠ i → Drained L status j) :
    Drained (L.start i o) (Function.update status i new) j := by
  intro free r slot
  by_cases here : j = i
  · rw [here, Function.update_self] at free
    exact absurd free used
  · rw [Function.update_of_ne here] at free
    rw [Ledger.start_slot_other here] at slot
    exact holds here free r slot

theorem Opened.startHandle (dst src : BitVec 64) (size : BitVec 32) (opened : Opened L s)
    (forgotten : L.latest h = none) :
    RingInv (L.start s.vedmaIndex (.handle h))
      ((s.initHandle h).startDma dst src size (.handle h)) where
  booked := opened.booked.start rfl
  handles := by
    intro g r latest
    rcases Ledger.start_latest latest with ⟨new, last⟩ | ⟨_, old⟩
    · obtain rfl := Owner.handle.inj new
      have fresh : ((s.initHandle h).startDma dst src size (.handle h)).handle h =
        { status := -1, index := s.vedmaIndex } := Ring.initHandle_self
      rw [fresh, last]
      exact .pending rfl opened.booked.result_none Ledger.start_slot_self
        Ring.startDma_entry_self
    · have other : g ≠ h := by
        rintro rfl
        rw [forgotten] at old
        exact absurd old (by simp)
      have kept : ((s.initHandle h).startDma dst src size (.handle h)).handle g = s.handle g :=
        Ring.initHandle_other other
      rw [kept]
      exact (opened.handles g r old).start (opened.booked.latest_lt old) opened.free
  threads t := (opened.threads t).imp
    (fun i r here => here.start (by simp) opened.free) (fun r c known => known)
  drained i := Drained.start (by simp) (opened.drained i)

theorem Opened.startThread (dst src : BitVec 64) (size : BitVec 32) (opened : Opened L s) :
    RingInv (L.start s.vedmaIndex (.thread t))
      ((s.startDma dst src size .sync).setThread t (.waiting s.vedmaIndex)) where
  booked := opened.booked.start rfl
  handles := by
    intro g r latest
    rcases Ledger.start_latest latest with ⟨new, _⟩ | ⟨_, old⟩
    · exact absurd new (by simp)
    · exact (opened.handles g r old).start (opened.booked.latest_lt old) opened.free
  threads := by
    intro t'
    by_cases same : t' = t
    · subst same
      rw [Ring.setThread_self]
      exact ⟨L.started, Function.update_self .., Ledger.start_slot_self,
        Function.update_self .., opened.booked.result_none⟩
    · rw [Ring.setThread_other _ same]
      refine (opened.threads t').imp (fun i r here => here.start ?_ opened.free)
        (fun r c known => known)
      simpa using fun eq => same eq.symm
  drained i := Drained.start (by simp) (opened.drained i)

/-! ### One step -/

/-- Where handles are used with care: a poll of a handle whose code was returned finds a
saved status or the descriptor still its own, and no status is saved in such a handle, the
one that is being posted excepted. -/
def Careful (L : Ledger Handle Thread) (e : DmaEntry Handle Thread) : Prop :=
  match e.label with
  | .post _ _ _ h => ∀ g ∈ e.before.savesInto, g = h ∨ Unfinished L g
  | .postWait _ _ _ _ => ∀ g ∈ e.before.savesInto, Unfinished L g
  | .poll h => ∃ r ∈ L.latest h, L.result r ≠ none → (e.before.handle h).status = -1 →
      L.slotReq (e.before.handle h).index = some r
  | _ => True

theorem RingInv.step {s' : Ring Handle Thread} {label : DmaLabel Handle Thread}
    {out : Option Int} (inv : RingInv L s) (stepped : dmaStep s label = some (out, s'))
    (careful : Careful L ⟨s, label, out, s'⟩) :
    RingInv (L.observe ⟨s, label, out, s'⟩) s' := by
  cases dmaStep_effect stepped with
  | rejected dst src size h => exact inv
  | posted dst src size h vacant vacated =>
    have opened : Opened (L.forget h) vacant := by
      refine inv.forget.vacated vacated (fun g entry done r latest => ?_)
      obtain ⟨other, old⟩ := Ledger.forget_latest_other latest
      rcases careful g (Ring.savesInto_eq entry done) with same | unfinished
      · exact absurd same other
      · exact unfinished r old
    have started := opened.startHandle dst src size Ledger.forget_latest_self
    rw [Ledger.forget_start, vacated.index] at started
    rw [Ledger.observe_posted]
    exact started
  | pollSaved h saved =>
    obtain ⟨r, latest, _⟩ := careful
    by_cases returned : 0 ≤ (s.handle h).status
    · rw [Ledger.observe_polled latest returned]
      exact inv.pollSaved latest saved
    · rw [Ledger.observe_busy (by omega)]
      exact inv
  | pollCompleted h fresh done =>
    obtain ⟨r, latest, own⟩ := careful
    rw [Ledger.observe_polled latest (exception_nonneg _)]
    exact inv.pollCompleted latest fresh ((inv.handles h r latest).slot_of fresh own) done
  | pollBusy h fresh busy =>
    rw [Ledger.observe_busy (by decide)]
    exact inv
  | postWait t dst src size idle vacant vacated =>
    have opened := inv.vacated vacated
      (fun g entry done => careful g (Ring.savesInto_eq entry done))
    have started := opened.startThread (t := t) dst src size
    rw [vacated.index] at started
    exact started
  | waitDone t i waiting done => exact inv.waitDone waiting done
  | clearReturn t i word clearing =>
    obtain ⟨r, own⟩ := inv.own_of_clearing clearing
    rw [Ledger.observe_clearReturn own]
    exact (inv.clearReturn own clearing).2.2
  | hardware i word busy done => exact inv.complete busy done

end Libsysve.Vedma
