import Libsysve.Vedma.RingInvariant

/-!
# Polling a finished handle again

`ve_dma_poll` keeps nothing in a handle whose completion it finds, so a later poll reads the
descriptor once more.  The answer is the same as long as the descriptor is still that of the
handle's request, and no status of an older request of the handle is saved in it meanwhile.
When the ring has come round, the poll reads, and clears, the entry of another request.
-/

set_option autoImplicit false

namespace Libsysve.Vedma

variable {Handle Thread : Type}

/-- A poll has returned `v` for the latest request of the handle. -/
def Finished (L : Ledger Handle Thread) (h : Handle) (v : Int) : Prop :=
  ∃ r, L.latest h = some r ∧ L.result r = some v

variable {L : Ledger Handle Thread} {s s' : Ring Handle Thread} {h : Handle} {v : Int}

theorem Finished.deliver {r : Nat} {w : Int} (finished : Finished L h v) :
    Finished (L.deliver r w) h v := by
  obtain ⟨r', latest, result⟩ := finished
  exact ⟨r', latest, Ledger.deliver_result_done result⟩

variable [DecidableEq Handle] [DecidableEq Thread]

def recordAfter (trace : List (DmaEntry Handle Thread)) : Ledger Handle Thread :=
  trace.foldl Ledger.observe Ledger.blank

/-- After a poll of a handle has returned `v ≥ 0`, every later poll before the handle is
passed to `ve_dma_post` again returns `v` and leaves the entries of other requests alone. -/
def PollStable (trace : List (DmaEntry Handle Thread)) : Prop :=
  ∀ before e mid e' rest h v, trace = before ++ e :: mid ++ e' :: rest →
    e.label = .poll h → e.out = some v → 0 ≤ v → (∀ x ∈ mid, x.label.posted ≠ some h) →
    e'.label = .poll h →
      e'.out = some v ∧
        ∀ i r, (recordAfter (before ++ e :: mid)).slotReq i = some r →
          (recordAfter (before ++ e :: mid)).latest h ≠ some r →
          e'.after.vedmaStatus i = e'.before.vedmaStatus i

theorem Finished.start {i : DescIndex} {o : Owner Handle Thread} (finished : Finished L h v)
    (other : o ≠ .handle h) : Finished (L.start i o) h v := by
  obtain ⟨r, latest, result⟩ := finished
  refine ⟨r, ?_, result⟩
  cases o with
  | handle g =>
    have differ : h ≠ g := fun same => other (by rw [same])
    exact (Function.update_of_ne differ ..).trans latest
  | thread t => exact latest

theorem Finished.observe {e : DmaEntry Handle Thread} (finished : Finished L h v)
    (other : e.label.posted ≠ some h) : Finished (L.observe e) h v := by
  obtain ⟨before, label, out, after⟩ := e
  cases label with
  | post dst src size g =>
    have differ : (Owner.handle g : Owner Handle Thread) ≠ .handle h := by
      intro same
      exact other (congrArg some (Owner.handle.inj same))
    cases out with
    | none => exact finished
    | some ret =>
      by_cases accepted : ret = 0
      · subst accepted
        rw [Ledger.observe_posted]
        exact finished.start differ
      · simp only [Ledger.observe, if_neg accepted]
        exact finished
  | poll g =>
    cases out with
    | none => exact finished
    | some ret =>
      by_cases returned : 0 ≤ ret
      · cases latest : L.latest g with
        | none =>
          simp only [Ledger.observe, latest]
          exact finished
        | some r =>
          rw [Ledger.observe_polled latest returned]
          exact finished.deliver
      · rw [Ledger.observe_busy (by omega)]
        exact finished
  | postWait t dst src size => exact finished.start (by simp)
  | waitDone t => exact finished
  | clearReturn t =>
    cases out with
    | none => exact finished
    | some ret =>
      cases own : L.own t with
      | none =>
        simp only [Ledger.observe, own]
        exact finished
      | some r =>
        rw [Ledger.observe_clearReturn own]
        exact finished.deliver
  | hardware i word => exact finished

theorem Finished.observe_all {mid : List (DmaEntry Handle Thread)} (finished : Finished L h v)
    (others : ∀ e ∈ mid, e.label.posted ≠ some h) :
    Finished (mid.foldl Ledger.observe L) h v := by
  induction mid generalizing L with
  | nil => exact finished
  | cons e rest ih =>
    have first := finished.observe (others e List.mem_cons_self)
    exact ih first (fun x later => others x (List.mem_cons_of_mem e later))

theorem RingInv.poll_again {out : Option Int} (inv : RingInv L s)
    (finished : Finished L h v) (effect : Effect s (.poll h) out s')
    (careful : Careful L ⟨s, .poll h, out, s'⟩) :
    out = some v ∧ ∀ i, s'.vedmaStatus i = s.vedmaStatus i := by
  obtain ⟨r, latest, result⟩ := finished
  obtain ⟨r', latest', own⟩ := careful
  obtain rfl := Option.some.inj (latest.symm.trans latest')
  have delivered : L.result r ≠ none := by simp [result]
  have state := inv.handles h r latest
  cases effect with
  | pollSaved _ saved =>
    cases state with
    | saved done kept => exact ⟨congrArg some (kept v result), fun i => rfl⟩
    | pending fresh => exact absurd fresh saved
    | delivered fresh => exact absurd fresh saved
  | pollCompleted _ fresh done =>
    have slot := own delivered fresh
    cases state with
    | saved done' kept => exact absurd fresh done'
    | pending _ undelivered => exact absurd undelivered delivered
    | delivered _ w result' code cleared =>
      obtain rfl := Option.some.inj (result.symm.trans result')
      have read := (inv.booked.code_some done slot).symm.trans code
      refine ⟨congrArg some (Option.some.inj read), fun i => ?_⟩
      by_cases here : i = (s.handle h).index
      · rw [here, Ring.clearEntry_self, cleared slot]
      · exact Ring.clearEntry_other here
  | pollBusy _ fresh busy =>
    have slot := own delivered fresh
    cases state with
    | saved done' kept => exact absurd fresh done'
    | pending _ undelivered => exact absurd undelivered delivered
    | delivered _ w result' code cleared =>
      rcases inv.booked.word _ r slot with ⟨_, none⟩ | ⟨done, _⟩
      · rw [none] at code
        exact absurd code (by simp)
      · rw [busy] at done
        exact absurd done (by simp)

theorem RingInv.poll_finishes {out : Option Int} (inv : RingInv L s)
    (effect : Effect s (.poll h) out s') (careful : Careful L ⟨s, .poll h, out, s'⟩)
    (ret : out = some v) (returned : 0 ≤ v) :
    Finished (L.observe ⟨s, .poll h, out, s'⟩) h v := by
  obtain ⟨r, latest, _⟩ := id careful
  subst ret
  rw [Ledger.observe_polled latest returned]
  refine ⟨r, latest, ?_⟩
  rw [Ledger.deliver_result_self]
  cases result : L.result r with
  | none => rfl
  | some w =>
    have again := inv.poll_again ⟨r, latest, result⟩ effect careful
    rw [Option.getD_some, again.1]

/-- What a poll does in a run that is careful. -/
def Polls (L : Ledger Handle Thread) (e : DmaEntry Handle Thread) : Prop :=
  ∀ h, e.label = .poll h →
    (∀ v, e.out = some v → 0 ≤ v → Finished (L.observe e) h v) ∧
      ∀ v, Finished L h v →
        e.out = some v ∧ ∀ i, e.after.vedmaStatus i = e.before.vedmaStatus i

theorem pollStable_of_polls {trace : List (DmaEntry Handle Thread)}
    (polls : (Monitor.mk Ledger.blank Ledger.observe Polls).Safe trace) : PollStable trace := by
  intro before e mid e' rest h v split polled ret returned others again
  have first := polls before e (mid ++ e' :: rest) (by simpa using split)
  have second := polls (before ++ e :: mid) e' rest (by simpa using split)
  have finished := ((first h polled).1 v ret returned).observe_all others
  have last := (second h again).2 v (by simpa [Monitor.stateAfter] using finished)
  exact ⟨last.1, fun i _ _ _ => last.2 i⟩

theorem careful_polls_stable (desc : DescIndex → DmaDesc) (handle : Handle → VeDmaHandle)
    (trace : List (DmaEntry Handle Thread)) (final : Ring Handle Thread)
    (run : (dmaMachine Handle Thread).Run (Ring.initial desc handle) trace final)
    (careful : (Monitor.mk Ledger.blank Ledger.observe Careful).Safe trace) :
    PollStable trace := by
  refine pollStable_of_polls (run.guarantee (ringInv_initial desc handle) ?_ careful)
  intro L s label out s' inv stepped now
  refine ⟨?_, inv.step stepped now⟩
  rintro h rfl
  have effect : Effect s (.poll h) out s' := dmaStep_effect stepped
  exact ⟨fun v ret returned => inv.poll_finishes effect now ret returned,
    fun v finished => inv.poll_again finished effect now⟩

/-- Handle 1 is polled again while its descriptor is still its own. -/
def pollAgainLabels : List (DmaLabel Nat Nat) :=
  [.post 0 0 0 1, .post 0 0 0 2, .hardware 0 0x0005000000000002, .poll 1, .postWait 0 0 0 0,
    .poll 1]

instance decidableCareful (L : Ledger Handle Thread) :
    (e : DmaEntry Handle Thread) → Decidable (Careful L e)
  | ⟨s, .post _ _ _ h, _, _⟩ =>
    inferInstanceAs (Decidable (∀ g ∈ s.savesInto, g = h ∨ Unfinished L g))
  | ⟨s, .poll h, _, _⟩ =>
    inferInstanceAs (Decidable (∃ r ∈ L.latest h, L.result r ≠ none →
      (s.handle h).status = -1 → L.slotReq (s.handle h).index = some r))
  | ⟨s, .postWait .., _, _⟩ =>
    inferInstanceAs (Decidable (∀ g ∈ s.savesInto, Unfinished L g))
  | ⟨_, .waitDone _, _, _⟩ => isTrue trivial
  | ⟨_, .clearReturn _, _, _⟩ => isTrue trivial
  | ⟨_, .hardware .., _, _⟩ => isTrue trivial

theorem careful_polls_stable_again :
    ∃ trace final, (dmaMachine Nat Nat).exec (.initial (fun _ => ⟨0, 0, 0, 0⟩) (fun _ => ⟨0, 0⟩))
        pollAgainLabels = some (trace, final) ∧
      trace.map Entry.out = [some 0, some 0, none, some 5, none, some 5] ∧ PollStable trace := by
  have checked : ((dmaMachine Nat Nat).exec
      (.initial (fun _ => ⟨0, 0, 0, 0⟩) (fun _ => ⟨0, 0⟩)) pollAgainLabels).any (fun done =>
        decide (done.1.map Entry.out = [some 0, some 0, none, some 5, none, some 5] ∧
          (Monitor.mk Ledger.blank Ledger.observe Careful).SafeFrom Ledger.blank done.1)) =
      true := by
    decide +kernel
  rw [Option.any_eq_true] at checked
  obtain ⟨⟨trace, final⟩, ran, holds⟩ := checked
  obtain ⟨outs, now⟩ := of_decide_eq_true holds
  have careful := (Monitor.mk Ledger.blank Ledger.observe Careful).safe_of_safeFrom trace now
  exact ⟨trace, final, ran, outs,
    careful_polls_stable _ _ trace final (Machine.exec_run ran) careful⟩

/-! ### The ring comes round -/

def PolledPosted (L : Ledger Handle Thread) (e : DmaEntry Handle Thread) : Prop :=
  match e.label with
  | .poll h => L.latest h ≠ none
  | _ => True

instance decidablePolledPosted (L : Ledger Handle Thread) :
    (e : DmaEntry Handle Thread) → Decidable (PolledPosted L e)
  | ⟨_, .poll h, _, _⟩ => inferInstanceAs (Decidable (L.latest h ≠ none))
  | ⟨_, .post .., _, _⟩ => isTrue trivial
  | ⟨_, .postWait .., _, _⟩ => isTrue trivial
  | ⟨_, .waitDone _, _, _⟩ => isTrue trivial
  | ⟨_, .clearReturn _, _, _⟩ => isTrue trivial
  | ⟨_, .hardware .., _, _⟩ => isTrue trivial

/-- 128 requests, the last of them in the descriptor of the first request of the run, which
ends with code 7. -/
def roundLabels : List (DmaLabel Nat Nat) :=
  (List.range 128).map (fun k => .post 0 0 0 (k + 1)) ++ [.hardware 0 0x0007000000000002]

/-- The poll of handle 0 after those requests returns 7, not 0. -/
theorem poll_unstable :
    ¬ ∀ trace final, (dmaMachine Nat Nat).Run
        (.initial (fun _ => ⟨0, 0, 0, 0⟩) (fun _ => ⟨0, 0⟩)) trace final →
      (Monitor.mk Ledger.blank Ledger.observe PolledPosted).Safe trace → PollStable trace := by
  intro stable
  have checked : ((dmaMachine Nat Nat).exec (.initial (fun _ => ⟨0, 0, 0, 0⟩) (fun _ => ⟨0, 0⟩))
      [.post 0 0 0 0, .hardware 0 2]).any (fun a =>
        ((dmaMachine Nat Nat).exec a.2 [.poll 0]).any (fun b =>
          ((dmaMachine Nat Nat).exec b.2 roundLabels).any (fun c =>
            ((dmaMachine Nat Nat).exec c.2 [.poll 0]).any (fun d =>
              decide (b.1.map (fun e => (e.label, e.out)) = [(.poll 0, some 0)] ∧
                (∀ x ∈ c.1, x.label.posted ≠ some 0) ∧
                d.1.map (fun e => (e.label, e.out)) = [(.poll 0, some 7)] ∧
                (Monitor.mk Ledger.blank Ledger.observe PolledPosted).SafeFrom Ledger.blank
                  (a.1 ++ b.1 ++ c.1 ++ d.1)))))) = true := by
    decide +kernel
  simp only [Option.any_eq_true, decide_eq_true_eq, Prod.exists, List.map_eq_singleton_iff,
    Prod.mk.injEq] at checked
  obtain ⟨before, s₁, ran₁, _, s₂, ran₂, mid, s₃, ran₃, _, s₄, ran₄, ⟨e, rfl, polled, ret⟩,
    others, ⟨e', rfl, again, ret'⟩, posted⟩ := checked
  have run := ((Machine.exec_run ran₁).append (Machine.exec_run ran₂)).append
    ((Machine.exec_run ran₃).append (Machine.exec_run ran₄))
  have split : (before ++ [e]) ++ (mid ++ [e']) = before ++ e :: mid ++ e' :: [] := by simp
  rw [split] at run
  have safe : (Monitor.mk Ledger.blank Ledger.observe PolledPosted).Safe
      (before ++ e :: mid ++ e' :: []) := by
    refine Monitor.safe_of_safeFrom _ _ ?_
    simpa using posted
  have same := (stable _ _ run safe before e mid e' [] 0 0 rfl polled ret (le_refl 0) others
    again).1
  rw [ret'] at same
  exact absurd same (by decide)

end Libsysve.Vedma
