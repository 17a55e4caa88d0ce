import Libsysve.Vedma.Linearizable
import Libsysve.Vedma.Outstanding

/-!
# What the stores of a section reach

A section that has taken effect stores to the handles of outstanding requests only, and the
memory points to no other ones, but for the handle that is being polled: a poll has returned
its request when the entry is still to be cleared.
-/

set_option autoImplicit false

namespace Libsysve.Vedma

variable {Handle Thread : Type}

/-- The store writes to the handle, or it writes a pointer to it. -/
def Store.Reaches (h : Handle) : Store Handle → Prop
  | .handleStatus g _ | .handleIndex g _ => g = h
  | .status _ entry => entry = .handle h
  | .dst .. | .src .. | .size .. | .word .. | .index _ => False

section
variable [DecidableEq Thread]

def enterCall (now : Thread → Option (Call Handle)) (e : CpuEntry Handle Thread) :
    Thread → Option (Call Handle) :=
  match e.label, e.out with
  | .call t c, _ => Function.update now t (some c)
  | .access t, some _ => Function.update now t none
  | _, _ => now

def openCalls (trace : List (CpuEntry Handle Thread)) : Thread → Option (Call Handle) :=
  trace.foldl enterCall fun _ => none

end

structure Reaching (L : Ledger Handle Thread) (now : Thread → Option (Call Handle))
    (f : Cpu Handle Thread) : Prop where
  calls : ∀ t c, (f.pc t).phase = .called c → now t = some c
  stores : ∀ t, ∀ w ∈ (f.pc t).left, ∀ h, w.Reaches h → Outstanding L h
  entries : ∀ i h, f.memory.vedmaStatus i = .handle h →
    Outstanding L h ∨ ∃ t, now t = some (.poll h) ∧ .status i .null ∈ (f.pc t).left

theorem reaching_initial (desc : DescIndex → DmaDesc) (handle : Handle → VeDmaHandle) :
    Reaching (Ledger.blank : Ledger Handle Thread) (fun _ => none) (Cpu.initial desc handle) where
  calls t c called := absurd called (by simp [Cpu.initial, Pc.phase])
  stores t w member := absurd member (by simp [Cpu.initial, Pc.left])
  entries i h entry := absurd entry (by simp [Cpu.initial])

variable {L L' : Ledger Handle Thread} {now now' : Thread → Option (Call Handle)}
  {f f' : Cpu Handle Thread} {m : Memory Handle} {pc pc' : Pc Handle} {t : Thread}
  {left : List (Store Handle)} {i : DescIndex} {h g : Handle}

theorem Leaves.all (leaves : Leaves f []) (u : Thread) : (f.pc u).left = [] := by
  cases locked : (f.pc u).locked with
  | true => exact leaves.mine u locked
  | false => exact Pc.left_unlocked locked

theorem Reaching.outstanding (reaching : Reaching L now f) (leaves : Leaves f [])
    (entry : f.memory.vedmaStatus i = .handle h) : Outstanding L h := by
  rcases reaching.entries i h entry with outstanding | ⟨u, _, clears⟩
  · exact outstanding
  · rw [leaves.all u] at clears
    exact absurd clears (by simp)

/-! ## The record of the ring at an access -/

variable [DecidableEq Handle] [DecidableEq Thread]

/-- The record of the ring after it took the step `op`, or none. -/
inductive Recorded (L : Ledger Handle Thread) (s : Ring Handle Thread) :
    Option (DmaLabel Handle Thread) → Ledger Handle Thread → Prop
  | still : Recorded L s none L
  | step (op : DmaLabel Handle Thread) (out : Option Int) (s' : Ring Handle Thread)
      (stepped : dmaStep s op = some (out, s')) (usage : Usage L ⟨s, op, out, s'⟩) :
      Recorded L s (some op) (L.observe ⟨s, op, out, s'⟩)

variable {s : Ring Handle Thread} {op : Option (DmaLabel Handle Thread)}

theorem Recorded.kept (recorded : Recorded L s op L') (inv : DeliveryInv L s)
    (other : op ≠ some (.poll h)) (outstanding : Outstanding L h) : Outstanding L' h := by
  cases recorded with
  | still => exact outstanding
  | step op out s' stepped usage =>
    refine (outstanding_observe inv (dmaStep_effect stepped) usage h).mpr
      (.inr ⟨outstanding, fun returns => ?_⟩)
    unfold returnsFor at returns
    split at returns
    · next g ret isLabel isOut =>
      split at returns
      · exact other (congrArg some (isLabel.trans (congrArg DmaLabel.poll
          (Option.some.inj returns))))
      · exact absurd returns (by simp)
    · exact absurd returns (by simp)

theorem Recorded.posted {dst src : BitVec 64} {size : BitVec 32} {s' : Ring Handle Thread}
    (recorded : Recorded L s (some (.post dst src size h)) L') (inv : DeliveryInv L s)
    (accepted : dmaStep s (.post dst src size h) = some (some 0, s')) : Outstanding L' h := by
  cases recorded with
  | step op out s₁ stepped usage =>
    obtain ⟨rfl, rfl⟩ := Prod.mk.inj (Option.some.inj (stepped.symm.trans accepted))
    exact (outstanding_observe inv (dmaStep_effect stepped) usage h).mpr
      (.inl (by simp [startsFor]))

theorem Recorded.busy {s' : Ring Handle Thread} (recorded : Recorded L s (some (.poll h)) L')
    (again : dmaStep s (.poll h) = some (some (-eagain), s')) : L' = L := by
  cases recorded with
  | step op out s₁ stepped usage =>
    obtain ⟨rfl, rfl⟩ := Prod.mk.inj (Option.some.inj (stepped.symm.trans again))
    exact Ledger.observe_busy (by decide)

theorem RingMatched.recorded {r : ServedRing Handle Thread} {e : CpuEntry Handle Thread}
    (matched : RingMatched L r e)
    (usage : ∀ e' ∈ ((ringMachine Handle Thread).companion cpuMark r e).toList,
      (servedUsage Handle Thread).allowed L e') :
    Recorded L r.object ((cpuMark e).bind Machine.AtomicLabel.op)
      (((ringMachine Handle Thread).companion cpuMark r e).toList.foldl
        (servedUsage Handle Thread).after L) := by
  unfold RingMatched at matched
  generalize marked : cpuMark e = mark at matched
  cases matched with
  | stutter hidden related =>
    simp only [Machine.companion, marked, Option.bind_eq_bind, Option.bind_none,
      Option.toList_none, List.foldl_nil]
    exact .still
  | step label out r' stepped seen related =>
    have next := Machine.companion_step marked stepped
    rw [next, Option.toList_some] at usage ⊢
    have used := usage _ List.mem_cons_self
    have served : ∀ op object, Machine.operation ⟨r, label, out, r'⟩ =
        some ⟨r.object, op, out, object⟩ → dmaStep r.object op = some (out, object) →
        Recorded L r.object (some op) (([⟨r, label, out, r'⟩] : List _).foldl
          (servedUsage Handle Thread).after L) := by
      intro op object taken inner
      have after : (servedUsage Handle Thread).after L ⟨r, label, out, r'⟩ =
          L.observe ⟨r.object, op, out, object⟩ := by
        simp [servedUsage, Monitor.through, taken]
      rw [List.foldl_cons, List.foldl_nil, after]
      exact .step op out object inner (used _ taken)
    have atomic := Machine.atomic_operation stepped
    cases label with
    | call u c =>
      exact .still
    | ret u =>
      exact .still
    | serve u op =>
      rcases atomic with ⟨none, _⟩ | ⟨op', taken, inner⟩
      · exact absurd none (by simp [Machine.operation])
      · obtain rfl : op = op' := by simpa [Machine.operation] using taken
        exact served op r'.object taken inner
    | spontaneous op =>
      rcases atomic with ⟨none, _⟩ | ⟨op', taken, inner⟩
      · exact absurd none (by simp [Machine.operation])
      · obtain rfl : op = op' := by simpa [Machine.operation] using taken
        exact served op r'.object taken inner

/-! ## The accesses -/

theorem Memory.store_status {w : Store Handle}
    (entry : (m.store w).vedmaStatus i = .handle h) :
    w.Reaches h ∨ w ≠ .status i .null ∧ m.vedmaStatus i = .handle h := by
  cases w with
  | status j e =>
    have now : Function.update m.vedmaStatus j e i = .handle h := entry
    by_cases same : i = j
    · rw [same, Function.update_self] at now
      exact .inl now
    · rw [Function.update_of_ne same] at now
      exact .inr ⟨by simp [Ne.symm same], now⟩
  | _ => exact .inr ⟨by simp, entry⟩

omit [DecidableEq Handle] in
theorem Reaching.quiet (reaching : Reaching L now f) (before : (f.pc t).left = [])
    (after : pc.left = []) (kept : ∀ h, Outstanding L h → Outstanding L' h)
    (status : ∀ i h, m.vedmaStatus i = .handle h → f.memory.vedmaStatus i = .handle h)
    (others : ∀ u, u ≠ t → now' u = now u)
    (calls : ∀ c, pc.phase = .called c → now' t = some c) :
    Reaching L' now' (f.move t m pc) where
  calls u c called := by
    by_cases here : u = t
    · subst here
      rw [Cpu.move_self] at called
      exact calls c called
    · rw [Cpu.move_other here] at called
      exact (others u here).trans (reaching.calls u c called)
  stores u w member h reaches := by
    by_cases here : u = t
    · rw [here, Cpu.move_self, after] at member
      exact absurd member (by simp)
    · rw [Cpu.move_other here] at member
      exact kept h (reaching.stores u w member h reaches)
  entries i h entry := by
    rcases reaching.entries i h (status i h entry) with outstanding | ⟨u, polls, clears⟩
    · exact .inl (kept h outstanding)
    · have here : u ≠ t := by
        rintro rfl
        rw [before] at clears
        exact absurd clears (by simp)
      refine .inr ⟨u, (others u here).trans polls, ?_⟩
      rw [Cpu.move_other here]
      exact clears

omit [DecidableEq Handle] in
theorem Reaching.commit {exit : Exit Handle} (reaching : Reaching L now f) (leaves : Leaves f [])
    (stores : ∀ w ∈ left, ∀ h, w.Reaches h → Outstanding L' h)
    (entries : ∀ i h, f.memory.vedmaStatus i = .handle h →
      Outstanding L' h ∨ now t = some (.poll h) ∧ .status i .null ∈ left)
    (calls : ∀ c, exit.phase = .called c → now t = some c) :
    Reaching L' now (f.move t f.memory (.stores left exit)) where
  calls u c called := by
    by_cases here : u = t
    · subst here
      rw [Cpu.move_self] at called
      exact calls c called
    · rw [Cpu.move_other here] at called
      exact reaching.calls u c called
  stores u w member h reaches := by
    by_cases here : u = t
    · rw [here, Cpu.move_self] at member
      exact stores w member h reaches
    · rw [Cpu.move_other here, leaves.all u] at member
      exact absurd member (by simp)
  entries i h entry := by
    refine (entries i h entry).imp id (fun ⟨polls, clears⟩ => ⟨t, polls, ?_⟩)
    rw [Cpu.move_self]
    exact clears

theorem Reaching.store {next : Store Handle} {exit : Exit Handle} (reaching : Reaching L now f)
    (here : f.pc t = .stores (next :: left) exit) :
    Reaching L now (f.move t (f.memory.store next) (.stores left exit)) where
  calls := by
    intro u c called
    refine reaching.calls u c ?_
    by_cases same : u = t
    · rw [same, here]
      rw [same, Cpu.move_self] at called
      exact called
    · rwa [Cpu.move_other same] at called
  stores := by
    intro u w member
    refine reaching.stores u w ?_
    by_cases same : u = t
    · rw [same, here]
      rw [same, Cpu.move_self] at member
      exact List.mem_cons_of_mem next member
    · rwa [Cpu.move_other same] at member
  entries := by
    intro i h entry
    rcases Memory.store_status entry with reaches | ⟨other, entry⟩
    · refine .inl (reaching.stores t next ?_ h reaches)
      rw [here]
      exact List.mem_cons_self
    · refine (reaching.entries i h entry).imp id (fun ⟨u, polls, clears⟩ => ⟨u, polls, ?_⟩)
      by_cases same : u = t
      · rw [same, here] at clears
        rw [same, Cpu.move_self]
        exact (List.mem_cons.mp clears).resolve_left (Ne.symm other)
      · rw [Cpu.move_other same]
        exact clears

omit [DecidableEq Handle] [DecidableEq Thread] in
theorem Request.start_reaches {q : Request Handle} {w : Store Handle} (member : w ∈ q.start i)
    (reaches : w.Reaches h) : q.handle = some h := by
  cases handle : q.handle with
  | none =>
    simp only [Request.start, handle, List.mem_append, List.mem_cons, List.not_mem_nil,
      or_false] at member
    rcases member with ((rfl | rfl | rfl | rfl) | rfl) | rfl <;> simp [Store.Reaches] at reaches
  | some g =>
    simp only [Request.start, handle, List.mem_append, List.mem_cons, List.not_mem_nil,
      or_false] at member
    rcases member with ((rfl | rfl | rfl | rfl) | rfl | rfl | rfl) | rfl <;>
      simp [Store.Reaches] at reaches ⊢ <;> exact reaches

theorem Reaching.starts {q : Request Handle} {s' : Ring Handle Thread}
    (reaching : Reaching L now f) (leaves : Leaves f []) (called : now t = some (.request q))
    (recorded : Recorded L s (some (q.label t)) L') (inv : DeliveryInv L s)
    (stepped : dmaStep s (q.label t) = some (q.answer, s'))
    (stores : ∀ w ∈ left, ∀ h, w.Reaches h → q.handle = some h ∨ Outstanding L h) :
    Reaching L' now (f.move t f.memory (.stores left (q.exit i))) := by
  have kept : ∀ h, Outstanding L h → Outstanding L' h := by
    refine fun h => recorded.kept inv ?_
    cases handle : q.handle <;> simp [Request.label, handle]
  refine reaching.commit leaves (fun w member h reaches => ?_)
    (fun i h entry => .inl (kept h (reaching.outstanding leaves entry))) (fun c phase => ?_)
  · rcases stores w member h reaches with own | outstanding
    · simp only [Request.label, Request.answer, own] at recorded stepped
      exact recorded.posted inv stepped
    · exact kept h outstanding
  · cases handle : q.handle with
    | none =>
      simp only [Request.exit, handle, Exit.phase, Machine.Phase.called.injEq] at phase
      exact phase ▸ called
    | some g => simp [Request.exit, handle, Exit.phase] at phase

theorem Reaching.polled {v : Int} (reaching : Reaching L now f) (leaves : Leaves f [])
    (called : now t = some (.poll h))
    (kept : ∀ g, g ≠ h → Outstanding L g → Outstanding L' g)
    (clears : ∀ i, f.memory.vedmaStatus i = .handle h →
      Outstanding L' h ∨ .status i .null ∈ left)
    (stores : ∀ w ∈ left, ∀ g, ¬w.Reaches g) :
    Reaching L' now (f.move t f.memory (.stores left (.returns v))) := by
  refine reaching.commit leaves (fun w member g reaches => absurd reaches (stores w member g))
    (fun i g entry => ?_) (by simp [Exit.phase])
  by_cases same : g = h
  · subst same
    exact (clears i entry).imp id (fun clears => ⟨called, clears⟩)
  · exact .inl (kept g same (reaching.outstanding leaves entry))

/-! ## A whole run -/

/-- A poll that finds its descriptor completed clears the entry of its own handle. -/
theorem Reaching.pollDone {r : ServedRing Handle Thread} (reaching : Reaching L now f)
    (facts : RingFacts L r.object) (linked : Linked f [] r) (here : f.pc t = .lhmPoll h i)
    (recorded : Recorded L r.object (some (.poll h)) L') (v : Int) :
    Reaching L' now (f.move t f.memory (.stores [.status i .null] (.returns v))) := by
  have called := reaching.calls t (.poll h) (by rw [here]; rfl)
  have sees := linked.sees t
  rw [here] at sees
  refine reaching.polled linked.leaves called
    (fun g other => recorded.kept facts.delivery (by simp [Ne.symm other]))
    (fun j entry => .inr ?_) (by simp [Store.Reaches])
  have attached := facts.delivery.attached.entry j h
  rw [linked.ring] at attached
  obtain ⟨_, _, _, _, _, index⟩ := attached entry
  obtain rfl : i = j := sees.2.symm.trans index
  exact List.mem_cons_self

theorem Reaching.access {r : ServedRing Handle Thread} {out : Option Int}
    (reaching : Reaching L now f) (facts : RingFacts L r.object) (linked : Linked f left r)
    (here : f.pc t = pc) (accessed : Accessed f.memory pc out m pc')
    (recorded : Recorded L r.object ((pc.mark f.memory t).bind Machine.AtomicLabel.op) L') :
    Reaching L' (enterCall now ⟨f, .access t, out, f.move t m pc'⟩) (f.move t m pc') := by
  have inv := facts.delivery
  have sees := linked.sees t
  have calls : ∀ c, pc.phase = .called c → now t = some c :=
    fun c phase => reaching.calls t c (by rw [here, phase])
  have still : ∀ {m' pc''}, pc.left = [] → pc''.left = [] →
      (∀ h, (pc.mark f.memory t).bind Machine.AtomicLabel.op ≠ some (.poll h)) →
      (∀ i h, m'.vedmaStatus i = .handle h → f.memory.vedmaStatus i = .handle h) →
      (∀ c, pc''.phase = .called c → pc.phase = .called c) → Reaching L' now (f.move t m' pc'') :=
    fun before after other status phase => reaching.quiet (here ▸ before) after
      (fun h => recorded.kept inv (other h)) status (fun _ _ => rfl)
      (fun c called => calls c (phase c called))
  have busy : ∀ {again : Pc Handle} {q : Request Handle}, pc.left = [] → again.left = [] →
      pc.mark f.memory t = q.rejects t → pc.phase = .called (.request q) →
      again.phase = pc.phase → Reaching L' now (f.move t f.memory (q.busy again)) := by
    intro again q before after mark phase same
    cases handle : q.handle with
    | none =>
      simp only [Request.busy, handle]
      refine still before after (fun h => ?_) (fun _ _ => id) (fun c called => same ▸ called)
      simp [mark, Request.rejects, handle]
    | some g =>
      simp only [Request.busy, handle]
      refine still before rfl (fun h => ?_) (fun _ _ => id) (fun c called => ?_)
      · simp [mark, Request.rejects, handle, Machine.AtomicLabel.op, Request.label]
      · simp [Pc.phase, Exit.phase] at called
  rw [here] at sees
  cases accessed with
  | taken call s63 free =>
    refine still rfl call.section_left (by simp [Pc.mark]) (fun _ _ => id) (fun c phase => ?_)
    rw [call.section_phase] at phase
    exact phase
  | refused call s63 held => exact still rfl rfl (by simp [Pc.mark]) (fun _ _ => id) (fun _ => id)
  | ldIndex q => exact still rfl rfl (by simp [Pc.mark]) (fun _ _ => id) (fun _ => id)
  | statusSync q i entry => exact busy rfl rfl (by simp [Pc.mark, entry]) rfl rfl
  | statusHandle q i g entry =>
    exact still rfl rfl (by simp [Pc.mark, entry]) (fun _ _ => id) (fun _ => id)
  | descDone q i done =>
    exact still rfl rfl (by simp [Pc.mark, done]) (fun _ _ => id) (fun _ => id)
  | descBusy q i busy' => exact busy rfl rfl (by simp [Pc.mark, busy']) rfl rfl
  | pollFresh h fresh =>
    exact still rfl rfl (by simp [Pc.mark, fresh]) (fun _ _ => id) (fun _ => id)
  | ldlIndex h => exact still rfl rfl (by simp [Pc.mark]) (fun _ _ => id) (fun _ => id)
  | statusNull q i entry =>
    obtain rfl := linked.empty here rfl rfl
    have idle : f.tails t = .idle := by rw [Cpu.tails, here]; rfl
    simp only [Pc.mark, entry, Option.bind_some, Machine.AtomicLabel.op] at recorded
    exact reaching.starts linked.leaves (calls _ rfl) recorded inv
      (linked.ring ▸ Request.serve_null idle sees entry)
      (fun w member h reaches => .inl (Request.start_reaches member reaches))
  | ldHandle q i s62 g entry =>
    obtain rfl := linked.empty here rfl rfl
    have idle : f.tails t = .idle := by rw [Cpu.tails, here]; rfl
    obtain ⟨index, _, done, rfl⟩ := sees
    simp only [Pc.mark, Option.bind_some, Machine.AtomicLabel.op] at recorded
    refine reaching.starts linked.leaves (calls _ rfl) recorded inv
      (linked.ring ▸ Request.serve_saved idle index entry done) (fun w member h reaches => ?_)
    rcases List.mem_cons.mp member with rfl | member
    · -- the handle whose status is saved has its request outstanding
      obtain rfl : g = h := reaches
      exact .inr (reaching.outstanding linked.leaves entry)
    rcases List.mem_cons.mp member with rfl | member
    · exact absurd reaches (by simp [Store.Reaches])
    · exact .inl (Request.start_reaches member reaches)
  | pollSaved h saved =>
    obtain rfl := linked.empty here rfl rfl
    simp only [Pc.mark, if_pos saved, Option.bind_some, Machine.AtomicLabel.op] at recorded
    refine reaching.polled linked.leaves (calls _ rfl)
      (fun g other => recorded.kept inv (by simp [Ne.symm other])) (fun i entry => ?_) (by simp)
    have attached := inv.attached.entry i h
    rw [linked.ring] at attached
    obtain ⟨_, _, _, _, fresh, _⟩ := attached entry
    exact absurd fresh saved
  | pollDone h i done =>
    obtain rfl := linked.empty here rfl rfl
    simp only [Pc.mark, Option.bind_some, Machine.AtomicLabel.op] at recorded
    exact reaching.pollDone facts linked here recorded _
  | pollBusy h i busy' =>
    obtain rfl := linked.empty here rfl rfl
    obtain ⟨fresh, index⟩ := sees
    simp only [Pc.mark, Option.bind_some, Machine.AtomicLabel.op] at recorded
    have again : dmaStep r.object (.poll h) = some (some (-eagain), r.object) := by
      rw [linked.ring]
      simp [dmaStep, veDmaPoll, Memory.ring, fresh, index, busy']
    obtain rfl := recorded.busy again
    exact reaching.polled linked.leaves (calls _ rfl) (fun g _ => id)
      (fun j entry => .inl (reaching.outstanding linked.leaves entry)) (by simp)
  | store next left' exit =>
    simp only [Pc.mark, Option.bind_none] at recorded
    cases recorded with
    | still => exact reaching.store here
  | unlock exit =>
    refine still rfl ?_ (by simp [Pc.mark]) (fun _ _ => id) (fun c phase => ?_)
    · cases exit <;> rfl
    · rw [exit.pc_phase] at phase
      exact phase
  | waitDone q i done =>
    exact still rfl rfl (by simp [Pc.mark, done, Machine.AtomicLabel.op]) (fun _ _ => id)
      (fun _ => id)
  | waitBusy q i busy' =>
    exact still rfl rfl (by simp [Pc.mark, busy']) (fun _ _ => id) (fun _ => id)
  | stWait q i word =>
    refine still rfl rfl (by simp [Pc.mark, Machine.AtomicLabel.op]) (fun j h entry => ?_)
      (by simp [Pc.phase])
    exact ((Memory.store_status (w := .status i .null) entry).resolve_left
      (by simp [Store.Reaches])).2
  | ret s0 =>
    refine reaching.quiet (here ▸ rfl) rfl (fun h => recorded.kept inv ?_) (fun _ _ => id)
      (fun u other => Function.update_of_ne other ..) (by simp [Pc.phase])
    simp [Pc.mark, Machine.AtomicLabel.op]

theorem Reaching.step {sl : Thread → BitVec 64} {r : ServedRing Handle Thread}
    {label : CpuLabel Handle Thread} {out : Option Int} (reaching : Reaching L now f)
    (facts : RingFacts L r.object) (linked : Linked f left r)
    (stepped : cpuStep sl f label = some (out, f'))
    (recorded : Recorded L r.object
      ((cpuMark ⟨f, label, out, f'⟩).bind Machine.AtomicLabel.op) L') :
    Reaching L' (enterCall now ⟨f, label, out, f'⟩) f' := by
  have effect := cpuStep_effect stepped
  cases effect with
  | access t out m pc accessed => exact reaching.access facts linked rfl accessed recorded
  | call t c outside =>
    refine reaching.quiet (by rw [outside]; rfl) rfl (fun h => recorded.kept facts.delivery ?_)
      (fun _ _ => id) (fun u other => Function.update_of_ne other ..) (fun c' phase => ?_)
    · simp [cpuMark, Machine.AtomicLabel.op]
    · obtain rfl := Machine.Phase.called.inj phase
      exact Function.update_self ..
  | hardware i word busy done =>
    have kept : ∀ h, Outstanding L h → Outstanding L' h := fun h =>
      recorded.kept facts.delivery (by simp [cpuMark, Machine.AtomicLabel.op])
    exact ⟨reaching.calls,
      fun t w member h reaches => kept h (reaching.stores t w member h reaches),
      fun j h entry => (reaching.entries j h entry).imp (kept h) id⟩

/-- What the stores of the sections reach, and what the memory points to, in any run. -/
theorem reaching_run (desc : DescIndex → DmaDesc) (handle : Handle → VeDmaHandle)
    {sl : Thread → BitVec 64} (nonzero : ∀ t, sl t ≠ 0) (stopped : ∀ i, (desc i).word ≠ 1)
    {trace : List (CpuEntry Handle Thread)} {final : Cpu Handle Thread}
    (run : (cpuMachine Handle sl).Run (Cpu.initial desc handle) trace final)
    (usage : (Monitor.mk Ledger.blank Ledger.observe Usage).Safe (ringSteps desc handle trace)) :
    Reaching ((ringSteps desc handle trace).foldl Ledger.observe Ledger.blank) (openCalls trace)
      final := by
  have used := (Monitor.through_safe _ Machine.operation _).mpr usage
  have reaching := run.tracked (fun L trace f => Reaching L (openCalls trace) f)
    (fun trace final ran => cpu_along desc handle nonzero stopped ran)
    (reaching_initial desc handle)
    (fun L trace f r label out f' facts linked reaching stepped usage => by
      obtain ⟨left, linked⟩ := linked
      have matched := matched_step nonzero facts ⟨left, linked⟩ stepped
      rw [openCalls, List.foldl_append]
      exact reaching.step facts linked stepped (matched.recorded usage)) used
  have record : (ringAlong desc handle trace).foldl (servedUsage Handle Thread).after
      Ledger.blank = (ringSteps desc handle trace).foldl Ledger.observe Ledger.blank :=
    (Monitor.mk Ledger.blank Ledger.observe Usage).through_stateAfter Machine.operation _
  rw [← record]
  exact reaching

end Libsysve.Vedma
