import Libsysve.AccIo.ListExact

/-!
# A call that was interrupted by a fork

A signal handler may fork inside a call, which goes on in the parent and in the child.  When
the call has no object with buffers at that moment, it uses and links in each process only
what the process has got from `INIT2` itself.
-/

set_option autoImplicit false

namespace Libsysve.AccIo

/-- The call has an object with buffers that it will use or link. -/
def ResourceStage.uses : ResourceStage → Bool
  | .initialised | .set | .inUse => true
  | .nothing | .malloced | .unset => false

variable {Process Thread : Type}

/-- A fork by a thread outside `ve_accelerated_io_dstfunc` whose interrupted calls are not
between a successful `INIT2`, or the `pthread_getspecific` that finds an object, and the last
copy, DMA or system call on the buffers. -/
def ForksWithoutBuffers (_ : ResourceRecord) : AccEvent Thread → Prop
  | .fork parent how _ _ => (parent.thread how.thread).dst = .outside ∧
    ∀ f ∈ (parent.thread how.thread).frames, f.stage.uses = false
  | .step _ _ _ _ => True

instance decidableForksWithoutBuffers (R : ResourceRecord) :
    (e : AccEvent Thread) → Decidable (ForksWithoutBuffers R e)
  | .fork parent how _ _ => inferInstanceAs (Decidable ((parent.thread how.thread).dst = .outside ∧
    ∀ f ∈ (parent.thread how.thread).frames, f.stage.uses = false))
  | .step _ _ _ _ => isTrue trivial

/-- A step uses no buffers of an object that a handler of the child has released, and links
only an object that was filled in this process and not released so. -/
def UsesOwn (R : ResourceRecord) : AccEvent Thread → Prop
  | .step _ _ (.io accIoRes _) _ => ∃ a ∈ accIoRes, a ∉ R.atFork
  | .step _ _ (.insert a) _ => a ∈ R.filled ∧ a ∉ R.atFork
  | .step _ _ _ _ => True
  | .fork _ _ _ _ => True

instance decidableUsesOwn (R : ResourceRecord) : (e : AccEvent Thread) → Decidable (UsesOwn R e)
  | .step _ _ (.io accIoRes _) _ => inferInstanceAs (Decidable (∃ a ∈ accIoRes, a ∉ R.atFork))
  | .step _ _ (.insert a) _ => inferInstanceAs (Decidable (a ∈ R.filled ∧ a ∉ R.atFork))
  | .step _ _ .other _ => isTrue trivial
  | .step _ _ (.init2 _) _ => isTrue trivial
  | .step _ _ (.unlink _) _ => isTrue trivial
  | .step _ _ (.release _ _) _ => isTrue trivial
  | .fork _ _ _ _ => isTrue trivial

/-- The object of the call, if it will use or link one, was filled in this process. -/
def AccFrame.Own (R : ResourceRecord) (f : AccFrame) : Prop :=
  f.stage.uses = true → ∃ a, f.accIoRes = some a ∧ a ∈ R.filled

structure ResumeInv (R : ResourceRecord) (s : AccProcess Thread) : Prop where
  resources : ResourceInv R.inserted s
  dead : ∀ a ∈ R.atFork, Dead s.heap a
  calls : ∀ t, ∀ f ∈ (s.thread t).frames, f.Own R
  keys : ∀ t a, (s.thread t).key = some a → a ∈ R.filled
  apart : ∀ a ∈ R.filled, a ∉ R.atFork

variable {R R' : ResourceRecord} {s s' : AccProcess Thread} {op : ResourceOp} {f f' : AccFrame}
  {rest : List AccFrame} {a : ObjectId} {label : AccLabel Thread}

theorem AccFrame.own_unused (stage : f.stage.uses = false) : f.Own R :=
  fun uses => absurd (stage.symm.trans uses) Bool.false_ne_true

theorem AccFrame.own_at {stage : ResourceStage} (here : f.At stage a) (member : a ∈ R.filled) :
    f.Own R :=
  fun _ => ⟨a, here.2, member⟩

theorem AccFrame.Own.object {stage : ResourceStage} (own : f.Own R) (here : f.At stage a)
    (uses : stage.uses = true) : a ∈ R.filled := by
  obtain ⟨b, same, member⟩ := own (here.1 ▸ uses)
  obtain rfl := Option.some.inj (here.2.symm.trans same)
  exact member

theorem AccFrame.Own.mono (own : f.Own R) (more : ∀ a ∈ R.filled, a ∈ R'.filled) : f.Own R' := by
  intro uses
  obtain ⟨a, here, member⟩ := own uses
  exact ⟨a, here, more a member⟩

theorem AccFrame.Own.same (own : f.Own R) (stage : f'.stage = f.stage)
    (acc : f'.accIoRes = f.accIoRes) : f'.Own R := by
  intro uses
  rw [acc]
  exact own (stage ▸ uses)

/-! ### The record -/

theorem observe_filled (member : a ∈ R.filled) : a ∈ (R.observe (.step s label op s')).filled := by
  cases op with
  | init2 b => exact List.mem_cons_of_mem b member
  | _ => exact member

theorem mem_observe_filled (member : a ∈ (R.observe (.step s label op s')).filled) :
    a ∈ R.filled ∨ op = .init2 a := by
  cases op with
  | init2 b =>
    rcases List.mem_cons.mp member with rfl | old
    · exact Or.inr rfl
    · exact Or.inl old
  | _ => exact Or.inl member

theorem observe_atFork : (R.observe (.step s label op s')).atFork = R.atFork := by
  cases op <;> rfl

/-! ### The steps -/

theorem CallMove.own {h h' : ResourceHeap} {key key' : Option ObjectId} {frames : List AccFrame}
    (move : CallMove h key f rest op h' key' frames) (own : f.Own R)
    (keyed : ∀ a, key = some a → a ∈ R.filled) (others : ∀ g ∈ rest, g.Own R) :
    (∀ g ∈ frames, g.Own (R.observe (.step s label op s'))) ∧
      ∀ a, key' = some a → a ∈ (R.observe (.step s label op s')).filled := by
  have keys : ∀ a, key = some a → a ∈ (R.observe (.step s label op s')).filled :=
    fun a here => observe_filled (keyed a here)
  have later : ∀ g ∈ rest, g.Own (R.observe (.step s label op s')) :=
    fun g held => (others g held).mono fun _ => observe_filled
  have unused : ∀ {g : AccFrame}, g.stage.uses = false → g.Own (R.observe (.step s label op s')) :=
    AccFrame.own_unused
  have kept : f.Own (R.observe (.step s label op s')) := own.mono fun _ => observe_filled
  cases move with
  | goesOn f' stage same =>
    refine ⟨List.forall_mem_cons.mpr ⟨?_, later⟩, keys⟩
    by_cases none : f.stage = .nothing
    · exact unused (by rw [stage, none]; rfl)
    · exact kept.same stage (same none)
  | letsGo f' before after =>
    exact ⟨List.forall_mem_cons.mpr ⟨unused (by rw [after]; rfl), later⟩, keys⟩
  | returns before => exact ⟨later, keys⟩
  | finds f' a found before after =>
    exact ⟨List.forall_mem_cons.mpr ⟨AccFrame.own_at after (keys a found), later⟩, keys⟩
  | mallocs f' before after =>
    exact ⟨List.forall_mem_cons.mpr ⟨unused (by rw [after.1]; rfl), later⟩, keys⟩
  | frees f' a before after =>
    exact ⟨List.forall_mem_cons.mpr ⟨unused (by rw [after]; rfl), later⟩, keys⟩
  | init2 f' a fields before after new =>
    exact ⟨List.forall_mem_cons.mpr ⟨AccFrame.own_at after List.mem_cons_self, later⟩, keys⟩
  | sets f' a before after =>
    have filled := kept.object before rfl
    refine ⟨List.forall_mem_cons.mpr ⟨AccFrame.own_at after filled, later⟩, fun b here => ?_⟩
    obtain rfl := Option.some.inj here
    exact filled
  | fails f' before after same =>
    exact ⟨List.forall_mem_cons.mpr ⟨unused (by rw [after]; rfl), later⟩, keys⟩
  | releases f' a before after =>
    exact ⟨List.forall_mem_cons.mpr ⟨unused (by rw [after]; rfl), later⟩, keys⟩
  | inserts f' a before after =>
    exact ⟨List.forall_mem_cons.mpr ⟨AccFrame.own_at after (kept.object before rfl), later⟩, keys⟩
  | transfers f' event before after same =>
    refine ⟨List.forall_mem_cons.mpr ⟨?_, later⟩, keys⟩
    rcases after with after | after
    · exact kept.same (after.trans before.symm) same
    · exact unused (by rw [after]; rfl)

theorem ResourceInv.init2_live {objects : List ObjectId} (inv : ResourceInv objects s)
    [DecidableEq Thread] (move : ProcessMove s (.init2 a) s') : s.heap.live a = true := by
  cases move with
  | moves u left f rest op h' running dst move =>
    generalize left.key = key, left.frames = frames at move
    cases move with
    | init2 f' a fields before after new =>
      exact ((inv.threads u).pending a
        (AccThread.mem_objectsIn (running ▸ List.mem_cons_self)
          (AccFrame.objectIn_at before rfl))).1

variable [DecidableEq Thread]

theorem ResumeInv.put {u : Thread} {h' : ResourceHeap} {left : AccThread} (inv : ResumeInv R s)
    (frames : ∀ g ∈ left.frames, g.Own (R.observe (.step s label op s')))
    (keys : ∀ a, left.key = some a → a ∈ (R.observe (.step s label op s')).filled) :
    (∀ t, ∀ g ∈ ((s.put u h' left).thread t).frames, g.Own (R.observe (.step s label op s'))) ∧
      ∀ t a, ((s.put u h' left).thread t).key = some a →
        a ∈ (R.observe (.step s label op s')).filled := by
  refine ⟨fun t => ?_, fun t => ?_⟩
  · by_cases same : t = u
    · rw [same, AccProcess.put_self]
      exact frames
    · rw [AccProcess.put_other same]
      exact fun g held => (inv.calls t g held).mono fun _ => observe_filled
  · by_cases same : t = u
    · rw [same, AccProcess.put_self]
      exact keys
    · rw [AccProcess.put_other same]
      exact fun a here => observe_filled (inv.keys t a here)

theorem ResumeInv.moved (label : AccLabel Thread) (inv : ResumeInv R s)
    (move : ProcessMove s op s') :
    (∀ t, ∀ g ∈ (s'.thread t).frames, g.Own (R.observe (.step s label op s'))) ∧
      ∀ t a, (s'.thread t).key = some a → a ∈ (R.observe (.step s label op s')).filled := by
  cases move with
  | calls u left f new frames key dst =>
    refine inv.put ?_ (fun a here => inv.keys u a (key ▸ here))
    rw [frames]
    exact List.forall_mem_cons.mpr ⟨AccFrame.own_unused (by rw [new]; rfl), inv.calls u⟩
  | moves u left f rest op h' running dst move =>
    have own := inv.calls u
    rw [running] at own
    obtain ⟨frames, keys⟩ := move.own (own f List.mem_cons_self) (inv.keys u)
      (fun g held => own g (List.mem_cons_of_mem f held))
    exact inv.put frames keys
  | exits u left a quiet before key frames key' after =>
    refine inv.put ?_ (fun b here => ?_)
    · rw [frames]
      exact fun g held => absurd held List.not_mem_nil
    · rw [key'] at here
      exact absurd here (by simp)
  | unlinks u left a quiet before frames key after =>
    refine inv.put ?_ (fun b here => observe_filled (inv.keys u b (key ▸ here)))
    rw [frames]
    exact fun g held => absurd held List.not_mem_nil
  | releases u left a quiet before frames key after =>
    refine inv.put ?_ (fun b here => observe_filled (inv.keys u b (key ▸ here)))
    rw [frames]
    exact fun g held => absurd held List.not_mem_nil

theorem ResumeInv.usesOwn (inv : ResumeInv R s) (move : ProcessMove s op s') :
    UsesOwn R (.step s label op s') := by
  cases move with
  | moves u left f rest op h' running dst move =>
    have own := inv.calls u f (running ▸ List.mem_cons_self)
    generalize left.key = key, left.frames = frames at move
    cases move with
    | inserts f' a before after =>
      have filled := own.object before rfl
      exact ⟨filled, inv.apart a filled⟩
    | transfers f' event before after same =>
      obtain ⟨a, here, filled⟩ := own (by rw [before]; rfl)
      exact ⟨a, here, inv.apart a filled⟩
    | _ => trivial
  | _ => trivial

/-! ### The run -/

variable {env : Env} {pdma : Bool}

theorem ResumeInv.event (e : AccEvent Thread) (inv : ResumeInv R e.source)
    (happens : (accForking Thread env pdma).Happens e) (without : ForksWithoutBuffers R e) :
    ResumeInv (R.observe e) e.target := by
  cases e with
  | step s label op s' =>
    have inv : ResumeInv R s := inv
    have move : ProcessMove s op s' := process_move happens
    obtain ⟨calls, keys⟩ := inv.moved label move
    refine ⟨?_, ?_, calls, keys, ?_⟩
    · rw [observe_inserted]
      exact inv.resources.step move
    · rw [observe_atFork]
      exact fun a member => (inv.dead a member).step move
    · intro a member
      rw [observe_atFork]
      rcases mem_observe_filled member with old | rfl
      · exact inv.apart a old
      · intro released
        have live := inv.resources.init2_live move
        exact absurd ((inv.dead a released).1.symm.trans live) Bool.false_ne_true
  | fork s how released child =>
    have inv : ResumeInv R s := inv
    obtain ⟨outside, unused⟩ := without
    obtain ⟨rfl, forked⟩ := inv.resources.fork_eq happens
    have elsewhere : ∀ a, (s.thread how.thread).dst ≠ .unlink a := by
      intro a leaving
      exact absurd (outside.symm.trans leaving) (by simp)
    have dead : ∀ a, s.heap.live a = false ∨ a ∈ R.inserted → a < s.heap.malloced →
        Dead child.heap a := by
      intro a gone bound
      rw [forked.heap]
      refine ⟨?_, lt_of_lt_of_eq bound afterRelease_malloced.symm⟩
      rw [← Bool.not_eq_true]
      intro live
      obtain ⟨before, out⟩ := afterRelease_live.mp live
      rcases gone with freed | listed
      · exact Bool.false_ne_true (freed.symm.trans before)
      · exact out listed
    refine ⟨inv.resources.fork elsewhere forked, fun a member => ?_, fun t => ?_,
      fun t a here => ?_, fun a member => absurd member List.not_mem_nil⟩
    · rcases List.mem_append.mp member with listed | old
      · rw [forkReleases_objects] at listed
        exact dead a (Or.inr listed)
          (inv.resources.heap.bound a (inv.resources.heap.linked a listed))
      · exact dead a (Or.inl (inv.dead a old).1) (inv.dead a old).2
    · rw [MemberEvent.target]
      by_cases same : t = how.thread
      · rw [same, forked.caller]
        exact fun g held => AccFrame.own_unused (unused g held)
      · rw [forked.others t same]
        exact fun g held => absurd held List.not_mem_nil
    · rw [MemberEvent.target] at here
      by_cases same : t = how.thread
      · rw [same, forked.caller] at here
        exact absurd here (by simp)
      · rw [forked.others t same] at here
        exact absurd here (by simp [AccThread.blank])

omit [DecidableEq Thread] in
theorem resumeInv_initial (node : ObjectId → ResourceNode) :
    ResumeInv .blank (AccProcess.initial node : AccProcess Thread) where
  resources := resourceInv_initial node
  dead _ member := absurd member List.not_mem_nil
  calls _ _ held := absurd held List.not_mem_nil
  keys _ a here := absurd here (by simp [AccProcess.initial, AccThread.blank])
  apart _ member := absurd member List.not_mem_nil

/-- In every run in which no thread forks inside a call that has an object with buffers. -/
theorem resumed_calls_use_own [DecidableEq Process] (env : Env) (pdma : Bool) (p : Process)
    (node : ObjectId → ResourceNode) (trace : List (AccEntry Process Thread))
    (final : Process → Option (AccProcess Thread)) (run : AccRun env pdma p node trace final)
    (without : AccSafe ForksWithoutBuffers trace) : AccSafe UsesOwn trace := by
  refine Forking.family_guarantee (resumeInv_initial node) (fun _ => ResumeInv.event) ?_ run without
  intro R e inv happens _
  cases e with
  | step s label op s' =>
    have inv : ResumeInv R s := inv
    exact inv.usesOwn (process_move happens)
  | fork s how released child => trivial

/-- A handler forks when the interrupted call has allocated its object; the call goes on in the
child and in the parent. -/
def interruptedLabels : List (FamilyLabel Nat (AccLabel Bool) (ForkCall Bool)) :=
  steps 0 true (firstCall 100 ++ lastSteps) ++ steps 0 false ((firstCall 200).take 7) ++
    [.fork 0 ⟨false, 1⟩ 1] ++ steps 1 false ((firstCall 100).drop 7 ++ lastSteps) ++
    steps 0 false ((firstCall 200).drop 7 ++ lastSteps)

theorem resumed_calls_use_own_interrupted :
    ∃ trace final, (accForking Bool (.steady 0) false).family.exec aloneAtFirst interruptedLabels =
        some (trace, final) ∧
      accRecords trace 1 = ⟨[1], [0], [1], [0]⟩ ∧ AccSafe UsesOwn trace := by
  have checked : ((accForking Bool (.steady 0) false).family.exec aloneAtFirst
      interruptedLabels).any (fun done => decide (accRecords done.1 1 = ⟨[1], [0], [1], [0]⟩ ∧
        (Forking.members ResourceRecord.blank ResourceRecord.observe
          ForksWithoutBuffers).SafeFrom (fun _ => .blank) done.1)) = true := by
    decide +kernel
  rw [Option.any_eq_true] at checked
  obtain ⟨⟨trace, final⟩, ran, holds⟩ := checked
  obtain ⟨child, without⟩ := of_decide_eq_true holds
  exact ⟨trace, final, ran, child, resumed_calls_use_own (.steady 0) false 0 _ trace final
    (Machine.exec_run ran) (Monitor.safe_of_safeFrom _ trace without)⟩

/-- A handler forks before the first system call on the buffers, and the call goes on in the
child. -/
def resumedLabels : List (FamilyLabel Nat (AccLabel Bool) (ForkCall Bool)) :=
  steps 0 true (firstCall 100 ++ [.step (.surroundings (.steady 0) .blank)]) ++
    [.fork 0 ⟨true, 1⟩ 1] ++ steps 1 true [.step .quiet]

theorem resumed_call_uses_released :
    ¬ ∀ (trace : List (AccEntry Nat Bool)) (final : Nat → Option (AccProcess Bool)),
      AccRun (.steady 0) false 0 (fun _ => ⟨.sample, none, none⟩) trace final →
        AccSafe ForksOutsideExit trace → AccSafe UsesOwn trace := by
  intro claim
  have checked : ((accForking Bool (.steady 0) false).family.exec aloneAtFirst resumedLabels).any
      (fun done => done.1.getLast?.any (fun e =>
          decide (¬ UsesOwn (accRecords done.1.dropLast e.label.actor) e.out)) &&
        decide ((Forking.members ResourceRecord.blank ResourceRecord.observe
          ForksOutsideExit).SafeFrom (fun _ => .blank) done.1)) = true := by
    decide +kernel
  rw [Option.any_eq_true] at checked
  obtain ⟨⟨trace, final⟩, ran, holds⟩ := checked
  rw [Bool.and_eq_true, Option.any_eq_true] at holds
  obtain ⟨⟨e, last, used⟩, safe⟩ := holds
  have own := (claim trace final (Machine.exec_run ran)
    (Monitor.safe_of_safeFrom _ trace (of_decide_eq_true safe))).last last
  exact of_decide_eq_true used own

end Libsysve.AccIo
