import Libsysve.AccIo.ResourceInvariant

/-!
# The resource list is exact

In every process the list is what its threads have inserted and not unlinked, and an object is
released once and never while it is linked.
-/

set_option autoImplicit false

namespace Libsysve.AccIo

variable {Process Thread : Type}

/-- The thread that forks is not inside `ve_accelerated_io_dstfunc`. -/
def ForksOutsideExit (_ : ResourceRecord) : AccEvent Thread → Prop
  | .fork parent how _ _ => (parent.thread how.thread).dst = .outside
  | .step _ _ _ _ => True

instance decidableForksOutsideExit (R : ResourceRecord) :
    (e : AccEvent Thread) → Decidable (ForksOutsideExit R e)
  | .fork parent how _ _ => inferInstanceAs (Decidable ((parent.thread how.thread).dst = .outside))
  | .step _ _ _ _ => isTrue trivial

/-- What a release acts on: an object that is allocated, out of the list and not released
before.  The handler of a child releases the list, each object once. -/
def ReleasesOnce (R : ResourceRecord) : AccEvent Thread → Prop
  | .step before _ (.release a _) _ =>
    before.heap.live a = true ∧ a ∉ R.inserted ∧ a ∉ R.released
  | .step _ _ _ _ => True
  | .fork parent _ released child =>
    released.map Prod.fst = R.inserted ∧ R.inserted.Nodup ∧
      (∀ a ∈ R.inserted, parent.heap.live a = true ∧ child.heap.live a = false) ∧
      child.heap.listHeadNext = none

/-- From `list_head` on, the objects are linked in this order, each one once and back to the one
before it, and none is freed; the handler of a child gets to the end. -/
structure ListExact (objects : List ObjectId) (h : ResourceHeap) : Prop where
  listed : Listed h objects
  linked : ∀ a ∈ objects, h.live a = true
  handlerEnds : ∀ fuel, objects.length ≤ fuel →
    ∃ left, h.atforkChild fuel = some (h.forkReleases objects, left)

variable {objects : List ObjectId} {R : ResourceRecord} {s s' : AccProcess Thread} {a : ObjectId}
  {op : ResourceOp}

theorem HeapInv.exact {h : ResourceHeap} (inv : HeapInv objects h) : ListExact objects h where
  listed := inv.listed
  linked := inv.linked
  handlerEnds fuel enough := by
    rw [inv.listed.atforkChild, if_pos enough]
    exact ⟨_, rfl⟩

/-! ### Objects that are freed stay so -/

def Dead (h : ResourceHeap) (a : ObjectId) : Prop := h.live a = false ∧ a < h.malloced

theorem Dead.free {h : ResourceHeap} {b : ObjectId} (dead : Dead h a) : Dead (h.free b) a := by
  refine ⟨?_, dead.2⟩
  by_cases same : a = b
  · rw [same]
    exact Function.update_self ..
  · exact (Function.update_of_ne same ..).trans dead.1

theorem Dead.releaseResource {h : ResourceHeap} {b : ObjectId} (dead : Dead h a) :
    Dead (h.releaseResource b) a :=
  Dead.free (h := { h with vhBuff := Function.update h.vhBuff (h.node b).fields.vhBuff false }) dead

theorem Dead.malloc {h : ResourceHeap} (dead : Dead h a) : Dead h.malloc a :=
  ⟨(Function.update_of_ne (Nat.ne_of_lt dead.2) ..).trans dead.1, Nat.lt_succ_of_lt dead.2⟩

theorem Dead.sameBut {h h' : ResourceHeap} (dead : Dead h a)
    (same : ResourceHeap.SameBut h h') : Dead h' a := by
  rw [Dead, same.live, same.malloced]
  exact dead

theorem Dead.callMove {h h' : ResourceHeap} {key key' : Option ObjectId} {f : AccFrame}
    {rest frames : List AccFrame} (dead : Dead h a)
    (move : CallMove h key f rest op h' key' frames) : Dead h' a := by
  cases move with
  | mallocs f' before after => exact dead.malloc
  | frees f' b before after => exact dead.free
  | init2 f' b fields before after new => exact dead
  | releases f' b before after => exact dead.releaseResource
  | inserts f' b before after => exact dead.sameBut ResourceHeap.linkHead_sameBut
  | _ => exact dead

variable [DecidableEq Thread]

theorem Dead.step (dead : Dead s.heap a) (move : ProcessMove s op s') : Dead s'.heap a := by
  cases move with
  | calls u left f new frames key dst => exact dead
  | moves u left f rest op h' running dst move => exact dead.callMove move
  | exits u left b quiet before key frames key' after => exact dead
  | unlinks u left b quiet before frames key after =>
    exact dead.sameBut ResourceHeap.unlink_sameBut
  | releases u left b quiet before frames key after => exact dead.releaseResource

theorem ResourceInv.release {calls : List SysveCall} (inv : ResourceInv objects s)
    (move : ProcessMove s (.release a calls) s') :
    s.heap.live a = true ∧ a ∉ objects ∧ Dead s'.heap a := by
  have freed : s.heap.live a = true → Dead (s.heap.releaseResource a) a :=
    fun live => ⟨Function.update_self .., inv.heap.bound a live⟩
  cases move with
  | moves u left f rest op h' running dst move =>
    generalize left.key = key, left.frames = frames at move
    cases move with
    | releases f' b before after =>
      obtain ⟨live, out⟩ := (inv.threads u).pending a
        (AccThread.mem_objectsIn (running ▸ List.mem_cons_self) (AccFrame.objectIn_at before rfl))
      exact ⟨live, out, freed live⟩
  | releases u left b quiet before frames key after =>
    have pending : a ∈ (s.thread u).pending := by
      rw [AccThread.pending, AccThread.objectsIn_quiet quiet, before]
      exact List.mem_singleton_self a
    obtain ⟨live, out⟩ := (inv.threads u).pending a pending
    exact ⟨live, out, freed live⟩

/-! ### The run -/

structure ExactInv (R : ResourceRecord) (s : AccProcess Thread) : Prop where
  resources : ResourceInv R.inserted s
  released : ∀ a ∈ R.released, Dead s.heap a

omit [DecidableEq Thread] in
theorem observe_inserted (label : AccLabel Thread) :
    (R.observe (.step s label op s')).inserted = op.inserted R.inserted := by
  cases op <;> rfl

omit [DecidableEq Thread] in
theorem mem_observe_released {label : AccLabel Thread}
    (member : a ∈ (R.observe (.step s label op s')).released) :
    a ∈ R.released ∨ ∃ calls, op = .release a calls := by
  cases op with
  | release b calls =>
    rcases List.mem_cons.mp member with rfl | old
    · exact Or.inr ⟨calls, rfl⟩
    · exact Or.inl old
  | _ => exact Or.inl member

variable {env : Env} {pdma : Bool}

theorem ExactInv.event (e : AccEvent Thread) (inv : ExactInv R e.source)
    (happens : (accForking Thread env pdma).Happens e) (outside : ForksOutsideExit R e) :
    ExactInv (R.observe e) e.target := by
  cases e with
  | step s label op s' =>
    have move : ProcessMove s op s' := process_move happens
    constructor
    · rw [observe_inserted]
      exact inv.resources.step move
    · intro a member
      rcases mem_observe_released member with old | ⟨calls, rfl⟩
      · exact (inv.released a old).step move
      · exact (inv.resources.release move).2.2
  | fork s how released child =>
    have inv : ExactInv R s := inv
    obtain ⟨rfl, forked⟩ := inv.resources.fork_eq happens
    have elsewhere : ∀ a, (s.thread how.thread).dst ≠ .unlink a := by
      intro a leaving
      exact absurd (outside.symm.trans leaving) (by simp)
    refine ⟨inv.resources.fork elsewhere forked, fun a member => ?_⟩
    have listed : a ∈ (s.heap.forkReleases R.inserted).map Prod.fst := member
    rw [forkReleases_objects] at listed
    rw [MemberEvent.target, forked.heap]
    refine ⟨?_, ?_⟩
    · rw [← Bool.not_eq_true]
      exact fun live => (afterRelease_live.mp live).2 listed
    · exact lt_of_lt_of_eq (inv.resources.heap.bound a (inv.resources.heap.linked a listed))
        afterRelease_malloced.symm

theorem ExactInv.releasesOnce (e : AccEvent Thread) (inv : ExactInv R e.source)
    (happens : (accForking Thread env pdma).Happens e) : ReleasesOnce R e := by
  cases e with
  | step s label op s' =>
    cases op with
    | release a calls =>
      obtain ⟨live, out, _⟩ := inv.resources.release (process_move happens)
      refine ⟨live, out, fun before => ?_⟩
      exact absurd ((inv.released a before).1.symm.trans live) Bool.false_ne_true
    | _ => trivial
  | fork s how released child =>
    have inv : ExactInv R s := inv
    obtain ⟨rfl, forked⟩ := inv.resources.fork_eq happens
    refine ⟨forkReleases_objects, inv.resources.heap.listed.nodup, fun a listed => ?_, ?_⟩
    · refine ⟨inv.resources.heap.linked a listed, ?_⟩
      rw [forked.heap, ← Bool.not_eq_true]
      exact fun live => (afterRelease_live.mp live).2 listed
    · rw [forked.heap]

omit [DecidableEq Thread] in
theorem exactInv_initial (node : ObjectId → ResourceNode) :
    ExactInv .blank (AccProcess.initial node : AccProcess Thread) :=
  ⟨resourceInv_initial node, fun _ member => absurd member List.not_mem_nil⟩

/-- In every run of processes in which no thread forks inside its own
`ve_accelerated_io_dstfunc`. -/
theorem resource_list_exact [DecidableEq Process] (env : Env) (pdma : Bool) (p : Process)
    (node : ObjectId → ResourceNode) (trace : List (AccEntry Process Thread))
    (final : Process → Option (AccProcess Thread)) (run : AccRun env pdma p node trace final)
    (outside : AccSafe ForksOutsideExit trace) :
    AccSafe ReleasesOnce trace ∧
      ∀ q s, final q = some s → ListExact (accRecords trace q).inserted s.heap := by
  constructor
  · exact Forking.family_guarantee (exactInv_initial node) (fun _ => ExactInv.event)
      (fun _ e inv happens _ => inv.releasesOnce e happens) run outside
  · intro q s here
    have inv := Forking.family_invariant (exactInv_initial node) (fun _ => ExactInv.event) run
      outside q s here
    exact inv.resources.heap.exact

/-- The steps of a thread's first call up to the insertion: `INIT2` gives the VH buffer `vhva`. -/
def firstCall (vhva : Nat) : List IoLabel :=
  let quiet := IoLabel.step .quiet
  [.call (.readPread .read 7 4096 1 0), quiet, quiet, quiet, quiet, .step .ok,
    .step (.address 8192), .step (.vhBuffer vhva 16384 20480), .step .ok, quiet]

def lastSteps : List IoLabel :=
  let quiet := IoLabel.step .quiet
  [.step (.surroundings (.steady 0) .blank), quiet, quiet, quiet, quiet]

def steps {Thread : Type} (p : Nat) (t : Thread) (labels : List IoLabel) :
    List (FamilyLabel Nat (AccLabel Thread) (ForkCall Thread)) :=
  labels.map fun label => .step p (.io t label)

/-- Three threads insert, the second one exits, the first one forks, and its child inserts. -/
def forkedLabels : List (FamilyLabel Nat (AccLabel Nat) (ForkCall Nat)) :=
  steps 0 0 (firstCall 100 ++ lastSteps) ++ steps 0 1 (firstCall 200 ++ lastSteps) ++
    steps 0 2 (firstCall 300 ++ lastSteps) ++
    [.step 0 (.exit 1), .step 0 (.unlink 1), .step 0 (.release 1), .fork 0 ⟨0, 2⟩ 1] ++
    steps 1 0 (firstCall 100 ++ lastSteps)

def aloneAtFirst {Thread : Type} : Nat → Option (AccProcess Thread) :=
  Forking.alone 0 (.initial fun _ => ⟨.sample, none, none⟩)

theorem resource_list_exact_forked :
    ∃ trace final, (accForking Nat (.steady 0) false).family.exec aloneAtFirst forkedLabels =
        some (trace, final) ∧ AccSafe ReleasesOnce trace ∧
      accRecords trace 0 = ⟨[2, 0], [1], [2, 1, 0], []⟩ ∧
      accRecords trace 1 = ⟨[3], [2, 0], [3], [2, 0]⟩ ∧
      ∀ q s, final q = some s → ListExact (accRecords trace q).inserted s.heap := by
  have checked : ((accForking Nat (.steady 0) false).family.exec aloneAtFirst forkedLabels).any
      (fun done => decide (accRecords done.1 0 = ⟨[2, 0], [1], [2, 1, 0], []⟩ ∧
        accRecords done.1 1 = ⟨[3], [2, 0], [3], [2, 0]⟩ ∧
        (Forking.members ResourceRecord.blank ResourceRecord.observe ForksOutsideExit).SafeFrom
          (fun _ => .blank) done.1)) = true := by
    decide +kernel
  rw [Option.any_eq_true] at checked
  obtain ⟨⟨trace, final⟩, ran, holds⟩ := checked
  obtain ⟨parent, child, outside⟩ := of_decide_eq_true holds
  obtain ⟨once, exact⟩ := resource_list_exact (.steady 0) false 0 _ trace final
    (Machine.exec_run ran) (Monitor.safe_of_safeFrom _ trace outside)
  exact ⟨trace, final, ran, once, parent, child, exact⟩

end Libsysve.AccIo
