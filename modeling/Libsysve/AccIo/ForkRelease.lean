import Mathlib.Data.Fintype.Basic
import Libsysve.AccIo.ListExact

/-!
# What the handler of a child frees

Every VH buffer that is allocated belongs to an object in the list, or to an object between
`INIT2` and the insertion or between the unlinking and the release.  The handler of a child
frees the former, each once, and leaves the latter behind.
-/

set_option autoImplicit false

namespace Libsysve.AccIo

/-- The object has its buffers and is not linked yet. -/
def ResourceStage.filled : ResourceStage → Bool
  | .initialised | .unset | .set => true
  | .nothing | .malloced | .inUse => false

abbrev AccFrame.filled (f : AccFrame) : Option ObjectId := f.objectIn ResourceStage.filled

/-- The objects of the thread between a successful `INIT2` and the locked insertion, or the
release that takes its place, and between the locked unlinking and the release. -/
abbrev AccThread.filled (t : AccThread) : List ObjectId := t.objectsIn ResourceStage.filled

variable {Process Thread : Type}

/-- No thread has an object with buffers that is not in the list. -/
def NoneBetween (s : AccProcess Thread) : Prop := ∀ t, (s.thread t).filled = []

/-- Every VH buffer that the parent has is freed once by the handler of the child. -/
def FreesInherited (parent : AccProcess Thread) (released : List (ObjectId × List SysveCall)) :
    Prop :=
  ∀ v, parent.heap.vhBuff v = true → (released.flatMap Prod.snd).count (.freeVhBuf v) = 1

/-- A fork by a thread outside `ve_accelerated_io_dstfunc` while no thread is between. -/
def ForksBetweenNone (_ : ResourceRecord) : AccEvent Thread → Prop
  | .fork parent how _ _ => (parent.thread how.thread).dst = .outside ∧ NoneBetween parent
  | .step _ _ _ _ => True

def ForksFreeInherited (_ : ResourceRecord) : AccEvent Thread → Prop
  | .fork parent _ released _ => FreesInherited parent released
  | .step _ _ _ _ => True

/-! ## Objects and VH buffers -/

/-- The VH buffers that are allocated are those of the objects in `held`, one each. -/
structure BufferInv (held : ObjectId → Prop) (h : ResourceHeap) : Prop where
  allocated : ∀ v, h.vhBuff v = true ↔ ∃ a, held a ∧ (h.node a).fields.vhBuff = v
  own : ∀ a b, held a → held b → (h.node a).fields.vhBuff = (h.node b).fields.vhBuff → a = b

variable {held held' : ObjectId → Prop} {h h' : ResourceHeap} {a : ObjectId}

theorem BufferInv.congr (inv : BufferInv held h) (same : ∀ a, held' a ↔ held a)
    (fields : ∀ a, held a → (h'.node a).fields = (h.node a).fields) (vh : h'.vhBuff = h.vhBuff) :
    BufferInv held' h' where
  allocated v := by
    rw [vh, inv.allocated]
    constructor
    · rintro ⟨a, here, rfl⟩
      exact ⟨a, (same a).mpr here, congrArg _ (fields a here)⟩
    · rintro ⟨a, here, rfl⟩
      have before := (same a).mp here
      exact ⟨a, before, congrArg _ (fields a before).symm⟩
  own a b here there eq := by
    have first := (same a).mp here
    have second := (same b).mp there
    rw [fields a first, fields b second] at eq
    exact inv.own a b first second eq

theorem BufferInv.init2 {fields : AccIoResources} (inv : BufferInv held h) (new : ¬ held a)
    (unused : h.vhBuff fields.vhBuff = false) (more : ∀ b, held' b ↔ b = a ∨ held b) :
    BufferInv held' (h.init2 a fields) := by
  have here : ((h.init2 a fields).node a).fields = fields := by
    have node : (h.init2 a fields).node a = ⟨fields, none, none⟩ := Function.update_self ..
    rw [node]
  have there : ∀ b, held b → ((h.init2 a fields).node b).fields = (h.node b).fields := by
    intro b old
    have other : b ≠ a := fun same => new (same ▸ old)
    have node : (h.init2 a fields).node b = h.node b := Function.update_of_ne other ..
    rw [node]
  have differ : ∀ b, held b → (h.node b).fields.vhBuff ≠ fields.vhBuff := by
    intro b old same
    rw [← same, ← Bool.not_eq_true] at unused
    exact unused ((inv.allocated _).mpr ⟨b, old, rfl⟩)
  constructor
  · intro v
    have after : (h.init2 a fields).vhBuff v = true ↔ v = fields.vhBuff ∨ h.vhBuff v = true := by
      by_cases same : v = fields.vhBuff
      · simp [same, ResourceHeap.init2]
      · simp [same, ResourceHeap.init2]
    rw [after, inv.allocated]
    constructor
    · rintro (rfl | ⟨b, old, rfl⟩)
      · exact ⟨a, (more a).mpr (Or.inl rfl), congrArg _ here⟩
      · exact ⟨b, (more b).mpr (Or.inr old), congrArg _ (there b old)⟩
    · rintro ⟨b, now, rfl⟩
      rcases (more b).mp now with rfl | old
      · exact Or.inl (congrArg _ here)
      · exact Or.inr ⟨b, old, congrArg _ (there b old).symm⟩
  · intro b c first second eq
    rcases (more b).mp first with rfl | oldB
    · rcases (more c).mp second with rfl | oldC
      · rfl
      · rw [here, there c oldC] at eq
        exact absurd eq.symm (differ c oldC)
    · rcases (more c).mp second with rfl | oldC
      · rw [here, there b oldB] at eq
        exact absurd eq (differ b oldB)
      · rw [there b oldB, there c oldC] at eq
        exact inv.own b c oldB oldC eq

theorem BufferInv.releaseResource (inv : BufferInv held h) (here : held a)
    (fewer : ∀ b, held' b ↔ held b ∧ b ≠ a) : BufferInv held' (h.releaseResource a) := by
  have after : ∀ v, (h.releaseResource a).vhBuff v = true ↔
      h.vhBuff v = true ∧ (h.node a).fields.vhBuff ≠ v := by
    intro v
    have one : (h.afterRelease [a]).vhBuff v = true ↔ _ := afterRelease_vhBuff
    rwa [List.forall_mem_singleton] at one
  constructor
  · intro v
    rw [after, inv.allocated]
    constructor
    · rintro ⟨⟨b, old, rfl⟩, differ⟩
      exact ⟨b, (fewer b).mpr ⟨old, fun same => differ (same ▸ rfl)⟩, rfl⟩
    · rintro ⟨b, now, rfl⟩
      obtain ⟨old, other⟩ := (fewer b).mp now
      exact ⟨⟨b, old, rfl⟩, fun same => other (inv.own b a old here same.symm)⟩
  · exact fun b c first second => inv.own b c ((fewer b).mp first).1 ((fewer c).mp second).1

/-! ## The steps of a process -/

def AccProcess.Filled (s : AccProcess Thread) (objects : List ObjectId) (a : ObjectId) : Prop :=
  a ∈ objects ∨ ∃ t, a ∈ (s.thread t).filled

variable {objects objects' : List ObjectId} {t left : AccThread} {f f' : AccFrame}
  {rest : List AccFrame}

theorem AccFrame.filled_or : f.filled = none ∨ f.filled = f.pending := by
  unfold AccFrame.filled AccFrame.pending AccFrame.objectIn
  cases f.stage with
  | malloced => exact Or.inl rfl
  | _ => exact Or.inr rfl

theorem AccThread.filled_sublist : t.filled.Sublist t.pending := by
  refine List.Sublist.append ?_ (List.Sublist.refl _)
  induction t.frames with
  | nil => exact List.Sublist.refl _
  | cons f rest ih =>
    rcases f.filled_or with none | same
    · rw [List.filterMap_cons_none none]
      cases held : f.pending with
      | none => rwa [List.filterMap_cons_none held]
      | some b =>
        rw [List.filterMap_cons_some held]
        exact ih.cons b
    · cases held : f.pending with
      | none =>
        rw [List.filterMap_cons_none (same.trans held), List.filterMap_cons_none held]
        exact ih
      | some b =>
        rw [List.filterMap_cons_some (same.trans held), List.filterMap_cons_some held]
        exact ih.cons_cons b

theorem filled_put [DecidableEq Thread] {s : AccProcess Thread} {u : Thread} {h' : ResourceHeap} :
    (s.put u h' left).Filled objects' a ↔
      a ∈ objects' ∨ a ∈ left.filled ∨ ∃ v, v ≠ u ∧ a ∈ (s.thread v).filled := by
  refine or_congr_right ⟨?_, ?_⟩
  · rintro ⟨v, member⟩
    by_cases same : v = u
    · rw [same, AccProcess.put_self] at member
      exact Or.inl member
    · rw [AccProcess.put_other same] at member
      exact Or.inr ⟨v, same, member⟩
  · rintro (member | ⟨v, other, member⟩)
    · refine ⟨u, ?_⟩
      rwa [AccProcess.put_self]
    · refine ⟨v, ?_⟩
      rwa [AccProcess.put_other other]

theorem filled_split [DecidableEq Thread] {s : AccProcess Thread} {u : Thread} :
    s.Filled objects a ↔
      a ∈ objects ∨ a ∈ (s.thread u).filled ∨ ∃ v, v ≠ u ∧ a ∈ (s.thread v).filled := by
  have unmoved : (s.put u s.heap (s.thread u)).Filled objects a ↔ _ := filled_put
  rwa [AccProcess.put, Function.update_eq_self] at unmoved

variable [DecidableEq Thread] {s : AccProcess Thread} {u : Thread}

theorem BufferInv.goesOn (buffers : BufferInv (s.Filled objects) s.heap)
    (same : left.filled = (s.thread u).filled)
    (fields : ∀ a, s.Filled objects a → (h'.node a).fields = (s.heap.node a).fields)
    (vh : h'.vhBuff = s.heap.vhBuff) : BufferInv ((s.put u h' left).Filled objects) h' := by
  refine buffers.congr (fun a => ?_) fields vh
  rw [filled_put, filled_split, same]

omit [DecidableEq Thread] in
theorem ResourceInv.only (inv : ResourceInv objects s) (pending : a ∈ (s.thread u).pending) :
    a ∉ objects ∧ ¬ ∃ v, v ≠ u ∧ a ∈ (s.thread v).filled := by
  refine ⟨((inv.threads u).pending a pending).2, ?_⟩
  rintro ⟨v, other, member⟩
  exact other (inv.apart v u a (Or.inl (AccThread.filled_sublist.subset member)) (Or.inl pending))

theorem BufferInv.gains {fields : AccIoResources} (inv : ResourceInv objects s)
    (buffers : BufferInv (s.Filled objects) s.heap) (running : (s.thread u).frames = f :: rest)
    (frames : left.frames = f' :: rest) (dst : left.dst = (s.thread u).dst)
    (before : f.At .malloced a) (after : f'.At .initialised a)
    (unused : s.heap.vhBuff fields.vhBuff = false) :
    BufferInv ((s.put u (s.heap.init2 a fields) left).Filled objects)
      (s.heap.init2 a fields) := by
  have held : f.objectIn ResourceStage.pending = some a := AccFrame.objectIn_at before rfl
  have empty : f.filled = none := AccFrame.objectIn_none (by rw [before.1]; rfl)
  obtain ⟨out, nobody⟩ := inv.only (AccThread.mem_objectsIn (running ▸ List.mem_cons_self) held)
  have now : left.filled = a :: (s.thread u).filled :=
    AccThread.objectsIn_drop frames running dst.symm (AccFrame.objectIn_at after rfl) empty
  have new : a ∉ (s.thread u).filled := by
    -- the object is the first of the pending ones, and those with buffers are among the others
    let later : AccThread := { s.thread u with frames := rest }
    have pending : (s.thread u).pending = a :: later.pending := by
      refine (AccThread.objectsIn_cons running).trans ?_
      rw [held]
      rfl
    have same : later.filled = (s.thread u).filled :=
      AccThread.objectsIn_return running rfl rfl (by rw [before.1]; rfl)
    obtain ⟨once, _⟩ := List.nodup_cons.mp (pending ▸ (inv.threads u).distinct)
    exact fun member => once (AccThread.filled_sublist.subset (same ▸ member))
  refine buffers.init2 (fun full => ?_) unused (fun b => ?_)
  · rcases filled_split.mp full with inside | own | others
    · exact out inside
    · exact new own
    · exact nobody others
  · rw [filled_put, filled_split, now, List.mem_cons]
    tauto

theorem BufferInv.loses (inv : ResourceInv objects s)
    (buffers : BufferInv (s.Filled objects) s.heap)
    (whole : (s.thread u).filled = a :: left.filled) :
    BufferInv ((s.put u (s.heap.releaseResource a) left).Filled objects)
      (s.heap.releaseResource a) := by
  have member : a ∈ (s.thread u).filled := whole ▸ List.mem_cons_self
  obtain ⟨out, nobody⟩ := inv.only (AccThread.filled_sublist.subset member)
  have once : a ∉ left.filled := by
    have nodup := (inv.threads u).distinct.sublist AccThread.filled_sublist
    rw [whole] at nodup
    exact (List.nodup_cons.mp nodup).1
  refine buffers.releaseResource (filled_split.mpr (Or.inr (Or.inl member))) (fun b => ?_)
  rw [filled_put, filled_split, whole, List.mem_cons]
  by_cases same : b = a
  · subst same
    simp only [ne_eq, not_true_eq_false, and_false, iff_false]
    rintro (inside | own | others)
    · exact out inside
    · exact once own
    · exact nobody others
  · simp [same]

theorem BufferInv.links (buffers : BufferInv (s.Filled objects) s.heap)
    (whole : (s.thread u).filled = a :: left.filled) :
    BufferInv ((s.put u (s.heap.linkHead a) left).Filled (a :: objects)) (s.heap.linkHead a) := by
  have same := ResourceHeap.linkHead_sameBut (h := s.heap) (a := a)
  refine buffers.congr (fun b => ?_) (fun b _ => same.fields b) same.vhBuff
  rw [filled_put, filled_split, whole, List.mem_cons, List.mem_cons]
  tauto

theorem BufferInv.unlinks (buffers : BufferInv (s.Filled objects) s.heap)
    (inside : a ∈ objects) (nodup : objects.Nodup) (none : (s.thread u).filled = [])
    (now : left.filled = [a]) :
    BufferInv ((s.put u (s.heap.unlink a) left).Filled (objects.erase a)) (s.heap.unlink a) := by
  have same := ResourceHeap.unlink_sameBut (h := s.heap) (a := a)
  refine buffers.congr (fun b => ?_) (fun b _ => same.fields b) same.vhBuff
  rw [filled_put, filled_split, none, now, nodup.mem_erase_iff, List.mem_singleton]
  by_cases here : b = a
  · subst here
    simp [inside]
  · simp [here]

theorem BufferInv.callMove {op : ResourceOp} {key : Option ObjectId} {frames : List AccFrame}
    (inv : ResourceInv objects s) (buffers : BufferInv (s.Filled objects) s.heap)
    (running : (s.thread u).frames = f :: rest) (dst : left.dst = (s.thread u).dst)
    (frames' : left.frames = frames)
    (move : CallMove s.heap (s.thread u).key f rest op h' key frames) :
    BufferInv ((s.put u h' left).Filled (op.inserted objects)) h' := by
  cases move with
  | goesOn f' stage same =>
    refine buffers.goesOn (AccThread.objectsIn_same running frames' dst ?_) (fun _ _ => rfl) rfl
    exact AccFrame.objectIn_stays rfl stage same
  | letsGo f' before after =>
    refine buffers.goesOn (AccThread.objectsIn_same running frames' dst ?_) (fun _ _ => rfl) rfl
    rw [AccFrame.objectIn_none (by rw [after]; rfl), AccFrame.objectIn_none (by rw [before]; rfl)]
  | returns before =>
    exact buffers.goesOn (AccThread.objectsIn_return running frames' dst (by rw [before]; rfl))
      (fun _ _ => rfl) rfl
  | finds f' a found before after =>
    refine buffers.goesOn (AccThread.objectsIn_same running frames' dst ?_) (fun _ _ => rfl) rfl
    rw [AccFrame.objectIn_none (by rw [after.1]; rfl), AccFrame.objectIn_none (by rw [before]; rfl)]
  | mallocs f' before after =>
    refine buffers.goesOn (AccThread.objectsIn_same running frames' dst ?_) (fun _ _ => rfl) rfl
    rw [AccFrame.objectIn_none (by rw [after.1]; rfl), AccFrame.objectIn_none (by rw [before]; rfl)]
  | frees f' a before after =>
    refine buffers.goesOn (AccThread.objectsIn_same running frames' dst ?_) (fun _ _ => rfl) rfl
    rw [AccFrame.objectIn_none (by rw [after]; rfl), AccFrame.objectIn_none (by rw [before.1]; rfl)]
  | init2 f' a fields before after new =>
    exact BufferInv.gains inv buffers running frames' dst before after new
  | sets f' a before after =>
    refine buffers.goesOn (AccThread.objectsIn_same running frames' dst ?_) (fun _ _ => rfl) rfl
    rw [AccFrame.objectIn_at after rfl, AccFrame.objectIn_at before rfl]
  | fails f' before after same =>
    refine buffers.goesOn (AccThread.objectsIn_same running frames' dst ?_) (fun _ _ => rfl) rfl
    rw [AccFrame.objectIn, AccFrame.objectIn, before, after, same]
    rfl
  | releases f' a before after =>
    exact BufferInv.loses inv buffers (AccThread.objectsIn_drop running frames' dst
      (AccFrame.objectIn_at before rfl) (AccFrame.objectIn_none (by rw [after]; rfl)))
  | inserts f' a before after =>
    exact buffers.links (AccThread.objectsIn_drop running frames' dst
      (AccFrame.objectIn_at before rfl) (AccFrame.objectIn_none (by rw [after.1]; rfl)))
  | transfers f' event before after same =>
    refine buffers.goesOn (AccThread.objectsIn_same running frames' dst ?_) (fun _ _ => rfl) rfl
    have none : f'.stage.filled = false := by
      rcases after with after | after
      · rw [after]; rfl
      · rw [after]; rfl
    rw [AccFrame.objectIn_none none, AccFrame.objectIn_none (by rw [before]; rfl)]

theorem BufferInv.step {op : ResourceOp} {s' : AccProcess Thread} (inv : ResourceInv objects s)
    (buffers : BufferInv (s.Filled objects) s.heap) (move : ProcessMove s op s') :
    BufferInv (s'.Filled (op.inserted objects)) s'.heap := by
  cases move with
  | calls u left f new frames key dst =>
    exact buffers.goesOn (AccThread.objectsIn_call frames dst (by rw [new]; rfl))
      (fun _ _ => rfl) rfl
  | moves u left f rest op h' running dst move =>
    exact BufferInv.callMove inv buffers running dst rfl move
  | exits u left a quiet before key frames key' after =>
    refine buffers.goesOn ?_ (fun _ _ => rfl) rfl
    rw [AccThread.filled, AccThread.filled, AccThread.objectsIn_quiet frames,
      AccThread.objectsIn_quiet quiet, before, after]
    rfl
  | unlinks u left a quiet before frames key after =>
    refine buffers.unlinks ((inv.threads u).leaving a before).1 inv.heap.listed.nodup ?_ ?_
    · exact (AccThread.objectsIn_quiet quiet).trans (by rw [before]; rfl)
    · exact (AccThread.objectsIn_quiet frames).trans (by rw [after]; rfl)
  | releases u left a quiet before frames key after =>
    refine BufferInv.loses inv buffers ?_
    rw [AccThread.filled, AccThread.filled, AccThread.objectsIn_quiet quiet,
      AccThread.objectsIn_quiet frames, before, after]
    rfl

/-! ## The handler of a child -/

omit [DecidableEq Thread] in
theorem filled_noneBetween (none : NoneBetween s) : s.Filled objects a ↔ a ∈ objects := by
  refine ⟨?_, Or.inl⟩
  rintro (inside | ⟨v, member⟩)
  · exact inside
  · rw [none v] at member
    exact absurd member List.not_mem_nil

theorem forkReleases_count {v : Nat} :
    ((h.forkReleases objects).flatMap Prod.snd).count (.freeVhBuf v) =
      (objects.map fun a => (h.node a).fields.vhBuff).count v := by
  induction objects with
  | nil => rfl
  | cons a objects ih =>
    have tail : ((h.forkReleases (a :: objects)).flatMap Prod.snd) =
        .freeVhBuf (h.node a).fields.vhBuff :: (h.forkReleases objects).flatMap Prod.snd := rfl
    rw [tail, List.map_cons, List.count_cons, List.count_cons, ih]
    by_cases same : (h.node a).fields.vhBuff = v
    · simp [same]
    · simp [same]

omit [DecidableEq Thread] in
/-- The handler frees what the parent has, each buffer once, unless a thread is between. -/
theorem frees_inherited_iff (inv : ResourceInv objects s)
    (buffers : BufferInv (s.Filled objects) s.heap) :
    FreesInherited s (s.heap.forkReleases objects) ↔ NoneBetween s := by
  constructor
  · intro frees t
    by_contra some'
    obtain ⟨a, member⟩ := List.exists_mem_of_ne_nil _ some'
    have full : s.Filled objects a := Or.inr ⟨t, member⟩
    have once := frees _ ((buffers.allocated _).mpr ⟨a, full, rfl⟩)
    rw [forkReleases_count] at once
    have listed : (s.heap.node a).fields.vhBuff ∈
        objects.map fun b => (s.heap.node b).fields.vhBuff :=
      List.count_pos_iff.mp (once ▸ Nat.one_pos)
    obtain ⟨b, inside, same⟩ := List.mem_map.mp listed
    obtain rfl := buffers.own b a (Or.inl inside) full same
    exact ((inv.threads t).pending b (AccThread.filled_sublist.subset member)).2 inside
  · intro none v allocated
    obtain ⟨a, full, rfl⟩ := (buffers.allocated v).mp allocated
    have inside := (filled_noneBetween none).mp full
    have nodup : (objects.map fun b => (s.heap.node b).fields.vhBuff).Nodup := by
      refine inv.heap.listed.nodup.map_on fun b first c second same => ?_
      exact buffers.own b c (Or.inl first) (Or.inl second) same
    rw [forkReleases_count]
    exact List.count_eq_one_of_mem nodup (List.mem_map.mpr ⟨a, inside, rfl⟩)

theorem BufferInv.fork {child : AccProcess Thread} {u : Thread}
    (buffers : BufferInv (s.Filled objects) s.heap) (none : NoneBetween s)
    (forked : ForkedFrom s objects u child) : BufferInv (child.Filled []) child.heap := by
  have nothing : ∀ a, ¬ child.Filled [] a := by
    rintro a (inside | ⟨v, member⟩)
    · exact absurd inside List.not_mem_nil
    · by_cases same : v = u
      · have caller : (child.thread u).filled = (s.thread u).filled := by
          rw [forked.caller]
          rfl
        rw [same, caller, none u] at member
        exact absurd member List.not_mem_nil
      · rw [forked.others v same] at member
        exact absurd member List.not_mem_nil
  refine ⟨fun v => ?_, fun a b here => absurd here (nothing a)⟩
  have after : child.heap.vhBuff v = true ↔
      s.heap.vhBuff v = true ∧ ∀ b ∈ objects, (s.heap.node b).fields.vhBuff ≠ v := by
    rw [forked.heap]
    exact afterRelease_vhBuff
  rw [after, buffers.allocated]
  constructor
  · rintro ⟨⟨a, full, same⟩, differ⟩
    exact absurd same (differ a ((filled_noneBetween none).mp full))
  · rintro ⟨a, here, _⟩
    exact absurd here (nothing a)

/-! ## The run -/

structure InheritInv (R : ResourceRecord) (s : AccProcess Thread) : Prop where
  resources : ResourceInv R.inserted s
  buffers : BufferInv (s.Filled R.inserted) s.heap

omit [DecidableEq Thread] in
theorem inheritInv_initial (node : ObjectId → ResourceNode) :
    InheritInv .blank (AccProcess.initial node : AccProcess Thread) := by
  have nothing : ∀ a, ¬ (AccProcess.initial node : AccProcess Thread).Filled [] a := by
    rintro a (inside | ⟨v, member⟩)
    · exact absurd inside List.not_mem_nil
    · exact absurd member List.not_mem_nil
  refine ⟨resourceInv_initial node, fun v => ?_, fun a b here => absurd here (nothing a)⟩
  constructor
  · intro allocated
    exact absurd allocated Bool.false_ne_true
  · rintro ⟨a, here, _⟩
    exact absurd here (nothing a)

variable {R : ResourceRecord} {env : Env} {pdma : Bool}

theorem InheritInv.event (e : AccEvent Thread) (inv : InheritInv R e.source)
    (happens : (accForking Thread env pdma).Happens e) (between : ForksBetweenNone R e) :
    InheritInv (R.observe e) e.target := by
  cases e with
  | step s label op s' =>
    have move : ProcessMove s op s' := process_move happens
    have resources := inv.resources.step move
    have buffers := BufferInv.step inv.resources inv.buffers move
    have same : (R.observe (.step s label op s')).inserted = op.inserted R.inserted :=
      observe_inserted label
    rw [← same] at resources buffers
    exact ⟨resources, buffers⟩
  | fork s how released child =>
    have inv : InheritInv R s := inv
    obtain ⟨outside, none⟩ := between
    obtain ⟨rfl, forked⟩ := inv.resources.fork_eq happens
    have elsewhere : ∀ a, (s.thread how.thread).dst ≠ .unlink a := by
      intro a leaving
      exact absurd (outside.symm.trans leaving) (by simp)
    exact ⟨inv.resources.fork elsewhere forked, inv.buffers.fork none forked⟩

theorem InheritInv.frees (e : AccEvent Thread) (inv : InheritInv R e.source)
    (happens : (accForking Thread env pdma).Happens e) (between : ForksBetweenNone R e) :
    ForksFreeInherited R e := by
  cases e with
  | step s label op s' => trivial
  | fork s how released child =>
    have inv : InheritInv R s := inv
    obtain ⟨rfl, forked⟩ := inv.resources.fork_eq happens
    exact (frees_inherited_iff inv.resources inv.buffers).mpr between.2

/-- In every run in which no thread of a forking process is between `INIT2` and the insertion or
between the unlinking and the release, the handlers of the children free what the children
inherit.  After such a run a further fork does so if and only if no thread is between. -/
theorem fork_frees_inherited_iff [DecidableEq Process] (env : Env) (pdma : Bool) (p : Process)
    (node : ObjectId → ResourceNode) (trace : List (AccEntry Process Thread))
    (final : Process → Option (AccProcess Thread)) (run : AccRun env pdma p node trace final)
    (between : AccSafe ForksBetweenNone trace) :
    AccSafe ForksFreeInherited trace ∧
      ∀ q s how released child, final q = some s → s.fork how = some (released, child) →
        (FreesInherited s released ↔ NoneBetween s) := by
  constructor
  · exact Forking.family_guarantee (inheritInv_initial node) (fun _ => InheritInv.event)
      (fun _ => InheritInv.frees) run between
  · intro q s how released child here forks
    have inv := Forking.family_invariant (inheritInv_initial node) (fun _ => InheritInv.event) run
      between q s here
    obtain ⟨rfl, _⟩ := inv.resources.fork_eq forks
    exact frees_inherited_iff inv.resources inv.buffers

instance [Fintype Thread] (s : AccProcess Thread) : Decidable (NoneBetween s) :=
  inferInstanceAs (Decidable (∀ t, (s.thread t).filled = []))

instance decidableForksBetweenNone [Fintype Thread] (R : ResourceRecord) :
    (e : AccEvent Thread) → Decidable (ForksBetweenNone R e)
  | .fork parent how _ _ => inferInstanceAs
    (Decidable ((parent.thread how.thread).dst = .outside ∧ NoneBetween parent))
  | .step _ _ _ _ => isTrue trivial

/-- A thread forks while another one exits, before it unlinks its object; then the child's first
call has got its buffers. -/
def exitingLabels : List (FamilyLabel Nat (AccLabel Bool) (ForkCall Bool)) :=
  steps 0 true (firstCall 100 ++ lastSteps) ++ steps 0 false (firstCall 200) ++
    [.step 0 (.exit true), .fork 0 ⟨false, 2⟩ 1] ++ steps 1 false lastSteps ++
    steps 1 false ((firstCall 100).take 8)

theorem fork_frees_inherited_exiting :
    ∃ trace final s, (accForking Bool (.steady 0) false).family.exec aloneAtFirst exitingLabels =
        some (trace, final) ∧ final 1 = some s ∧ s.heap.vhBuff 100 = true ∧
      AccSafe ForksFreeInherited trace ∧
      ∀ how released child, s.fork how = some (released, child) → ¬ FreesInherited s released := by
  have checked : ((accForking Bool (.steady 0) false).family.exec aloneAtFirst exitingLabels).any
      (fun done => (done.2 1).any (fun s => s.heap.vhBuff 100 && decide (¬ NoneBetween s)) &&
        decide ((Forking.members ResourceRecord.blank ResourceRecord.observe
          ForksBetweenNone).SafeFrom (fun _ => .blank) done.1)) = true := by
    decide +kernel
  rw [Option.any_eq_true] at checked
  obtain ⟨⟨trace, final⟩, ran, holds⟩ := checked
  rw [Bool.and_eq_true, Option.any_eq_true] at holds
  obtain ⟨⟨s, here, now⟩, safe⟩ := holds
  rw [Bool.and_eq_true] at now
  obtain ⟨frees, exactly⟩ := fork_frees_inherited_iff (.steady 0) false 0 _ trace final
    (Machine.exec_run ran) (Monitor.safe_of_safeFrom _ trace (of_decide_eq_true safe))
  refine ⟨trace, final, s, ran, here, now.1, frees, fun how released child forks => ?_⟩
  rw [exactly 1 s how released child here forks]
  exact of_decide_eq_true now.2

/-- A thread forks when another one has got its buffers from `INIT2`. -/
def betweenLabels : List (FamilyLabel Nat (AccLabel Bool) (ForkCall Bool)) :=
  steps 0 true ((firstCall 100).take 8) ++ [.fork 0 ⟨false, 0⟩ 1]

theorem fork_leaves_inherited :
    ¬ ∀ (trace : List (AccEntry Nat Bool)) (final : Nat → Option (AccProcess Bool)),
      AccRun (.steady 0) false 0 (fun _ => ⟨.sample, none, none⟩) trace final →
        AccSafe ForksOutsideExit trace → AccSafe ForksFreeInherited trace := by
  intro claim
  have checked : ((accForking Bool (.steady 0) false).family.exec aloneAtFirst betweenLabels).any
      (fun done => done.1.getLast?.any (fun e => match e.out with
          | .fork parent _ released _ => parent.heap.vhBuff 100 &&
            decide ((released.flatMap Prod.snd).count (.freeVhBuf 100) = 0)
          | .step _ _ _ _ => false) &&
        decide ((Forking.members ResourceRecord.blank ResourceRecord.observe
          ForksOutsideExit).SafeFrom (fun _ => .blank) done.1)) = true := by
    decide +kernel
  rw [Option.any_eq_true] at checked
  obtain ⟨⟨trace, final⟩, ran, holds⟩ := checked
  rw [Bool.and_eq_true, Option.any_eq_true] at holds
  obtain ⟨⟨e, last, forked⟩, safe⟩ := holds
  have frees := (claim trace final (Machine.exec_run ran)
    (Monitor.safe_of_safeFrom _ trace (of_decide_eq_true safe))).last last
  obtain ⟨before, label, event, after⟩ := e
  cases event with
  | step s label op s' => exact absurd forked (by simp)
  | fork parent how released child =>
    have forked : (parent.heap.vhBuff 100 &&
      decide ((released.flatMap Prod.snd).count (.freeVhBuf 100) = 0)) = true := forked
    rw [Bool.and_eq_true] at forked
    have once : (released.flatMap Prod.snd).count (.freeVhBuf 100) = 1 := frees 100 forked.1
    rw [of_decide_eq_true forked.2] at once
    exact absurd once (by decide)

end Libsysve.AccIo
