import Libsysve.AccIo.Resources

/-!
# Who has which object

An object is in the list, or one call or one exiting thread has it.  The invariant holds of
every process, also of the children of forks from inside a call.
-/

set_option autoImplicit false

namespace Libsysve.AccIo

/-- What an observer has of a process: the objects that were inserted and not unlinked yet,
the last one first, those that were released, those that a successful `INIT2` of this process
has filled, and those that a handler of a child has released. -/
structure ResourceRecord where
  inserted : List ObjectId
  released : List ObjectId
  filled : List ObjectId
  atFork : List ObjectId
deriving DecidableEq

def ResourceRecord.blank : ResourceRecord where
  inserted := []
  released := []
  filled := []
  atFork := []

def ResourceRecord.observe {Thread : Type} (R : ResourceRecord) :
    AccEvent Thread → ResourceRecord
  | .step _ _ (.init2 a) _ => { R with filled := a :: R.filled }
  | .step _ _ (.insert a) _ => { R with inserted := a :: R.inserted }
  | .step _ _ (.unlink a) _ => { R with inserted := R.inserted.erase a }
  | .step _ _ (.release a _) _ => { R with released := a :: R.released }
  | .step _ _ _ _ => R
  | .fork _ _ released _ =>
    let objects := released.map Prod.fst
    { inserted := [], released := objects, filled := [], atFork := objects ++ R.atFork }

abbrev AccEntry (Process Thread : Type) :=
  Forking.FamilyEntry Process (AccProcess Thread) (AccLabel Thread) (ForkCall Thread) ResourceOp
    (List (ObjectId × List SysveCall))

abbrev AccRun {Process Thread : Type} [DecidableEq Process] [DecidableEq Thread] (env : Env)
    (constructorPdma : Bool) (p : Process) (node : ObjectId → ResourceNode)
    (trace : List (AccEntry Process Thread)) (final : Process → Option (AccProcess Thread)) :
    Prop :=
  (accForking Thread env constructorPdma).family.Run (Forking.alone p (.initial node)) trace final

abbrev accRecords {Process Thread : Type} [DecidableEq Process]
    (trace : List (AccEntry Process Thread)) : Process → ResourceRecord :=
  trace.foldl (Forking.observeMembers ResourceRecord.observe) fun _ => .blank

abbrev AccSafe {Process Thread : Type} [DecidableEq Process]
    (allowed : ResourceRecord → AccEvent Thread → Prop) (trace : List (AccEntry Process Thread)) :
    Prop :=
  (Forking.members ResourceRecord.blank ResourceRecord.observe allowed).Safe trace

/-! ## The invariant -/

/-- The stages in which the object is in nobody else's hands. -/
def ResourceStage.pending : ResourceStage → Bool
  | .malloced | .initialised | .unset | .set => true
  | .nothing | .inUse => false

def AccFrame.objectIn (which : ResourceStage → Bool) (f : AccFrame) : Option ObjectId :=
  if which f.stage then f.accIoRes else none

def DstPoint.releasing : DstPoint → List ObjectId
  | .release a => [a]
  | _ => []

/-- The objects of the calls in the stages `which`, and the one that is about to be released. -/
def AccThread.objectsIn (which : ResourceStage → Bool) (t : AccThread) : List ObjectId :=
  t.frames.filterMap (AccFrame.objectIn which) ++ t.dst.releasing

abbrev AccFrame.pending (f : AccFrame) : Option ObjectId := f.objectIn ResourceStage.pending

/-- The objects that the thread will link or give back, none of them linked. -/
abbrev AccThread.pending (t : AccThread) : List ObjectId := t.objectsIn ResourceStage.pending

def AccThread.Mine (t : AccThread) (a : ObjectId) : Prop :=
  a ∈ t.pending ∨ t.dst = .unlink a ∨ t.key = some a

/-- The list is what was inserted; an object that is not freed was allocated. -/
structure HeapInv (objects : List ObjectId) (h : ResourceHeap) : Prop where
  listed : Listed h objects
  linked : ∀ a ∈ objects, h.live a = true
  bound : ∀ a, h.live a = true → a < h.malloced

structure ThreadInv (objects : List ObjectId) (h : ResourceHeap) (t : AccThread) : Prop where
  distinct : t.pending.Nodup
  pending : ∀ a ∈ t.pending, h.live a = true ∧ a ∉ objects
  leaving : ∀ a, t.dst = .unlink a → a ∈ objects ∧ t.key ≠ some a
  keyed : ∀ a, t.key = some a → a ∈ objects ∨ ∃ f ∈ t.frames, f.At .set a

structure ResourceInv {Thread : Type} (objects : List ObjectId) (s : AccProcess Thread) :
    Prop where
  heap : HeapInv objects s.heap
  threads : ∀ t, ThreadInv objects s.heap (s.thread t)
  apart : ∀ t u a, (s.thread t).Mine a → (s.thread u).Mine a → t = u

variable {Thread : Type} {objects objects' : List ObjectId} {h h' : ResourceHeap}
  {t left : AccThread} {f f' : AccFrame} {rest : List AccFrame} {a : ObjectId}

section
variable {which : ResourceStage → Bool}

theorem AccFrame.objectIn_none (out : which f.stage = false) : f.objectIn which = none :=
  if_neg (by simp [out])

theorem AccFrame.objectIn_at {stage : ResourceStage} (here : f.At stage a)
    (inside : which stage = true) : f.objectIn which = some a := by
  rw [AccFrame.objectIn, here.1, if_pos inside, here.2]

theorem AccFrame.objectIn_stays (idle : which .nothing = false) (stage : f'.stage = f.stage)
    (same : f.stage ≠ .nothing → f'.accIoRes = f.accIoRes) :
    f'.objectIn which = f.objectIn which := by
  by_cases none : f.stage = .nothing
  · rw [AccFrame.objectIn_none (by rw [stage, none, idle]),
      AccFrame.objectIn_none (by rw [none, idle])]
  · rw [AccFrame.objectIn, AccFrame.objectIn, stage, same none]

theorem AccThread.objectsIn_cons (running : t.frames = f :: rest) :
    t.objectsIn which = (f.objectIn which).toList ++
      (rest.filterMap (AccFrame.objectIn which) ++ t.dst.releasing) := by
  rw [AccThread.objectsIn, running, ← List.append_assoc]
  cases here : f.objectIn which with
  | none => rw [List.filterMap_cons_none here]; rfl
  | some b => rw [List.filterMap_cons_some here]; rfl

theorem AccThread.mem_objectsIn (held : f ∈ t.frames) (here : f.objectIn which = some a) :
    a ∈ t.objectsIn which :=
  List.mem_append_left _ (List.mem_filterMap.mpr ⟨f, held, here⟩)

theorem AccThread.objectsIn_same (running : t.frames = f :: rest)
    (frames : left.frames = f' :: rest) (dst : left.dst = t.dst)
    (same : f'.objectIn which = f.objectIn which) : left.objectsIn which = t.objectsIn which := by
  rw [AccThread.objectsIn_cons running, AccThread.objectsIn_cons frames, dst, same]

theorem AccThread.objectsIn_drop (running : t.frames = f :: rest)
    (frames : left.frames = f' :: rest) (dst : left.dst = t.dst)
    (before : f.objectIn which = some a) (after : f'.objectIn which = none) :
    t.objectsIn which = a :: left.objectsIn which := by
  rw [AccThread.objectsIn_cons running, AccThread.objectsIn_cons frames, dst, before, after]
  rfl

theorem AccThread.objectsIn_return (running : t.frames = f :: rest) (frames : left.frames = rest)
    (dst : left.dst = t.dst) (out : which f.stage = false) :
    left.objectsIn which = t.objectsIn which := by
  rw [AccThread.objectsIn_cons running, AccFrame.objectIn_none out, AccThread.objectsIn, frames,
    dst]
  rfl

theorem AccThread.objectsIn_quiet (quiet : t.frames = []) :
    t.objectsIn which = t.dst.releasing := by
  rw [AccThread.objectsIn, quiet]
  rfl

theorem AccThread.objectsIn_call (frames : left.frames = f :: t.frames) (dst : left.dst = t.dst)
    (out : which f.stage = false) : left.objectsIn which = t.objectsIn which :=
  (AccThread.objectsIn_return frames rfl dst.symm out).symm

end

theorem threadInv_blank : ThreadInv objects h AccThread.blank where
  distinct := List.nodup_nil
  pending a member := absurd member List.not_mem_nil
  leaving a dst := absurd dst (by simp [AccThread.blank])
  keyed a key := absurd key (by simp [AccThread.blank])

theorem blank_not_mine : ¬ AccThread.blank.Mine a := by
  rintro (pending | dst | key)
  · exact absurd pending List.not_mem_nil
  · exact absurd dst (by simp [AccThread.blank])
  · exact absurd key (by simp [AccThread.blank])

theorem resourceInv_initial (node : ObjectId → ResourceNode) :
    ResourceInv [] (AccProcess.initial node : AccProcess Thread) where
  heap :=
    { listed := ⟨rfl, trivial, trivial, List.nodup_nil⟩
      linked := by simp
      bound := by simp [AccProcess.initial] }
  threads _ := threadInv_blank
  apart _ _ _ mine _ := absurd mine blank_not_mine

theorem ThreadInv.frame (inv : ThreadInv objects h t)
    (keeps : ∀ a, t.Mine a →
      (h.live a = true → h'.live a = true) ∧ (a ∈ objects' ↔ a ∈ objects)) :
    ThreadInv objects' h' t where
  distinct := inv.distinct
  pending a member := by
    obtain ⟨live, out⟩ := inv.pending a member
    obtain ⟨stays, same⟩ := keeps a (Or.inl member)
    exact ⟨stays live, fun inside => out (same.mp inside)⟩
  leaving a dst := by
    obtain ⟨inside, other⟩ := inv.leaving a dst
    exact ⟨(keeps a (Or.inr (Or.inl dst))).2.mpr inside, other⟩
  keyed a key :=
    (inv.keyed a key).imp_left (keeps a (Or.inr (Or.inr key))).2.mpr

variable [DecidableEq Thread]

theorem ResourceInv.put {s : AccProcess Thread} (inv : ResourceInv objects s) (u : Thread)
    (heap : HeapInv objects' h') (own : ThreadInv objects' h' left)
    (mine : ∀ a, left.Mine a → (s.thread u).Mine a ∨ ∀ v, ¬ (s.thread v).Mine a)
    (keeps : ∀ a, ¬ (s.thread u).Mine a →
      (s.heap.live a = true → h'.live a = true) ∧ (a ∈ objects' ↔ a ∈ objects)) :
    ResourceInv objects' (s.put u h' left) := by
  have alone : ∀ v a, v ≠ u → (s.thread v).Mine a → ¬ left.Mine a := by
    intro v a other held new
    rcases mine a new with old | nobody
    · exact other (inv.apart v u a held old)
    · exact nobody v held
  refine ⟨heap, fun v => ?_, fun v w a held held' => ?_⟩
  · by_cases same : v = u
    · rw [same, AccProcess.put_self]
      exact own
    · rw [AccProcess.put_other same]
      refine (inv.threads v).frame fun a held => keeps a fun taken => ?_
      exact same (inv.apart v u a held taken)
  · by_cases first : v = u
    · by_cases second : w = u
      · exact first.trans second.symm
      · rw [first, AccProcess.put_self] at held
        rw [AccProcess.put_other second] at held'
        exact absurd held (alone w a second held')
    · rw [AccProcess.put_other first] at held
      by_cases second : w = u
      · rw [second, AccProcess.put_self] at held'
        exact absurd held' (alone v a first held)
      · rw [AccProcess.put_other second] at held'
        exact inv.apart v w a held held'

/-! ## The memory after each operation -/

theorem HeapInv.malloc (inv : HeapInv objects h) : HeapInv objects h.malloc where
  listed := inv.listed
  linked a member := by
    have old : a ≠ h.malloced := Nat.ne_of_lt (inv.bound a (inv.linked a member))
    exact (Function.update_of_ne old ..).trans (inv.linked a member)
  bound a live := by
    by_cases new : a = h.malloced
    · rw [new]
      exact Nat.lt_succ_self _
    · have before : h.live a = true := (Function.update_of_ne new ..).symm.trans live
      exact Nat.lt_succ_of_lt (inv.bound a before)

theorem malloc_live (live : h.live a = true) : h.malloc.live a = true := by
  by_cases new : a = h.malloced
  · rw [new]
    exact Function.update_self ..
  · exact (Function.update_of_ne new ..).trans live

omit [DecidableEq Thread] in
theorem ResourceInv.not_mine_new {s : AccProcess Thread} (inv : ResourceInv objects s)
    (v : Thread) :
    ¬ (s.thread v).Mine s.heap.malloced := by
  have unborn : s.heap.live s.heap.malloced ≠ true :=
    fun live => absurd (inv.heap.bound _ live) (Nat.lt_irrefl _)
  have own := inv.threads v
  rintro (pending | dst | key)
  · exact unborn (own.pending _ pending).1
  · exact unborn (inv.heap.linked _ (own.leaving _ dst).1)
  · rcases own.keyed _ key with inside | ⟨f, held, set⟩
    · exact unborn (inv.heap.linked _ inside)
    · exact unborn (own.pending _ (AccThread.mem_objectsIn held (f.objectIn_at set rfl))).1

theorem HeapInv.free (inv : HeapInv objects h) (out : a ∉ objects) :
    HeapInv objects (h.free a) where
  listed := inv.listed
  linked b member := by
    have other : b ≠ a := fun same => out (same ▸ member)
    exact (Function.update_of_ne other ..).trans (inv.linked b member)
  bound b live := by
    by_cases same : b = a
    · have dead : (h.free a).live b = false := same ▸ Function.update_self ..
      exact absurd (dead.symm.trans live) Bool.false_ne_true
    · exact inv.bound b ((Function.update_of_ne same ..).symm.trans live)

theorem free_live {b : ObjectId} (other : b ≠ a) (live : h.live b = true) :
    (h.free a).live b = true :=
  (Function.update_of_ne other ..).trans live

theorem HeapInv.releaseResource (inv : HeapInv objects h) (out : a ∉ objects) :
    HeapInv objects (h.releaseResource a) := by
  have before : HeapInv objects
      { h with vhBuff := Function.update h.vhBuff (h.node a).fields.vhBuff false } :=
    ⟨inv.listed, inv.linked, inv.bound⟩
  exact before.free out

theorem releaseResource_live {b : ObjectId} (other : b ≠ a) (live : h.live b = true) :
    (h.releaseResource a).live b = true :=
  (Function.update_of_ne other ..).trans live

theorem HeapInv.init2 {fields : AccIoResources} (inv : HeapInv objects h) (out : a ∉ objects) :
    HeapInv objects (h.init2 a fields) where
  listed := by
    refine inv.listed.congr (fun b member => ?_) rfl
    have other : b ≠ a := fun same => out (same ▸ member)
    exact Function.update_of_ne other ..
  linked := inv.linked
  bound := inv.bound

theorem HeapInv.linkHead (inv : HeapInv objects h) (out : a ∉ objects) (live : h.live a = true) :
    HeapInv (a :: objects) (h.linkHead a) := by
  obtain ⟨_, sameLive, sameCount, _⟩ := ResourceHeap.linkHead_sameBut (h := h) (a := a)
  refine ⟨inv.listed.linkHead out, ?_, ?_⟩
  · rw [sameLive]
    exact List.forall_mem_cons.mpr ⟨live, inv.linked⟩
  · rw [sameLive, sameCount]
    exact inv.bound

theorem HeapInv.unlink (inv : HeapInv objects h) (member : a ∈ objects) :
    HeapInv (objects.erase a) (h.unlink a) := by
  obtain ⟨_, sameLive, sameCount, _⟩ := ResourceHeap.unlink_sameBut (h := h) (a := a)
  refine ⟨inv.listed.unlink member, ?_, ?_⟩
  · rw [sameLive]
    exact fun b inside => inv.linked b (List.mem_of_mem_erase inside)
  · rw [sameLive, sameCount]
    exact inv.bound

/-! ## The thread after each step of a call -/

theorem ThreadInv.fewer (inv : ThreadInv objects h t) (pending : left.pending.Sublist t.pending)
    (held : ∀ a ∈ left.pending, h'.live a = true ∧ a ∉ objects') (dst : left.dst = t.dst)
    (key : left.key = t.key) (more : ∀ a ∈ objects, a ∈ objects')
    (set : ∀ a, (∃ f ∈ t.frames, f.At .set a) → a ∈ objects' ∨ ∃ f ∈ left.frames, f.At .set a) :
    ThreadInv objects' h' left where
  distinct := inv.distinct.sublist pending
  pending := held
  leaving a left' := by
    obtain ⟨inside, other⟩ := inv.leaving a (dst ▸ left')
    exact ⟨more a inside, key ▸ other⟩
  keyed a here := by
    rcases inv.keyed a (key ▸ here) with inside | setting
    · exact Or.inl (more a inside)
    · exact set a setting

theorem ResourceInv.goesOn {s : AccProcess Thread} (inv : ResourceInv objects s) (u : Thread)
    (heap : HeapInv objects h') (live : h'.live = s.heap.live) (dst : left.dst = (s.thread u).dst)
    (key : left.key = (s.thread u).key) (same : left.pending = (s.thread u).pending)
    (set : ∀ a, (∃ f ∈ (s.thread u).frames, f.At .set a) → ∃ f ∈ left.frames, f.At .set a) :
    ResourceInv objects (s.put u h' left) := by
  refine inv.put u heap ?_ (fun a mine => Or.inl ?_) (fun a _ => ⟨?_, Iff.rfl⟩)
  · refine (inv.threads u).fewer (same ▸ List.Sublist.refl _) ?_ dst key (fun _ inside => inside)
      (fun a setting => Or.inr (set a setting))
    rw [live, same]
    exact (inv.threads u).pending
  · rwa [AccThread.Mine, same, dst, key] at mine
  · rw [live]
    exact id

theorem ResourceInv.parts {s : AccProcess Thread} (inv : ResourceInv objects s) (u : Thread)
    (running : (s.thread u).frames = f :: rest) (frames : left.frames = f' :: rest)
    (dst : left.dst = (s.thread u).dst) (key : left.key = (s.thread u).key)
    (before : f.pending = some a) (after : f'.pending = none) (heap : HeapInv objects' h')
    (live : ∀ b, b ≠ a → s.heap.live b = true → h'.live b = true)
    (same : ∀ b, b ≠ a → (b ∈ objects' ↔ b ∈ objects)) (more : ∀ b ∈ objects, b ∈ objects')
    (set : f.At .set a → a ∈ objects') :
    ResourceInv objects' (s.put u h' left) := by
  have own := inv.threads u
  have whole : (s.thread u).pending = a :: left.pending :=
    AccThread.objectsIn_drop running frames dst before after
  obtain ⟨once, _⟩ := List.nodup_cons.mp (whole ▸ own.distinct)
  have mine : (s.thread u).Mine a := Or.inl (whole ▸ List.mem_cons_self)
  refine inv.put u heap ?_ (fun b held => Or.inl ?_) (fun b other => ?_)
  · refine own.fewer (whole ▸ List.sublist_cons_self a _) (fun b member => ?_) dst key more ?_
    · have other : b ≠ a := fun eq => once (eq ▸ member)
      obtain ⟨alive, out⟩ := own.pending b (whole ▸ List.mem_cons_of_mem a member)
      exact ⟨live b other alive, fun inside => out ((same b other).mp inside)⟩
    · rintro b ⟨g, held, here⟩
      rw [running] at held
      rcases List.mem_cons.mp held with rfl | later
      · have here' := (AccFrame.objectIn_at here rfl).symm.trans before
        obtain rfl := Option.some.inj here'
        exact Or.inl (set here)
      · rw [frames]
        exact Or.inr ⟨g, List.mem_cons_of_mem f' later, here⟩
  · rw [AccThread.Mine, dst, key] at held
    exact held.imp_left fun member => whole ▸ List.mem_cons_of_mem a member
  · have apart : b ≠ a := fun eq => other (eq ▸ mine)
    exact ⟨live b apart, same b apart⟩

theorem ResourceInv.mallocs {s : AccProcess Thread} (inv : ResourceInv objects s) (u : Thread)
    (running : (s.thread u).frames = f :: rest) (frames : left.frames = f' :: rest)
    (dst : left.dst = (s.thread u).dst) (key : left.key = (s.thread u).key)
    (before : f.stage = .nothing) (after : f'.At .malloced s.heap.malloced) :
    ResourceInv objects (s.put u s.heap.malloc left) := by
  have own := inv.threads u
  have none : f.pending = none := AccFrame.objectIn_none (by rw [before]; rfl)
  have whole : left.pending = s.heap.malloced :: (s.thread u).pending :=
    AccThread.objectsIn_drop frames running dst.symm (AccFrame.objectIn_at after rfl) none
  have new : s.heap.malloced ∉ (s.thread u).pending :=
    fun member => inv.not_mine_new u (Or.inl member)
  have unlinked : s.heap.malloced ∉ objects :=
    fun member => absurd (inv.heap.bound _ (inv.heap.linked _ member)) (Nat.lt_irrefl _)
  refine inv.put u inv.heap.malloc ⟨?_, ?_, ?_, ?_⟩ ?_ (fun a _ => ⟨malloc_live, Iff.rfl⟩)
  · rw [whole]
    exact List.nodup_cons.mpr ⟨new, own.distinct⟩
  · rw [whole]
    refine List.forall_mem_cons.mpr ⟨⟨Function.update_self .., unlinked⟩, fun b member => ?_⟩
    obtain ⟨live, out⟩ := own.pending b member
    exact ⟨malloc_live live, out⟩
  · rw [dst, key]
    exact own.leaving
  · intro a here
    refine (own.keyed a (key ▸ here)).imp_right ?_
    rintro ⟨g, held, set⟩
    rw [running] at held
    rcases List.mem_cons.mp held with rfl | later
    · exact absurd (before.symm.trans set.1) (by decide)
    · rw [frames]
      exact ⟨g, List.mem_cons_of_mem f' later, set⟩
  · intro a mine
    rw [AccThread.Mine, whole, dst, key, List.mem_cons, or_assoc] at mine
    rcases mine with rfl | old
    · exact Or.inr inv.not_mine_new
    · exact Or.inl old

theorem ResourceInv.sets {s : AccProcess Thread} (inv : ResourceInv objects s) (u : Thread)
    (running : (s.thread u).frames = f :: rest) (frames : left.frames = f' :: rest)
    (dst : left.dst = (s.thread u).dst) (key : left.key = some a)
    (before : f.At .initialised a) (after : f'.At .set a) :
    ResourceInv objects (s.put u s.heap left) := by
  have own := inv.threads u
  have held : f.pending = some a := AccFrame.objectIn_at before rfl
  have same : left.pending = (s.thread u).pending :=
    AccThread.objectsIn_same running frames dst ((AccFrame.objectIn_at after rfl).trans held.symm)
  have inside : a ∈ (s.thread u).pending :=
    AccThread.mem_objectsIn (running ▸ List.mem_cons_self) held
  refine inv.put u inv.heap ⟨?_, ?_, ?_, ?_⟩ ?_ (fun b _ => ⟨id, Iff.rfl⟩)
  · rw [same]
    exact own.distinct
  · rw [same]
    exact own.pending
  · intro b leaving
    obtain ⟨linked, _⟩ := own.leaving b (dst ▸ leaving)
    refine ⟨linked, fun here => ?_⟩
    obtain rfl := Option.some.inj (key.symm.trans here)
    exact (own.pending a inside).2 linked
  · intro b here
    obtain rfl := Option.some.inj (key.symm.trans here)
    exact Or.inr ⟨f', frames ▸ List.mem_cons_self, after⟩
  · intro b mine
    rw [AccThread.Mine, same, dst, key] at mine
    rcases mine with pending | leaving | here
    · exact Or.inl (Or.inl pending)
    · exact Or.inl (Or.inr (Or.inl leaving))
    · obtain rfl := Option.some.inj here
      exact Or.inl (Or.inl inside)

def ResourceOp.inserted (objects : List ObjectId) : ResourceOp → List ObjectId
  | .insert a => a :: objects
  | .unlink a => objects.erase a
  | _ => objects

theorem set_after (running : t.frames = f :: rest) (frames : left.frames = f' :: rest)
    (kept : f.At .set a → f'.At .set a) :
    (∃ g ∈ t.frames, g.At .set a) → ∃ g ∈ left.frames, g.At .set a := by
  rintro ⟨g, held, set⟩
  rw [running] at held
  rw [frames]
  rcases List.mem_cons.mp held with rfl | later
  · exact ⟨f', List.mem_cons_self, kept set⟩
  · exact ⟨g, List.mem_cons_of_mem f' later, set⟩

theorem AccFrame.At.stage_ne {stage other : ResourceStage} (here : f.At stage a)
    (differ : stage ≠ other) : f.stage ≠ other :=
  fun same => differ (here.1.symm.trans same)

theorem ResourceInv.callMove {s : AccProcess Thread} {op : ResourceOp} {key : Option ObjectId}
    {frames : List AccFrame} (inv : ResourceInv objects s) (u : Thread)
    (running : (s.thread u).frames = f :: rest) (dst : left.dst = (s.thread u).dst)
    (key' : left.key = key) (frames' : left.frames = frames)
    (move : CallMove s.heap (s.thread u).key f rest op h' key frames) :
    ResourceInv (op.inserted objects) (s.put u h' left) := by
  have own := inv.threads u
  have unlinked : ∀ {stage a}, f.At stage a → stage.pending = true → a ∉ objects := by
    intro stage a here held
    have pending := AccThread.mem_objectsIn (running ▸ List.mem_cons_self)
      (AccFrame.objectIn_at here held)
    exact (own.pending a pending).2
  have nobody : ∀ {g : AccFrame}, g.stage.pending = false → ∀ a, ¬ g.At .set a :=
    fun out a here => absurd (here.1 ▸ out) (by decide)
  cases move with
  | goesOn f' stage same =>
    refine inv.goesOn u inv.heap rfl dst key' (AccThread.objectsIn_same running frames' dst ?_)
      (fun a => set_after running frames' fun here => ?_)
    · exact AccFrame.objectIn_stays rfl stage same
    · exact ⟨stage.trans here.1, (same (here.stage_ne (by decide))).trans here.2⟩
  | letsGo f' before after =>
    refine inv.goesOn u inv.heap rfl dst key' (AccThread.objectsIn_same running frames' dst ?_)
      (fun a => set_after running frames' fun here => ?_)
    · rw [AccFrame.objectIn_none (by rw [after]; rfl), AccFrame.objectIn_none (by rw [before]; rfl)]
    · exact absurd here (nobody (by rw [before]; rfl) a)
  | returns before =>
    refine inv.goesOn u inv.heap rfl dst key'
      (AccThread.objectsIn_return running frames' dst (by rw [before]; rfl)) ?_
    · rintro a ⟨g, held, set⟩
      rw [running] at held
      rw [frames']
      rcases List.mem_cons.mp held with rfl | later
      · exact absurd set (nobody (by rw [before]; rfl) a)
      · exact ⟨g, later, set⟩
  | finds f' a found before after =>
    refine inv.goesOn u inv.heap rfl dst key' (AccThread.objectsIn_same running frames' dst ?_)
      (fun b => set_after running frames' fun here => ?_)
    · rw [AccFrame.objectIn_none (by rw [after.1]; rfl),
        AccFrame.objectIn_none (by rw [before]; rfl)]
    · exact absurd here (nobody (by rw [before]; rfl) b)
  | mallocs f' before after => exact inv.mallocs u running frames' dst key' before after
  | frees f' a before after =>
    exact inv.parts u running frames' dst key' (AccFrame.objectIn_at before rfl)
      (AccFrame.objectIn_none (by rw [after]; rfl)) (inv.heap.free (unlinked before rfl))
      (fun b other => free_live other) (fun b _ => Iff.rfl) (fun b inside => inside)
      (fun here => absurd here.1 (before.stage_ne (by decide)))
  | init2 f' a fields before after new =>
    refine inv.goesOn u (inv.heap.init2 (unlinked before rfl)) rfl dst key'
      (AccThread.objectsIn_same running frames' dst ?_)
      (fun b => set_after running frames' fun here => ?_)
    · rw [AccFrame.objectIn_at before rfl, AccFrame.objectIn_at after rfl]
    · exact absurd here.1 (before.stage_ne (by decide))
  | sets f' a before after => exact inv.sets u running frames' dst key' before after
  | fails f' before after same =>
    refine inv.goesOn u inv.heap rfl dst key' (AccThread.objectsIn_same running frames' dst ?_)
      (fun b => set_after running frames' fun here => ?_)
    · rw [AccFrame.objectIn, AccFrame.objectIn, before, after, same]
      rfl
    · exact absurd (before.symm.trans here.1) (by decide)
  | releases f' a before after =>
    exact inv.parts u running frames' dst key' (AccFrame.objectIn_at before rfl)
      (AccFrame.objectIn_none (by rw [after]; rfl))
      (inv.heap.releaseResource (unlinked before rfl))
      (fun b other => releaseResource_live other) (fun b _ => Iff.rfl) (fun b inside => inside)
      (fun here => absurd here.1 (before.stage_ne (by decide)))
  | inserts f' a before after =>
    have pending : a ∈ (s.thread u).pending :=
      AccThread.mem_objectsIn (running ▸ List.mem_cons_self) (AccFrame.objectIn_at before rfl)
    refine inv.parts u running frames' dst key' (AccFrame.objectIn_at before rfl)
      (AccFrame.objectIn_none (by rw [after.1]; rfl))
      (inv.heap.linkHead (unlinked before rfl) (own.pending a pending).1)
      (fun b _ live => ?_) (fun b other => ?_) (fun b inside => List.mem_cons_of_mem a inside)
      (fun _ => List.mem_cons_self)
    · rw [(ResourceHeap.linkHead_sameBut (h := s.heap) (a := a)).live]
      exact live
    · exact ⟨fun inside => List.mem_of_ne_of_mem other inside, List.mem_cons_of_mem a⟩
  | transfers f' event before after same =>
    refine inv.goesOn u inv.heap rfl dst key' (AccThread.objectsIn_same running frames' dst ?_)
      (fun b => set_after running frames' fun here => ?_)
    · have none : f'.stage.pending = false := by
        rcases after with after | after
        · rw [after]; rfl
        · rw [after]; rfl
      rw [AccFrame.objectIn_none none, AccFrame.objectIn_none (by rw [before]; rfl)]
    · exact absurd here (nobody (by rw [before]; rfl) b)

/-! ## Every step of a process -/

theorem ThreadInv.keyed_quiet (inv : ThreadInv objects h t) (quiet : t.frames = [])
    (key : t.key = some a) : a ∈ objects := by
  rcases inv.keyed a key with inside | ⟨f, held, _⟩
  · exact inside
  · rw [quiet] at held
    exact absurd held List.not_mem_nil

theorem ResourceInv.exits {s : AccProcess Thread} (inv : ResourceInv objects s) (u : Thread)
    (quiet : (s.thread u).frames = []) (key : (s.thread u).key = some a) (frames : left.frames = [])
    (key' : left.key = none) (after : left.dst = .unlink a) :
    ResourceInv objects (s.put u s.heap left) := by
  have none : left.pending = [] := (AccThread.objectsIn_quiet frames).trans (by rw [after]; rfl)
  refine inv.put u inv.heap ⟨?_, ?_, ?_, ?_⟩ (fun b mine => Or.inl ?_) (fun b _ => ⟨id, Iff.rfl⟩)
  · rw [none]
    exact List.nodup_nil
  · rw [none]
    exact fun b member => absurd member List.not_mem_nil
  · intro b leaving
    obtain rfl := DstPoint.unlink.inj (after.symm.trans leaving)
    exact ⟨(inv.threads u).keyed_quiet quiet key, by rw [key']; simp⟩
  · intro b here
    rw [key'] at here
    exact absurd here (by simp)
  · rw [AccThread.Mine, none, after, key'] at mine
    rcases mine with pending | leaving | here
    · exact absurd pending List.not_mem_nil
    · exact Or.inr (Or.inr (DstPoint.unlink.inj leaving ▸ key))
    · exact absurd here (by simp)

theorem ResourceInv.unlinks {s : AccProcess Thread} (inv : ResourceInv objects s) (u : Thread)
    (quiet : (s.thread u).frames = []) (before : (s.thread u).dst = .unlink a)
    (frames : left.frames = []) (key : left.key = (s.thread u).key)
    (after : left.dst = .release a) :
    ResourceInv (objects.erase a) (s.put u (s.heap.unlink a) left) := by
  have own := inv.threads u
  obtain ⟨inside, keyed⟩ := own.leaving a before
  have live : (s.heap.unlink a).live = s.heap.live := ResourceHeap.unlink_sameBut.live
  have pending : left.pending = [a] :=
    (AccThread.objectsIn_quiet frames).trans (by rw [after]; rfl)
  have nodup := inv.heap.listed.nodup
  refine inv.put u (inv.heap.unlink inside) ⟨?_, ?_, ?_, ?_⟩ (fun b mine => Or.inl ?_)
    (fun b other => ⟨?_, ?_⟩)
  · rw [pending]
    exact List.nodup_singleton a
  · rw [pending, live]
    exact List.forall_mem_singleton.mpr ⟨inv.heap.linked a inside, nodup.not_mem_erase⟩
  · intro b leaving
    rw [after] at leaving
    exact absurd leaving (by simp)
  · intro b here
    rw [key] at here
    have other : b ≠ a := fun same => keyed (same ▸ here)
    exact Or.inl ((List.mem_erase_of_ne other).mpr (own.keyed_quiet quiet here))
  · rw [AccThread.Mine, pending, after, key] at mine
    rcases mine with new | leaving | here
    · exact Or.inr (Or.inl (List.mem_singleton.mp new ▸ before))
    · exact absurd leaving (by simp)
    · exact Or.inr (Or.inr here)
  · rw [live]
    exact id
  · have apart : b ≠ a := fun same => other (same ▸ Or.inr (Or.inl before))
    exact List.mem_erase_of_ne apart

theorem ResourceInv.releases {s : AccProcess Thread} (inv : ResourceInv objects s) (u : Thread)
    (quiet : (s.thread u).frames = []) (before : (s.thread u).dst = .release a)
    (frames : left.frames = []) (key : left.key = (s.thread u).key)
    (after : left.dst = .outside) :
    ResourceInv objects (s.put u (s.heap.releaseResource a) left) := by
  have own := inv.threads u
  have pending : (s.thread u).pending = [a] :=
    (AccThread.objectsIn_quiet quiet).trans (by rw [before]; rfl)
  have none : left.pending = [] := (AccThread.objectsIn_quiet frames).trans (by rw [after]; rfl)
  have out : a ∉ objects := (own.pending a (pending ▸ List.mem_singleton_self a)).2
  refine inv.put u (inv.heap.releaseResource out) ⟨?_, ?_, ?_, ?_⟩ (fun b mine => Or.inl ?_)
    (fun b other => ⟨?_, Iff.rfl⟩)
  · rw [none]
    exact List.nodup_nil
  · rw [none]
    exact fun b member => absurd member List.not_mem_nil
  · intro b leaving
    rw [after] at leaving
    exact absurd leaving (by simp)
  · intro b here
    exact Or.inl (own.keyed_quiet quiet (key ▸ here))
  · rw [AccThread.Mine, none, after, key] at mine
    rcases mine with pending | leaving | here
    · exact absurd pending List.not_mem_nil
    · exact absurd leaving (by simp)
    · exact Or.inr (Or.inr here)
  · have apart : b ≠ a := fun same =>
      other (Or.inl (pending ▸ List.mem_singleton.mpr same))
    exact releaseResource_live apart

theorem ResourceInv.step {s s' : AccProcess Thread} {op : ResourceOp} (inv : ResourceInv objects s)
    (move : ProcessMove s op s') : ResourceInv (op.inserted objects) s' := by
  cases move with
  | calls u left f new frames key dst =>
    refine inv.goesOn u inv.heap rfl dst key
      (AccThread.objectsIn_call frames dst (by rw [new]; rfl)) ?_
    · rintro a ⟨g, held, set⟩
      exact ⟨g, frames ▸ List.mem_cons_of_mem f held, set⟩
  | moves u left f rest op h' running dst move => exact inv.callMove u running dst rfl rfl move
  | exits u left a quiet before key frames key' after =>
    exact inv.exits u quiet key frames key' after
  | unlinks u left a quiet before frames key after =>
    exact inv.unlinks u quiet before frames key after
  | releases u left a quiet before frames key after =>
    exact inv.releases u quiet before frames key after

/-! ## The child of a fork -/

/-- What `ve_accelerated_io_atfork_child` releases: the whole list, in order. -/
def ResourceHeap.forkReleases (h : ResourceHeap) (objects : List ObjectId) :
    List (ObjectId × List SysveCall) :=
  objects.map fun a => (a, h.releaseCalls a true)

theorem forkReleases_objects : (h.forkReleases objects).map Prod.fst = objects := by
  rw [ResourceHeap.forkReleases, List.map_map]
  exact List.map_id objects

/-- The child that a fork of thread `u` gives. -/
structure ForkedFrom (s : AccProcess Thread) (objects : List ObjectId) (u : Thread)
    (child : AccProcess Thread) : Prop where
  heap : child.heap = { s.heap.afterRelease objects with listHeadNext := none }
  caller : child.thread u =
    { s.thread u with key := none, veBuffUsingFlag := veBuffNotUsing }
  others : ∀ v, v ≠ u → child.thread v = .blank

theorem ResourceInv.fork_eq {s child : AccProcess Thread} {how : ForkCall Thread}
    {released : List (ObjectId × List SysveCall)} (inv : ResourceInv objects s)
    (forked : s.fork how = some (released, child)) :
    released = s.heap.forkReleases objects ∧ ForkedFrom s objects how.thread child := by
  rw [AccProcess.fork, inv.heap.listed.atforkChild] at forked
  by_cases enough : objects.length ≤ how.fuel
  · rw [if_pos enough] at forked
    obtain ⟨rfl, rfl⟩ := Prod.mk.inj (Option.some.inj forked)
    refine ⟨rfl, rfl, ?_, fun v other => ?_⟩
    · exact Function.update_self (f := fun _ => AccThread.blank) ..
    · exact Function.update_of_ne (f := fun _ => AccThread.blank) other _
  · rw [if_neg enough] at forked
    exact absurd forked (by simp)

/-- A fork from anywhere but a thread that is about to unlink its object. -/
theorem ResourceInv.fork {s child : AccProcess Thread} {u : Thread} (inv : ResourceInv objects s)
    (outside : ∀ a, (s.thread u).dst ≠ .unlink a) (forked : ForkedFrom s objects u child) :
    ResourceInv [] child := by
  have own := inv.threads u
  have live : ∀ a, child.heap.live a = true ↔ s.heap.live a = true ∧ a ∉ objects := by
    intro a
    rw [forked.heap]
    exact afterRelease_live
  have caller := forked.caller
  have pending : (child.thread u).pending = (s.thread u).pending := by
    rw [caller]
    rfl
  have mine : ∀ v a, (child.thread v).Mine a → v = u := by
    intro v a held
    by_contra other
    rw [forked.others v other] at held
    exact blank_not_mine held
  refine ⟨⟨?_, by simp, fun a alive => ?_⟩, fun v => ?_, fun v w a held held' => ?_⟩
  · rw [forked.heap]
    exact ⟨rfl, trivial, trivial, List.nodup_nil⟩
  · rw [forked.heap]
    exact lt_of_lt_of_eq (inv.heap.bound a ((live a).mp alive).1) afterRelease_malloced.symm
  · by_cases same : v = u
    · subst same
      refine ⟨pending ▸ own.distinct, fun a member => ?_, fun a leaving => ?_, fun a key => ?_⟩
      · obtain ⟨alive, out⟩ := own.pending a (pending ▸ member)
        exact ⟨(live a).mpr ⟨alive, out⟩, List.not_mem_nil⟩
      · rw [caller] at leaving
        exact absurd leaving (outside a)
      · rw [caller] at key
        exact absurd key (by simp)
    · rw [forked.others v same]
      exact threadInv_blank
  · exact (mine v a held).trans (mine w a held').symm

end Libsysve.AccIo
