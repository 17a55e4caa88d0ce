import Libsysve.AccIo.ForkRelease

/-!
# What threads that have ended leave behind

An object is allocated as long as one thread has it: as the value of its key, or in a call or a
destructor that will link it or release it.  A VH buffer is allocated as long as such an object
has it.  When every thread of a process has ended nothing is left.
-/

set_option autoImplicit false

namespace Libsysve.AccIo

variable {Process Thread : Type}

/-- A fork by a thread that is in no call and in no `ve_accelerated_io_dstfunc`, while no thread
has an object that is not linked. -/
def ForksAtRest (_ : ResourceRecord) : AccEvent Thread → Prop
  | .fork parent how _ _ => (parent.thread how.thread).frames = [] ∧
    (parent.thread how.thread).dst = .outside ∧ ∀ t, (parent.thread t).pending = []
  | .step _ _ _ _ => True

/-! ## One setter of the key -/

/-- The call has found no value of `acc_io_resources_key` and has set none. -/
def IoPoint.unkeyed : IoPoint → Bool
  | .chkEnvInitDma | .malloc | .init2 _ | .free | .setspecific _ | .releaseResource => true
  | _ => false

def AccThread.calls (t : AccThread) : IoThread where
  veBuffUsingFlag := t.veBuffUsingFlag
  resources := none
  frames := t.frames.map AccFrame.call

structure CallsInv (t : AccThread) : Prop where
  owner : OneOwner t.calls
  unkeyed : ∀ f ∈ t.frames, f.call.point.unkeyed = true → t.key = none
  set : ∀ f ∈ t.frames, ∀ a, f.At .set a → t.key = some a

variable {env : Env} {pdma : Bool} {t left : AccThread} {io io' : IoThread} {f : AccFrame}
  {call : IoFrame} {rest : List AccFrame} {calls : List IoFrame} {answer : IoAnswer}
  {action : IoAction} {h h' : ResourceHeap} {op : ResourceOp} {label : IoLabel} {a : ObjectId}

theorem IoPoint.holds_of_stage {point : IoPoint} (some : point.stage ≠ .nothing) :
    point.holds = true := by
  cases point with
  | preReturned ret =>
    cases ret with
    | success io => rfl
    | fail => exact absurd rfl some
    | noBuf => exact absurd rfl some
  | transfer events => rfl
  | init2 | free | setspecific | releaseResource | listInsert => rfl
  | _ => exact absurd rfl some

theorem IoPoint.holds_of_unkeyed {point : IoPoint} (unkeyed : point.unkeyed = true) :
    point.holds = true := by
  cases point with
  | chkEnvInitDma | malloc | init2 | free | setspecific | releaseResource => rfl
  | _ => exact absurd unkeyed Bool.false_ne_true

theorem IoPoint.stage_of_unkeyed {point : IoPoint} (unkeyed : point.unkeyed = true) :
    point.stage ≠ .set := by
  cases point with
  | chkEnvInitDma | malloc | init2 | free | setspecific | releaseResource => simp [IoPoint.stage]
  | _ => exact absurd unkeyed Bool.false_ne_true

theorem IoPoint.unkeyed_of_initialised {point : IoPoint} (stage : point.stage = .initialised) :
    point.unkeyed = true := by
  cases point with
  | setspecific res => rfl
  | preReturned ret => cases ret <;> exact absurd stage (by simp [IoPoint.stage])
  | transfer events => cases events <;> exact absurd stage (by simp [IoPoint.stage])
  | _ => exact absurd stage (by simp [IoPoint.stage])

theorem OneOwner.alone (owner : OneOwner io) (running : io.frames = call :: calls)
    (holds : call.point.holds = true) : ∀ g ∈ calls, g.point.holds = false := by
  intro g member
  have single := owner.single
  rw [running, holders_cons_true holds] at single
  have none : holders calls = 0 := by omega
  exact Bool.eq_false_iff.mpr (List.countP_eq_zero.mp none g member)

structure PointMove (io : IoThread) (call : IoFrame) (calls : List IoFrame) (io' : IoThread) :
    Prop where
  frames : (call.point = .exit ∧ io'.frames = calls) ∨
    ∃ call', call.point ≠ .exit ∧ io'.frames = call' :: calls ∧
      (call'.point.unkeyed = true → call.point.unkeyed = true ∨ io.resources = none)

theorem PointMove.goOn {point : IoPoint} {io₁ : IoThread} {call₁ : IoFrame}
    (moved : io₁.goOn call₁ calls point = some (action, io')) (stays : call.point ≠ .exit)
    (unkeyed : point.unkeyed = true → call.point.unkeyed = true ∨ io.resources = none) :
    PointMove io call calls io' := by
  obtain ⟨rfl, rfl⟩ := Prod.mk.inj (Option.some.inj moved)
  exact ⟨.inr ⟨_, stays, rfl, unkeyed⟩⟩

theorem stepFrame_point
    (stepped : io.stepFrame env pdma call calls answer = some (action, io')) :
    PointMove io call calls io' := by
  obtain ⟨request, point, swapped⟩ := call
  cases point with
  | getspecific =>
    cases answer with
    | quiet =>
      cases found : io.resources with
      | none =>
        simp only [IoThread.stepFrame, found] at stepped
        exact .goOn stepped (by simp) (fun _ => .inr found)
      | some res =>
        simp only [IoThread.stepFrame, found] at stepped
        exact .goOn stepped (by simp) (by simp [IoPoint.unkeyed])
    | _ => simp [IoThread.stepFrame] at stepped
  | entry =>
    cases answer with
    | quiet =>
      refine PointMove.goOn stepped (by simp) (fun unkeyed => ?_)
      split at unkeyed
      · simp [IoPoint.unkeyed] at unkeyed
      · split at unkeyed <;> simp [IoPoint.unkeyed] at unkeyed
    | _ => simp [IoThread.stepFrame] at stepped
  | pre =>
    cases answer with
    | quiet =>
      refine PointMove.goOn stepped (by simp) (fun unkeyed => ?_)
      split at unkeyed <;> simp [IoPoint.unkeyed] at unkeyed
    | _ => simp [IoThread.stepFrame] at stepped
  | swap =>
    cases answer with
    | quiet =>
      refine PointMove.goOn stepped (by simp) (fun unkeyed => ?_)
      split at unkeyed <;> simp [IoPoint.unkeyed] at unkeyed
    | _ => simp [IoThread.stepFrame] at stepped
  | exit =>
    cases answer with
    | quiet =>
      obtain ⟨rfl, rfl⟩ := Prod.mk.inj (Option.some.inj stepped)
      exact ⟨.inl ⟨rfl, rfl⟩⟩
    | _ => simp [IoThread.stepFrame] at stepped
  | plain =>
    cases answer with
    | quiet =>
      obtain ⟨rfl, rfl⟩ := Prod.mk.inj (Option.some.inj stepped)
      exact ⟨.inr ⟨_, by simp, rfl, by simp [IoPoint.unkeyed]⟩⟩
    | _ => simp [IoThread.stepFrame] at stepped
  | preReturned ret =>
    cases ret <;> cases answer <;>
      first
        | exact PointMove.goOn stepped (by simp) (by simp [IoPoint.unkeyed])
        | simp [IoThread.stepFrame] at stepped
  | transfer events =>
    cases events <;> cases answer <;>
      first
        | exact PointMove.goOn stepped (by simp) (by simp [IoPoint.unkeyed])
        | simp [IoThread.stepFrame] at stepped
    obtain ⟨rfl, rfl⟩ := stepped
    exact ⟨.inr ⟨_, by simp, rfl, by simp [IoPoint.unkeyed]⟩⟩
  | _ =>
    -- the call goes on, if it takes the answer, and has no key only if it had none
    cases answer <;>
      first
        | exact PointMove.goOn stepped (by simp) (by simp [IoPoint.unkeyed])
        | simp [IoThread.stepFrame] at stepped

theorem PointMove.resumed (move : PointMove io f.call (rest.map AccFrame.call) io')
    (acc : Option ObjectId) :
    (AccThread.resumed f acc rest io'.frames).map AccFrame.call = io'.frames ∧
      ∀ g ∈ AccThread.resumed f acc rest io'.frames, g ∈ rest ∨
        (g.call.point.unkeyed = true → f.call.point.unkeyed = true ∨ io.resources = none) := by
  rcases move.frames with ⟨leaves, frames⟩ | ⟨call', stays, frames, unkeyed⟩
  · have left : AccThread.resumed f acc rest io'.frames = rest := by
      rw [frames]
      cases rest with
      | nil => rfl
      | cons g rest => simp [AccThread.resumed, leaves]
    rw [left]
    exact ⟨frames.symm, fun g member => .inl member⟩
  · have left : AccThread.resumed f acc rest io'.frames = ⟨call', acc⟩ :: rest := by
      rw [frames]
      unfold AccThread.resumed
      cases here : f.call.point with
      | exit => exact absurd here stays
      | _ => rfl
    rw [left]
    exact ⟨frames.symm, List.forall_mem_cons.mpr ⟨.inr unkeyed, fun g member => .inl member⟩⟩

theorem CallMove.keys {key key' : Option ObjectId} {frames : List AccFrame}
    (move : CallMove h key f rest op h' key' frames) :
    key' = key ∨ f.stage = .initialised ∧ ∀ g ∈ frames, g ∈ rest ∨ g.stage = .set := by
  cases move with
  | sets f' a before after =>
    exact .inr ⟨before.1, List.forall_mem_cons.mpr ⟨.inr after.1, fun g member => .inl member⟩⟩
  | _ => exact .inl rfl

theorem CallMove.set {key key' : Option ObjectId} {frames : List AccFrame}
    (move : CallMove h key f rest op h' key' frames) (set : ∀ a, f.At .set a → key = some a) :
    ∀ g ∈ frames, g ∈ rest ∨ ∀ a, g.At .set a → key' = some a := by
  have other : ∀ {g : AccFrame} {stage : ResourceStage}, g.stage = stage → stage ≠ .set →
      g ∈ rest ∨ ∀ a, g.At .set a → key' = some a := by
    intro g stage here differs
    exact .inr fun a there => absurd (here.symm.trans there.1) differs
  have later : ∀ {P : AccFrame → Prop} {f' : AccFrame}, (f' ∈ rest ∨ P f') →
      ∀ g ∈ f' :: rest, g ∈ rest ∨ P g := by
    intro P f' first
    exact List.forall_mem_cons.mpr ⟨first, fun g member => .inl member⟩
  cases move with
  | goesOn f' stage same =>
    refine later (.inr fun a here => set a ⟨stage ▸ here.1, ?_⟩)
    rw [← same (by rw [← stage, here.1]; simp), here.2]
  | letsGo f' before after => exact later (other after (by decide))
  | returns before => exact fun g member => .inl member
  | finds f' a found before after => exact later (other after.1 (by decide))
  | mallocs f' before after => exact later (other after.1 (by decide))
  | frees f' a before after => exact later (other after (by decide))
  | init2 f' a fields before after new => exact later (other after.1 (by decide))
  | sets f' a before after =>
    refine later (.inr fun b here => ?_)
    rw [← after.2, here.2]
  | fails f' before after same => exact later (other after (by decide))
  | releases f' a before after => exact later (other after (by decide))
  | inserts f' a before after => exact later (other after.1 (by decide))
  | transfers f' event before after same =>
    rcases after with after | after
    · exact later (other after (by decide))
    · exact later (other after (by decide))

theorem CallsInv.alone (inv : CallsInv t) (running : t.frames = f :: rest)
    (holds : f.call.point.holds = true) : ∀ g ∈ rest, g.call.point.holds = false := by
  have running' : t.calls.frames = f.call :: rest.map AccFrame.call := by
    rw [AccThread.calls, running, List.map_cons]
  exact fun g member => inv.owner.alone running' holds g.call (List.mem_map_of_mem member)

theorem CallsInv.step (inv : CallsInv t)
    (stepped : t.step env pdma h label = some (op, h', left)) : CallsInv left := by
  cases label with
  | call request =>
    obtain ⟨rfl, rfl, rfl⟩ := by simpa [AccThread.step] using stepped
    refine ⟨inv.owner.call, List.forall_mem_cons.mpr ⟨?_, inv.unkeyed⟩,
      List.forall_mem_cons.mpr ⟨?_, inv.set⟩⟩
    · exact fun unkeyed => absurd unkeyed Bool.false_ne_true
    · exact fun a here => absurd here.1 (by simp [AccFrame.stage, IoPoint.stage])
  | step answer =>
    cases running : t.frames with
    | nil => simp [AccThread.step, running] at stepped
    | cons f rest =>
      simp only [AccThread.step, running, Option.bind_eq_bind, Option.bind_eq_some_iff,
        Option.some.injEq, Prod.mk.injEq] at stepped
      obtain ⟨⟨action, io'⟩, moved, e, did, rfl, rfl, rfl⟩ := stepped
      have running' : (t.io h).frames = f.call :: rest.map AccFrame.call := by
        rw [AccThread.io, running, List.map_cons]
      have owner : OneOwner (t.io h) := ⟨inv.owner.flag, inv.owner.single, inv.owner.waiting⟩
      have owner' : OneOwner io' := owner.move running' (stepFrame_move moved)
      have view : (t.io h).resources.isSome = t.key.isSome := Option.isSome_map
      have move := call_move moved view did
      obtain ⟨calls, points⟩ := (stepFrame_point moved).resumed e.accIoRes
      have below : ∀ g ∈ rest, g.call.point.holds = true → e.key = t.key := by
        intro g member holds
        rcases move.keys with same | ⟨stage, _⟩
        · exact same
        · have held : f.call.point.holds = true :=
            IoPoint.holds_of_stage (by rw [← AccFrame.stage, stage]; decide)
          exact absurd ((inv.alone running held g member).symm.trans holds) Bool.false_ne_true
      have member : ∀ g ∈ rest, g ∈ t.frames :=
        fun g later => running ▸ List.mem_cons_of_mem f later
      dsimp only at calls points move ⊢
      generalize AccThread.resumed f e.accIoRes rest io'.frames = frames at calls points move ⊢
      have first : f ∈ t.frames := running ▸ List.mem_cons_self
      refine ⟨?_, fun g held unkeyed => ?_, fun g held a here => ?_⟩
      · obtain ⟨flag, single, waiting⟩ := owner'
        rw [← calls] at flag single waiting
        exact ⟨flag, single, waiting⟩
      · rcases points g held with later | running'
        · rw [below g later (IoPoint.holds_of_unkeyed unkeyed)]
          exact inv.unkeyed g (member g later) unkeyed
        · have none : t.key = none := by
            rcases running' unkeyed with before | null
            · exact inv.unkeyed f first before
            · exact Option.map_eq_none_iff.mp null
          rcases move.keys with same | ⟨_, sets⟩
          · exact same.trans none
          · rcases sets g held with later | stage
            · exact (below g later (IoPoint.holds_of_unkeyed unkeyed)).trans none
            · exact absurd stage (IoPoint.stage_of_unkeyed unkeyed)
      · rcases move.set (inv.set f first) g held with later | now
        · have holds : g.call.point.holds = true :=
            IoPoint.holds_of_stage (by rw [← AccFrame.stage, here.1]; decide)
          rw [below g later holds]
          exact inv.set g (member g later) a here
        · exact now a here

/-! ## Who has an object -/

/-- Every object that is allocated is linked or will be, or will be released, and every object
that is linked belongs to a thread. -/
structure OwnedInv (objects : List ObjectId) (s : AccProcess Thread) : Prop where
  calls : ∀ t, CallsInv (s.thread t)
  live : ∀ a, s.heap.live a = true → a ∈ objects ∨ ∃ t, a ∈ (s.thread t).pending
  keyed : ∀ a ∈ objects, ∃ t, (s.thread t).key = some a ∨ (s.thread t).dst = .unlink a

variable {objects objects' : List ObjectId} {s s' : AccProcess Thread} {u : Thread}

theorem ownedInv_initial (node : ObjectId → ResourceNode) :
    OwnedInv [] (AccProcess.initial node : AccProcess Thread) where
  calls t := ⟨⟨rfl, Nat.zero_le 1, trivial⟩, by simp [AccProcess.initial, AccThread.blank],
    by simp [AccProcess.initial, AccThread.blank]⟩
  live a live := absurd live Bool.false_ne_true
  keyed a member := absurd member List.not_mem_nil

variable [DecidableEq Thread]

theorem OwnedInv.put {left : AccThread} (inv : OwnedInv objects s) (calls : CallsInv left)
    (live : ∀ a, h'.live a = true → a ∉ objects' → a ∉ left.pending →
      s.heap.live a = true ∧ a ∉ objects ∧ a ∉ (s.thread u).pending)
    (keyed : ∀ a ∈ objects', (left.key = some a ∨ left.dst = .unlink a) ∨
      a ∈ objects ∧ (s.thread u).key ≠ some a ∧ (s.thread u).dst ≠ .unlink a) :
    OwnedInv objects' (s.put u h' left) where
  calls t := by
    by_cases same : t = u
    · rw [same, AccProcess.put_self]
      exact calls
    · rw [AccProcess.put_other same]
      exact inv.calls t
  live a alive := by
    by_cases linked : a ∈ objects'
    · exact .inl linked
    · by_cases own : a ∈ left.pending
      · exact .inr ⟨u, by rwa [AccProcess.put_self]⟩
      · obtain ⟨before, unlinked, notOwn⟩ := live a alive linked own
        obtain ⟨t, pending⟩ := (inv.live a before).resolve_left unlinked
        have other : t ≠ u := fun same => notOwn (same ▸ pending)
        exact .inr ⟨t, by rwa [AccProcess.put_other other]⟩
  keyed a member := by
    rcases keyed a member with own | ⟨before, notKey, notDst⟩
    · exact ⟨u, by rwa [AccProcess.put_self]⟩
    · obtain ⟨t, has⟩ := inv.keyed a before
      have other : t ≠ u := by
        rintro rfl
        exact has.elim notKey notDst
      exact ⟨t, by rwa [AccProcess.put_other other]⟩

omit [DecidableEq Thread] in
theorem has_or_not {left : AccThread} (key : left.key = (s.thread u).key)
    (dst : ∀ b, left.dst = .unlink b ↔ (s.thread u).dst = .unlink b) (member : a ∈ objects) :
    (left.key = some a ∨ left.dst = .unlink a) ∨
      a ∈ objects ∧ (s.thread u).key ≠ some a ∧ (s.thread u).dst ≠ .unlink a := by
  by_cases has : (s.thread u).key = some a ∨ (s.thread u).dst = .unlink a
  · rw [key, dst]
    exact .inl has
  · exact .inr ⟨member, not_or.mp has⟩

theorem OwnedInv.goesOn {left : AccThread} (inv : OwnedInv objects s) (calls : CallsInv left)
    (live : h'.live = s.heap.live) (pending : left.pending = (s.thread u).pending)
    (key : left.key = (s.thread u).key ∨ (s.thread u).key = none)
    (dst : left.dst = (s.thread u).dst) : OwnedInv objects (s.put u h' left) := by
  refine inv.put calls (fun a alive unlinked notOwn => ?_) (fun a member => ?_)
  · exact ⟨live ▸ alive, unlinked, pending ▸ notOwn⟩
  · by_cases leaving : (s.thread u).dst = .unlink a
    · exact .inl (.inr (dst.trans leaving))
    · by_cases here : (s.thread u).key = some a
      · rcases key with same | none
        · exact .inl (.inl (same.trans here))
        · exact absurd (none.symm.trans here) (by simp)
      · exact .inr ⟨member, here, leaving⟩

theorem OwnedInv.drops {left : AccThread} (inv : OwnedInv objects s) (calls : CallsInv left)
    (dead : ∀ b, h'.live b = true → b ≠ a ∧ s.heap.live b = true)
    (pending : (s.thread u).pending = a :: left.pending) (key : left.key = (s.thread u).key)
    (dst : ∀ b, left.dst = .unlink b ↔ (s.thread u).dst = .unlink b) :
    OwnedInv objects (s.put u h' left) := by
  refine inv.put calls (fun b alive unlinked notOwn => ?_) (fun b member => ?_)
  · obtain ⟨other, before⟩ := dead b alive
    refine ⟨before, unlinked, fun own => ?_⟩
    rw [pending] at own
    exact (List.mem_cons.mp own).elim other notOwn
  · exact has_or_not key dst member

theorem free_dead {b : ObjectId} (live : (h.free a).live b = true) : b ≠ a ∧ h.live b = true := by
  by_cases same : b = a
  · rw [same] at live
    have dead : (h.free a).live a = false := Function.update_self ..
    exact absurd (dead.symm.trans live) Bool.false_ne_true
  · exact ⟨same, (Function.update_of_ne same ..).symm.trans live⟩

theorem OwnedInv.callMove {left : AccThread} {key : Option ObjectId} {frames : List AccFrame}
    (inv : OwnedInv objects s) (calls : CallsInv left) (running : (s.thread u).frames = f :: rest)
    (dst : left.dst = (s.thread u).dst) (frames' : left.frames = frames) (key' : left.key = key)
    (move : CallMove s.heap (s.thread u).key f rest op h' key frames) :
    OwnedInv (op.inserted objects) (s.put u h' left) := by
  have first : f ∈ (s.thread u).frames := running ▸ List.mem_cons_self
  cases move with
  | goesOn f' stage same =>
    refine inv.goesOn calls rfl (AccThread.objectsIn_same running frames' dst ?_) (.inl key') dst
    exact AccFrame.objectIn_stays rfl stage same
  | letsGo f' before after =>
    refine inv.goesOn calls rfl (AccThread.objectsIn_same running frames' dst ?_) (.inl key') dst
    rw [AccFrame.objectIn_none (by rw [after]; rfl), AccFrame.objectIn_none (by rw [before]; rfl)]
  | returns before =>
    exact inv.goesOn calls rfl
      (AccThread.objectsIn_return running frames' dst (by rw [before]; rfl)) (.inl key') dst
  | finds f' a found before after =>
    refine inv.goesOn calls rfl (AccThread.objectsIn_same running frames' dst ?_) (.inl key') dst
    rw [AccFrame.objectIn_none (by rw [after.1]; rfl), AccFrame.objectIn_none (by rw [before]; rfl)]
  | mallocs f' before after =>
    have pending : left.pending = s.heap.malloced :: (s.thread u).pending :=
      AccThread.objectsIn_drop frames' running dst.symm (AccFrame.objectIn_at after rfl)
        (AccFrame.objectIn_none (by rw [before]; rfl))
    refine inv.put calls (fun b alive unlinked notOwn => ?_) (fun b member => ?_)
    · rw [pending] at notOwn
      obtain ⟨other, notOwn⟩ := not_or.mp (fun either => notOwn (List.mem_cons.mpr either))
      exact ⟨(Function.update_of_ne other ..).symm.trans alive, unlinked, notOwn⟩
    · exact has_or_not key' (fun c => by rw [dst]) member
  | frees f' a before after =>
    refine inv.drops calls (fun b => free_dead) (AccThread.objectsIn_drop running frames' dst
      (AccFrame.objectIn_at before rfl) (AccFrame.objectIn_none (by rw [after]; rfl))) key' ?_
    exact fun b => by rw [dst]
  | init2 f' a fields before after new =>
    refine inv.goesOn calls rfl (AccThread.objectsIn_same running frames' dst ?_) (.inl key') dst
    rw [AccFrame.objectIn_at after rfl, AccFrame.objectIn_at before rfl]
  | sets f' a before after =>
    refine inv.goesOn calls rfl (AccThread.objectsIn_same running frames' dst ?_) (.inr ?_) dst
    · rw [AccFrame.objectIn_at after rfl, AccFrame.objectIn_at before rfl]
    · exact (inv.calls u).unkeyed f first (IoPoint.unkeyed_of_initialised before.1)
  | fails f' before after same =>
    refine inv.goesOn calls rfl (AccThread.objectsIn_same running frames' dst ?_) (.inl key') dst
    rw [AccFrame.objectIn, AccFrame.objectIn, before, after, same]
    rfl
  | releases f' a before after =>
    refine inv.drops calls (fun b => free_dead) (AccThread.objectsIn_drop running frames' dst
      (AccFrame.objectIn_at before rfl) (AccFrame.objectIn_none (by rw [after]; rfl))) key' ?_
    exact fun b => by rw [dst]
  | inserts f' a before after =>
    have pending : (s.thread u).pending = a :: left.pending :=
      AccThread.objectsIn_drop running frames' dst (AccFrame.objectIn_at before rfl)
        (AccFrame.objectIn_none (by rw [after.1]; rfl))
    have same := (ResourceHeap.linkHead_sameBut (h := s.heap) (a := a)).live
    refine inv.put calls (fun b alive unlinked notOwn => ?_) (fun b member => ?_)
    · obtain ⟨other, unlinked⟩ := not_or.mp (fun either => unlinked (List.mem_cons.mpr either))
      refine ⟨same ▸ alive, unlinked, fun own => ?_⟩
      rw [pending] at own
      exact (List.mem_cons.mp own).elim other notOwn
    · rcases List.mem_cons.mp member with rfl | old
      · exact .inl (.inl (key'.trans ((inv.calls u).set f first b before)))
      · exact has_or_not key' (fun c => by rw [dst]) old
  | transfers f' event before after same =>
    refine inv.goesOn calls rfl (AccThread.objectsIn_same running frames' dst ?_) (.inl key') dst
    have none : f'.stage.pending = false := by
      rcases after with after | after
      · rw [after]; rfl
      · rw [after]; rfl
    rw [AccFrame.objectIn_none none, AccFrame.objectIn_none (by rw [before]; rfl)]

theorem CallsInv.process {label : AccLabel Thread} (calls : ∀ t, CallsInv (s.thread t))
    (stepped : s.step env pdma label = some (op, s')) (t : Thread) : CallsInv (s'.thread t) := by
  have put : ∀ {u : Thread} {h' : ResourceHeap} {left : AccThread}, CallsInv left →
      CallsInv ((s.put u h' left).thread t) := by
    intro u h' left own
    by_cases same : t = u
    · rw [same, AccProcess.put_self]
      exact own
    · rw [AccProcess.put_other same]
      exact calls t
  -- outside the calls neither the flag nor the stack changes
  have idle : ∀ {u : Thread} {key : Option ObjectId} {dst : DstPoint},
      (s.thread u).frames = [] → CallsInv { s.thread u with key := key, dst := dst } := by
    intro u key dst quiet
    refine ⟨(calls u).owner, ?_, ?_⟩
    · exact fun f held => absurd (quiet ▸ held : f ∈ []) List.not_mem_nil
    · exact fun f held => absurd (quiet ▸ held : f ∈ []) List.not_mem_nil
  cases label with
  | io u label =>
    simp only [AccProcess.step, Option.bind_eq_bind, Option.bind_eq_some_iff] at stepped
    obtain ⟨⟨op', h', left⟩, moved, result⟩ := stepped
    obtain ⟨rfl, rfl⟩ := Prod.mk.inj (Option.some.inj result)
    exact put ((calls u).step moved)
  | exit u =>
    simp only [AccProcess.step] at stepped
    split at stepped
    next a quiet before key =>
      obtain ⟨rfl, rfl⟩ := Prod.mk.inj (Option.some.inj stepped)
      exact put (idle quiet)
    next => exact absurd stepped (by simp)
  | unlink u =>
    simp only [AccProcess.step] at stepped
    split at stepped
    next a quiet before =>
      obtain ⟨rfl, rfl⟩ := Prod.mk.inj (Option.some.inj stepped)
      exact put (idle quiet)
    next => exact absurd stepped (by simp)
  | release u =>
    simp only [AccProcess.step] at stepped
    split at stepped
    next a quiet before =>
      obtain ⟨rfl, rfl⟩ := Prod.mk.inj (Option.some.inj stepped)
      exact put (idle quiet)
    next => exact absurd stepped (by simp)

theorem OwnedInv.step (inv : OwnedInv objects s) (nodup : objects.Nodup)
    (calls : ∀ t, CallsInv (s'.thread t)) (move : ProcessMove s op s') :
    OwnedInv (op.inserted objects) s' := by
  have own : ∀ {u : Thread} {h' : ResourceHeap} {left : AccThread}, s' = s.put u h' left →
      CallsInv left := by
    rintro u h' left rfl
    have here := calls u
    rwa [AccProcess.put_self] at here
  cases move with
  | calls u left f new frames key dst =>
    exact inv.goesOn (own rfl) rfl (AccThread.objectsIn_call frames dst (by rw [new]; rfl))
      (.inl key) dst
  | moves u left f rest op h' running dst move =>
    exact inv.callMove (own rfl) running dst rfl rfl move
  | exits u left a quiet before key frames key' after =>
    refine inv.put (own rfl) (fun b alive unlinked notOwn => ?_) (fun b member => ?_)
    · refine ⟨alive, unlinked, ?_⟩
      rw [AccThread.pending, AccThread.objectsIn_quiet quiet, before]
      exact List.not_mem_nil
    · by_cases same : b = a
      · exact .inl (.inr (same ▸ after))
      · refine .inr ⟨member, fun here => same ?_, by simp [before]⟩
        exact (Option.some.inj (key.symm.trans here)).symm
  | unlinks u left a quiet before frames key after =>
    have pending : left.pending = [a] := by
      rw [AccThread.pending, AccThread.objectsIn_quiet frames, after]
      rfl
    have same := (ResourceHeap.unlink_sameBut (h := s.heap) (a := a)).live
    refine inv.put (own rfl) (fun b alive unlinked notOwn => ?_) (fun b member => ?_)
    · have other : b ≠ a :=
        fun same => notOwn (by rw [pending, same]; exact List.mem_singleton_self a)
      refine ⟨same ▸ alive, fun inside => unlinked (nodup.mem_erase_iff.mpr ⟨other, inside⟩), ?_⟩
      rw [AccThread.pending, AccThread.objectsIn_quiet quiet, before]
      exact List.not_mem_nil
    · obtain ⟨other, inside⟩ := nodup.mem_erase_iff.mp member
      by_cases here : (s.thread u).key = some b
      · exact .inl (.inl (key.trans here))
      · refine .inr ⟨inside, here, fun leaving => other ?_⟩
        exact (DstPoint.unlink.inj (before.symm.trans leaving)).symm
  | releases u left a quiet before frames key after =>
    refine inv.drops (own rfl) (fun b => free_dead) ?_ key (fun b => by simp [before, after])
    rw [AccThread.pending, AccThread.pending, AccThread.objectsIn_quiet quiet,
      AccThread.objectsIn_quiet frames, before, after]
    rfl

theorem OwnedInv.fork {child : AccProcess Thread} (inv : OwnedInv objects s)
    (idle : (s.thread u).frames = []) (none : ∀ t, (s.thread t).pending = [])
    (forked : ForkedFrom s objects u child) : OwnedInv [] child where
  calls t := by
    by_cases same : t = u
    · rw [same, forked.caller]
      refine ⟨⟨?_, ?_, ?_⟩, ?_, ?_⟩
      all_goals simp [AccThread.calls, idle, holders, Waiting, veBuffNotUsing]
    · rw [forked.others t same]
      exact (ownedInv_initial (fun _ => ⟨.sample, .none, .none⟩)).calls t
  live a live := by
    rw [forked.heap] at live
    obtain ⟨before, unlinked⟩ := afterRelease_live.mp live
    obtain ⟨t, pending⟩ := (inv.live a before).resolve_left unlinked
    rw [none t] at pending
    exact absurd pending List.not_mem_nil
  keyed a member := absurd member List.not_mem_nil

/-! ## The run -/

/-- The thread has exited, or it has no resources yet. -/
structure AccThread.Ended (t : AccThread) : Prop where
  frames : t.frames = []
  dst : t.dst = .outside
  key : t.key = none

/-- What holds of every process that is reached when forks are at rest. -/
structure GivenInv (R : ResourceRecord) (s : AccProcess Thread) : Prop where
  inherit : InheritInv R s
  owned : OwnedInv R.inserted s

variable {R : ResourceRecord}

theorem GivenInv.event (e : AccEvent Thread) (inv : GivenInv R e.source)
    (happens : (accForking Thread env pdma).Happens e) (atRest : ForksAtRest R e) :
    GivenInv (R.observe e) e.target := by
  cases e with
  | step s label op s' =>
    have inv : GivenInv R s := inv
    refine ⟨inv.inherit.event _ happens trivial, ?_⟩
    rw [observe_inserted]
    exact inv.owned.step inv.inherit.resources.heap.listed.nodup
      (CallsInv.process inv.owned.calls happens) (process_move happens)
  | fork s how released child =>
    have inv : GivenInv R s := inv
    obtain ⟨idle, outside, none⟩ := atRest
    have between : NoneBetween s := by
      intro t
      have part := (AccThread.filled_sublist (t := s.thread t))
      rw [none t] at part
      exact List.sublist_nil.mp part
    obtain ⟨_, forked⟩ := inv.inherit.resources.fork_eq happens
    exact ⟨inv.inherit.event _ happens ⟨outside, between⟩, inv.owned.fork idle none forked⟩

omit [DecidableEq Thread] in
theorem GivenInv.live_iff (inv : GivenInv R s) :
    s.heap.live a = true ↔ ∃ t, (s.thread t).Mine a := by
  have resources := inv.inherit.resources
  constructor
  · intro live
    rcases inv.owned.live a live with linked | ⟨t, pending⟩
    · obtain ⟨t, key | dst⟩ := inv.owned.keyed a linked
      · exact ⟨t, .inr (.inr key)⟩
      · exact ⟨t, .inr (.inl dst)⟩
    · exact ⟨t, .inl pending⟩
  · rintro ⟨t, pending | dst | key⟩
    · exact ((resources.threads t).pending a pending).1
    · exact resources.heap.linked a ((resources.threads t).leaving a dst).1
    · rcases (resources.threads t).keyed a key with linked | ⟨f, held, set⟩
      · exact resources.heap.linked a linked
      · exact ((resources.threads t).pending a
          (AccThread.mem_objectsIn held (AccFrame.objectIn_at set rfl))).1

omit [DecidableEq Thread] in
theorem GivenInv.buffer (inv : GivenInv R s) {v : Nat} (allocated : s.heap.vhBuff v = true) :
    ∃ t a, (s.thread t).Mine a ∧ (s.heap.node a).fields.vhBuff = v := by
  obtain ⟨a, full, here⟩ := (inv.inherit.buffers.allocated v).mp allocated
  rcases full with linked | ⟨t, filled⟩
  · obtain ⟨t, mine⟩ := inv.live_iff.mp (inv.inherit.resources.heap.linked a linked)
    exact ⟨t, a, mine, here⟩
  · exact ⟨t, a, .inl (AccThread.filled_sublist.subset filled), here⟩

omit [DecidableEq Thread] in
theorem AccThread.Ended.nothing (ended : t.Ended) : ¬ t.Mine a := by
  rintro (pending | dst | key)
  · rw [AccThread.pending, AccThread.objectsIn_quiet ended.frames, ended.dst] at pending
    exact absurd pending List.not_mem_nil
  · exact absurd (ended.dst.symm.trans dst) (by simp)
  · exact absurd (ended.key.symm.trans key) (by simp)

/-- In every run in which the forks are at rest, in every process that is reached: an object is
allocated if and only if a thread has it, and one thread only; a VH buffer is allocated only for
an object that a thread has; and nothing is left when all the threads have ended. -/
theorem resources_given_back [DecidableEq Process] (env : Env) (pdma : Bool) (p : Process)
    (node : ObjectId → ResourceNode) (trace : List (AccEntry Process Thread))
    (final : Process → Option (AccProcess Thread)) (run : AccRun env pdma p node trace final)
    (atRest : AccSafe ForksAtRest trace) (q : Process) (s : AccProcess Thread)
    (reached : final q = some s) :
    (∀ a, s.heap.live a = true ↔ ∃ t, (s.thread t).Mine a) ∧
      (∀ t u a, (s.thread t).Mine a → (s.thread u).Mine a → t = u) ∧
      (∀ v, s.heap.vhBuff v = true →
        ∃ t a, (s.thread t).Mine a ∧ (s.heap.node a).fields.vhBuff = v) ∧
      ((∀ t, (s.thread t).Ended) →
        (∀ a, s.heap.live a = false) ∧ (∀ v, s.heap.vhBuff v = false) ∧
          s.heap.listHeadNext = none) := by
  have initially : GivenInv .blank (AccProcess.initial node : AccProcess Thread) :=
    ⟨inheritInv_initial node, ownedInv_initial node⟩
  have inv : GivenInv (accRecords trace q) s :=
    Forking.family_invariant initially (fun _ => GivenInv.event) run atRest q s reached
  refine ⟨fun a => inv.live_iff, inv.inherit.resources.apart, fun v => inv.buffer, fun ended => ?_⟩
  have nobody : ∀ t a, ¬ (s.thread t).Mine a := fun t a => (ended t).nothing
  refine ⟨fun a => ?_, fun v => ?_, ?_⟩
  · rw [← Bool.not_eq_true, inv.live_iff]
    exact fun ⟨t, mine⟩ => nobody t a mine
  · rw [← Bool.not_eq_true]
    intro allocated
    obtain ⟨t, a, mine, _⟩ := inv.buffer allocated
    exact nobody t a mine
  · have heap := inv.inherit.resources.heap
    have empty : (accRecords trace q).inserted = [] := by
      refine List.eq_nil_iff_forall_not_mem.mpr (fun a linked => ?_)
      obtain ⟨t, mine⟩ := inv.live_iff.mp (heap.linked a linked)
      exact nobody t a mine
    have listed := heap.listed
    rw [empty] at listed
    exact listed.start

instance decidableForksAtRest [Fintype Thread] (R : ResourceRecord) :
    (e : AccEvent Thread) → Decidable (ForksAtRest R e)
  | .fork parent how _ _ => inferInstanceAs (Decidable
    ((parent.thread how.thread).frames = [] ∧ (parent.thread how.thread).dst = .outside ∧
      ∀ t, (parent.thread t).pending = []))
  | .step _ _ _ _ => isTrue trivial

/-- Two threads make a call each, the first one forks, and all threads exit in the end; the child
makes a call of its own. -/
def endedLabels : List (FamilyLabel Nat (AccLabel Bool) (ForkCall Bool)) :=
  steps 0 true (firstCall 100 ++ lastSteps) ++ steps 0 false (firstCall 200 ++ lastSteps) ++
    [.fork 0 ⟨true, 2⟩ 1, .step 0 (.exit false), .step 0 (.unlink false), .step 0 (.release false),
      .step 0 (.exit true), .step 0 (.unlink true), .step 0 (.release true)] ++
    steps 1 true (firstCall 100 ++ lastSteps) ++
    [.step 1 (.exit true), .step 1 (.unlink true), .step 1 (.release true)]

instance (t : AccThread) : Decidable t.Ended :=
  decidable_of_iff (t.frames = [] ∧ t.dst = .outside ∧ t.key = none)
    ⟨fun ⟨frames, dst, key⟩ => ⟨frames, dst, key⟩,
      fun ended => ⟨ended.frames, ended.dst, ended.key⟩⟩

theorem resources_given_back_ended :
    ∃ trace final child, (accForking Bool (.steady 0) false).family.exec aloneAtFirst endedLabels =
        some (trace, final) ∧ final 1 = some child ∧
      (∀ a, child.heap.live a = false) ∧ (∀ v, child.heap.vhBuff v = false) ∧
      child.heap.listHeadNext = none := by
  have checked : ((accForking Bool (.steady 0) false).family.exec aloneAtFirst endedLabels).any
      (fun done => (done.2 1).any (fun s => decide (∀ t, (s.thread t).Ended)) &&
        decide ((Forking.members ResourceRecord.blank ResourceRecord.observe
          ForksAtRest).SafeFrom (fun _ => .blank) done.1)) = true := by
    decide +kernel
  rw [Option.any_eq_true] at checked
  obtain ⟨⟨trace, final⟩, ran, holds⟩ := checked
  rw [Bool.and_eq_true, Option.any_eq_true] at holds
  obtain ⟨⟨child, here, ended⟩, safe⟩ := holds
  obtain ⟨_, _, _, left⟩ := resources_given_back (.steady 0) false 0 _ trace final
    (Machine.exec_run ran) (Monitor.safe_of_safeFrom _ trace (of_decide_eq_true safe)) 1 child here
  exact ⟨trace, final, child, ran, here, left (of_decide_eq_true ended)⟩

end Libsysve.AccIo
