import Libsysve.AccIo.Owner
import Libsysve.AccIo.ResourceList
import Libsysve.Library.Family

/-!
# The I/O resources of processes that fork

The calls of `AccIo.Owner`, with the object `acc_io_res` of each, `acc_io_resources_key` of each
thread and the resource list of the process.  A locked section is one step.  A fork is one
step too: `ve_accelerated_io_atfork_prepare` waits for the lock, the parent goes on as before, and
the child has the memory and the calling thread as `ve_accelerated_io_atfork_child` leaves
them.  A thread may fork anywhere, from a signal handler also inside a call.
-/

set_option autoImplicit false

namespace Libsysve.AccIo

inductive DstPoint where
  | outside
  | unlink (param : ObjectId)
  | release (param : ObjectId)
deriving DecidableEq

structure AccFrame where
  call : IoFrame
  accIoRes : Option ObjectId

/-- `key` is the value of `acc_io_resources_key`; the calls of signal handlers come first. -/
structure AccThread where
  veBuffUsingFlag : Int
  key : Option ObjectId
  frames : List AccFrame
  dst : DstPoint

structure AccProcess (Thread : Type) where
  heap : ResourceHeap
  thread : Thread → AccThread

inductive ResourceOp where
  | other
  | init2 (a : ObjectId)
  | insert (a : ObjectId)
  | unlink (a : ObjectId)
  | release (a : ObjectId) (calls : List SysveCall)
  | io (a : Option ObjectId) (event : IoEvent)

structure CallEffect where
  op : ResourceOp
  heap : ResourceHeap
  key : Option ObjectId
  accIoRes : Option ObjectId

/-- What the next step of a call does to the objects.  `INIT2` gives a VH buffer that is not
allocated. -/
def AccFrame.effect (f : AccFrame) (answer : IoAnswer) (key : Option ObjectId)
    (h : ResourceHeap) : Option CallEffect :=
  match f.call.point, answer with
  | .getspecific, _ => some ⟨.other, h, key, key⟩
  | .malloc, .address _ => some ⟨.other, h.malloc, key, some h.malloced⟩
  | .init2 veIoBuff, .vhBuffer vhva vehva localVehva =>
    if h.vhBuff vhva then none
    else f.accIoRes.map fun a =>
      let fields :=
        { localVehva := localVehva, vehva := vehva, vhBuff := vhva, veIoBuff := veIoBuff }
      ⟨.init2 a, h.init2 a fields, key, some a⟩
  | .free, _ => f.accIoRes.map fun a => ⟨.other, h.free a, key, some a⟩
  | .setspecific _, .ok => f.accIoRes.map fun a => ⟨.other, h, some a, some a⟩
  | .releaseResource, _ => f.accIoRes.map fun a =>
    ⟨.release a (h.releaseCalls a false), h.releaseResource a, key, some a⟩
  | .listInsert _, _ => f.accIoRes.map fun a => ⟨.insert a, h.linkHead a, key, some a⟩
  | .transfer (event :: _), _ => some ⟨.io f.accIoRes event, h, key, f.accIoRes⟩
  | _, _ => some ⟨.other, h, key, f.accIoRes⟩

namespace AccThread

def blank : AccThread where
  veBuffUsingFlag := veBuffNotUsing
  key := none
  frames := []
  dst := .outside

/-- The thread as `AccIo.Owner` has it: the key is followed to the object. -/
def io (t : AccThread) (h : ResourceHeap) : IoThread where
  veBuffUsingFlag := t.veBuffUsingFlag
  resources := t.key.map fun a => (h.node a).fields
  frames := t.frames.map AccFrame.call

def resumed (f : AccFrame) (accIoRes : Option ObjectId) (rest : List AccFrame) :
    List IoFrame → List AccFrame
  | [] => rest
  | f' :: _ =>
    match f.call.point with
    | .exit => rest
    | _ => { call := f', accIoRes := accIoRes } :: rest

def step (env : Env) (constructorPdma : Bool) (t : AccThread) (h : ResourceHeap) :
    IoLabel → Option (ResourceOp × ResourceHeap × AccThread)
  | .call request =>
    let call := { request := request, point := .entry, swapped := none }
    some (.other, h, { t with frames := { call := call, accIoRes := none } :: t.frames })
  | .step answer =>
    match t.frames with
    | [] => none
    | f :: rest => do
      let (_, io) ← (t.io h).stepFrame env constructorPdma f.call (rest.map AccFrame.call) answer
      let effect ← f.effect answer t.key h
      some (effect.op, effect.heap,
        { t with
          veBuffUsingFlag := io.veBuffUsingFlag
          key := effect.key
          frames := resumed f effect.accIoRes rest io.frames })

end AccThread

inductive AccLabel (Thread : Type) where
  | io (t : Thread) (label : IoLabel)
  | exit (t : Thread)
  | unlink (t : Thread)
  | release (t : Thread)

/-- The thread that forks, and how many objects the handler of the child visits at most. -/
structure ForkCall (Thread : Type) where
  thread : Thread
  fuel : Nat

variable {Thread : Type} [DecidableEq Thread]

namespace AccProcess

def initial (node : ObjectId → ResourceNode) : AccProcess Thread where
  heap :=
    { node := node
      live := fun _ => false
      malloced := 0
      listHeadNext := none
      vhBuff := fun _ => false }
  thread _ := .blank

def put (s : AccProcess Thread) (t : Thread) (h : ResourceHeap) (left : AccThread) :
    AccProcess Thread where
  heap := h
  thread := Function.update s.thread t left

@[simp] theorem put_self {s : AccProcess Thread} {t : Thread} {h : ResourceHeap}
    {left : AccThread} : (s.put t h left).thread t = left :=
  Function.update_self ..

theorem put_other {s : AccProcess Thread} {t u : Thread} {h : ResourceHeap} {left : AccThread}
    (other : u ≠ t) : (s.put t h left).thread u = s.thread u :=
  Function.update_of_ne other ..

/-- One step of a thread.  A thread that exits has no call left; its key is NULL when
`ve_accelerated_io_dstfunc` gets the old value. -/
def step (env : Env) (constructorPdma : Bool) (s : AccProcess Thread) :
    AccLabel Thread → Option (ResourceOp × AccProcess Thread)
  | .io t label => do
    let (op, h, left) ← (s.thread t).step env constructorPdma s.heap label
    some (op, s.put t h left)
  | .exit t =>
    match (s.thread t).frames, (s.thread t).dst, (s.thread t).key with
    | [], .outside, some a =>
      some (.other, s.put t s.heap { s.thread t with key := none, dst := .unlink a })
    | _, _, _ => none
  | .unlink t =>
    match (s.thread t).frames, (s.thread t).dst with
    | [], .unlink a =>
      some (.unlink a, s.put t (s.heap.unlink a) { s.thread t with dst := .release a })
    | _, _ => none
  | .release t =>
    match (s.thread t).frames, (s.thread t).dst with
    | [], .release a =>
      some (.release a (s.heap.releaseCalls a false),
        s.put t (s.heap.releaseResource a) { s.thread t with dst := .outside })
    | _, _ => none

/-- The objects that the handler of the child releases, and the child. -/
def fork (s : AccProcess Thread) (how : ForkCall Thread) :
    Option (List (ObjectId × List SysveCall) × AccProcess Thread) := do
  let (released, h) ← s.heap.atforkChild how.fuel
  let caller := s.thread how.thread
  some (released,
    { heap := h
      thread := Function.update (fun _ => .blank) how.thread
        { caller with key := none, veBuffUsingFlag := veBuffNotUsing } })

end AccProcess

variable (Thread) in
/-- Processes whose threads do accelerated I/O. -/
def accForking (env : Env) (constructorPdma : Bool) :
    Forking (AccProcess Thread) (AccLabel Thread) (ForkCall Thread) ResourceOp
      (List (ObjectId × List SysveCall)) where
  step := AccProcess.step env constructorPdma
  fork := AccProcess.fork

abbrev AccEvent (Thread : Type) :=
  MemberEvent (AccProcess Thread) (AccLabel Thread) (ForkCall Thread) ResourceOp
    (List (ObjectId × List SysveCall))

/-! ## What a step of a call does -/

/-- What a call has of an object `acc_io_res`, until it links it and while it uses the buffers. -/
inductive ResourceStage where
  | nothing
  | malloced
  | initialised
  | unset
  | set
  | inUse
deriving DecidableEq

def IoPoint.stage : IoPoint → ResourceStage
  | .init2 _ | .free => .malloced
  | .setspecific _ => .initialised
  | .releaseResource => .unset
  | .listInsert _ => .set
  | .preReturned (.success _) | .transfer (_ :: _) => .inUse
  | _ => .nothing

def AccFrame.stage (f : AccFrame) : ResourceStage := f.call.point.stage

def AccFrame.At (f : AccFrame) (stage : ResourceStage) (a : ObjectId) : Prop :=
  f.stage = stage ∧ f.accIoRes = some a

inductive CallMove (h : ResourceHeap) (key : Option ObjectId) (f : AccFrame)
    (rest : List AccFrame) :
    ResourceOp → ResourceHeap → Option ObjectId → List AccFrame → Prop
  | goesOn (f') (stage : f'.stage = f.stage)
      (same : f.stage ≠ .nothing → f'.accIoRes = f.accIoRes) :
      CallMove h key f rest .other h key (f' :: rest)
  | letsGo (f') (before : f.stage = .inUse) (after : f'.stage = .nothing) :
      CallMove h key f rest .other h key (f' :: rest)
  | returns (before : f.stage = .nothing) : CallMove h key f rest .other h key rest
  | finds (f' a) (found : key = some a) (before : f.stage = .nothing) (after : f'.At .inUse a) :
      CallMove h key f rest .other h key (f' :: rest)
  | mallocs (f') (before : f.stage = .nothing) (after : f'.At .malloced h.malloced) :
      CallMove h key f rest .other h.malloc key (f' :: rest)
  | frees (f' a) (before : f.At .malloced a) (after : f'.stage = .nothing) :
      CallMove h key f rest .other (h.free a) key (f' :: rest)
  | init2 (f' a fields) (before : f.At .malloced a) (after : f'.At .initialised a)
      (new : h.vhBuff fields.vhBuff = false) :
      CallMove h key f rest (.init2 a) (h.init2 a fields) key (f' :: rest)
  | sets (f' a) (before : f.At .initialised a) (after : f'.At .set a) :
      CallMove h key f rest .other h (some a) (f' :: rest)
  | fails (f') (before : f.stage = .initialised) (after : f'.stage = .unset)
      (same : f'.accIoRes = f.accIoRes) :
      CallMove h key f rest .other h key (f' :: rest)
  | releases (f' a) (before : f.At .unset a) (after : f'.stage = .nothing) :
      CallMove h key f rest (.release a (h.releaseCalls a false)) (h.releaseResource a) key
        (f' :: rest)
  | inserts (f' a) (before : f.At .set a) (after : f'.At .inUse a) :
      CallMove h key f rest (.insert a) (h.linkHead a) key (f' :: rest)
  | transfers (f' event) (before : f.stage = .inUse)
      (after : f'.stage = .inUse ∨ f'.stage = .nothing) (same : f'.accIoRes = f.accIoRes) :
      CallMove h key f rest (.io f.accIoRes event) h key (f' :: rest)

variable {h : ResourceHeap} {key : Option ObjectId} {f : AccFrame} {rest : List AccFrame}
  {env : Env} {pdma : Bool} {t io : IoThread} {action : IoAction} {answer : IoAnswer}
  {e : CallEffect} {point : IoPoint} {a : ObjectId}

theorem resumed_goOn {call : IoFrame} {acc : Option ObjectId}
    (moved : t.goOn call (rest.map AccFrame.call) point = some (action, io))
    (stays : f.call.point ≠ .exit) :
    AccThread.resumed f acc rest io.frames =
      { call := { call with point := point }, accIoRes := acc } :: rest := by
  obtain ⟨rfl, rfl⟩ := Prod.mk.inj (Option.some.inj moved)
  unfold AccThread.resumed
  cases here : f.call.point with
  | exit => exact absurd here stays
  | _ => rfl

theorem CallMove.plain {call : IoFrame}
    (moved : t.goOn call (rest.map AccFrame.call) point = some (action, io))
    (did : some (CallEffect.mk .other h key f.accIoRes) = some e)
    (stays : f.call.point ≠ .exit) (stage : point.stage = f.stage) :
    CallMove h key f rest e.op e.heap e.key (AccThread.resumed f e.accIoRes rest io.frames) := by
  obtain rfl := Option.some.inj did
  rw [resumed_goOn moved stays]
  exact .goesOn _ stage (fun _ => rfl)

theorem call_move
    (stepped : t.stepFrame env pdma f.call (rest.map AccFrame.call) answer = some (action, io))
    (view : t.resources.isSome = key.isSome) (did : f.effect answer key h = some e) :
    CallMove h key f rest e.op e.heap e.key (AccThread.resumed f e.accIoRes rest io.frames) := by
  obtain ⟨⟨request, point, swapped⟩, acc⟩ := f
  -- every point takes one kind of answer, or two
  cases point with
  | entry =>
    cases answer with
    | quiet =>
      refine CallMove.plain stepped did (by simp) ?_
      split
      · rfl
      · split <;> rfl
    | _ => simp [IoThread.stepFrame] at stepped
  | pre =>
    cases answer with
    | quiet =>
      refine CallMove.plain stepped did (by simp) ?_
      split <;> rfl
    | _ => simp [IoThread.stepFrame] at stepped
  | swap =>
    cases answer with
    | quiet =>
      refine CallMove.plain (t := { t with veBuffUsingFlag := veBuffUsing }) stepped did
        (by simp) ?_
      split <;> rfl
    | _ => simp [IoThread.stepFrame] at stepped
  | getspecific =>
    cases answer with
    | quiet =>
      obtain rfl := Option.some.inj did
      cases found : t.resources with
      | none =>
        simp only [IoThread.stepFrame, found] at stepped
        rw [resumed_goOn stepped (by simp)]
        exact .goesOn _ rfl (fun other => absurd rfl other)
      | some res =>
        rw [found] at view
        simp only [IoThread.stepFrame, found] at stepped
        rw [resumed_goOn stepped (by simp)]
        obtain ⟨a, here⟩ := Option.isSome_iff_exists.mp view.symm
        exact .finds _ a here rfl ⟨rfl, here⟩
    | _ => simp [IoThread.stepFrame] at stepped
  | chkEnvInitDma =>
    cases answer with
    | ok => exact .plain stepped did (by simp) rfl
    | failed => exact .plain stepped did (by simp) rfl
    | _ => simp [IoThread.stepFrame] at stepped
  | malloc =>
    cases answer with
    | address veIoBuff =>
      obtain rfl := Option.some.inj did
      rw [resumed_goOn stepped (by simp)]
      exact .mallocs _ rfl ⟨rfl, rfl⟩
    | failed => exact .plain stepped did (by simp) rfl
    | _ => simp [IoThread.stepFrame] at stepped
  | init2 veIoBuff =>
    cases answer with
    | vhBuffer vhva vehva localVehva =>
      simp only [AccFrame.effect, Option.ite_none_left_eq_some, Bool.not_eq_true,
        Option.map_eq_some_iff] at did
      obtain ⟨new, a, rfl, rfl⟩ := did
      rw [resumed_goOn stepped (by simp)]
      exact .init2 _ a _ ⟨rfl, rfl⟩ ⟨rfl, rfl⟩ new
    | failed => exact .plain stepped did (by simp) rfl
    | _ => simp [IoThread.stepFrame] at stepped
  | free =>
    cases answer with
    | quiet =>
      obtain ⟨a, rfl, rfl⟩ := Option.map_eq_some_iff.mp did
      rw [resumed_goOn stepped (by simp)]
      exact .frees _ a ⟨rfl, rfl⟩ rfl
    | _ => simp [IoThread.stepFrame] at stepped
  | setspecific res =>
    cases answer with
    | ok =>
      obtain ⟨a, rfl, rfl⟩ := Option.map_eq_some_iff.mp did
      rw [resumed_goOn (t := { t with resources := some res }) stepped (by simp)]
      exact .sets _ a ⟨rfl, rfl⟩ ⟨rfl, rfl⟩
    | failed =>
      obtain rfl := Option.some.inj did
      rw [resumed_goOn stepped (by simp)]
      exact .fails _ rfl rfl rfl
    | _ => simp [IoThread.stepFrame] at stepped
  | releaseResource =>
    cases answer with
    | quiet =>
      obtain ⟨a, rfl, rfl⟩ := Option.map_eq_some_iff.mp did
      rw [resumed_goOn stepped (by simp)]
      exact .releases _ a ⟨rfl, rfl⟩ rfl
    | _ => simp [IoThread.stepFrame] at stepped
  | listInsert res =>
    cases answer with
    | quiet =>
      obtain ⟨a, rfl, rfl⟩ := Option.map_eq_some_iff.mp did
      rw [resumed_goOn stepped (by simp)]
      exact .inserts _ a ⟨rfl, rfl⟩ ⟨rfl, rfl⟩
    | _ => simp [IoThread.stepFrame] at stepped
  | unlock retval =>
    cases answer with
    | quiet =>
      refine CallMove.plain (t := { t with veBuffUsingFlag := veBuffNotUsing }) stepped did
        (by simp) ?_
      cases retval <;> rfl
    | _ => simp [IoThread.stepFrame] at stepped
  | preReturned ret =>
    cases ret with
    | success io =>
      cases answer with
      | surroundings env' w =>
        obtain rfl := Option.some.inj did
        rw [resumed_goOn stepped (by simp)]
        cases events : request.events env' io w with
        | nil => exact .letsGo _ rfl rfl
        | cons event later => exact .goesOn _ rfl (fun _ => rfl)
      | _ => simp [IoThread.stepFrame] at stepped
    | fail =>
      cases answer with
      | quiet => exact .plain stepped did (by simp) rfl
      | _ => simp [IoThread.stepFrame] at stepped
    | noBuf =>
      cases answer with
      | quiet => exact .plain stepped did (by simp) rfl
      | _ => simp [IoThread.stepFrame] at stepped
  | freeIoHook =>
    cases answer with
    | quiet => exact .plain stepped did (by simp) rfl
    | _ => simp [IoThread.stepFrame] at stepped
  | plain =>
    cases answer with
    | quiet =>
      obtain ⟨rfl, rfl⟩ := Prod.mk.inj (Option.some.inj stepped)
      obtain rfl := Option.some.inj did
      exact .goesOn _ rfl (fun _ => rfl)
    | _ => simp [IoThread.stepFrame] at stepped
  | transfer events =>
    cases answer with
    | quiet =>
      cases events with
      | nil => exact .plain stepped did (by simp) rfl
      | cons event events =>
        obtain ⟨rfl, rfl⟩ := Prod.mk.inj (Option.some.inj stepped)
        obtain rfl := Option.some.inj did
        refine .transfers _ event rfl ?_ rfl
        cases events with
        | nil => exact Or.inr rfl
        | cons event' events => exact Or.inl rfl
    | _ =>
      cases events with
      | nil => simp [IoThread.stepFrame] at stepped
      | cons event events => simp [IoThread.stepFrame] at stepped
  | post =>
    cases answer with
    | quiet =>
      exact .plain (t := { t with veBuffUsingFlag := veBuffNotUsing }) stepped did (by simp) rfl
    | _ => simp [IoThread.stepFrame] at stepped
  | exit =>
    cases answer with
    | quiet =>
      obtain ⟨rfl, rfl⟩ := Prod.mk.inj (Option.some.inj stepped)
      obtain rfl := Option.some.inj did
      have left : AccThread.resumed ⟨⟨request, .exit, swapped⟩, acc⟩ acc rest
          (rest.map AccFrame.call) = rest := by
        cases rest with
        | nil => rfl
        | cons f rest => rfl
      rw [left]
      exact .returns rfl
    | _ => simp [IoThread.stepFrame] at stepped

/-! ## What a step of a thread does -/

inductive ProcessMove (s : AccProcess Thread) : ResourceOp → AccProcess Thread → Prop
  | calls (u : Thread) (left : AccThread) (f : AccFrame) (new : f.stage = .nothing)
      (frames : left.frames = f :: (s.thread u).frames) (key : left.key = (s.thread u).key)
      (dst : left.dst = (s.thread u).dst) : ProcessMove s .other (s.put u s.heap left)
  | moves (u : Thread) (left : AccThread) (f : AccFrame) (rest : List AccFrame) (op h')
      (running : (s.thread u).frames = f :: rest) (dst : left.dst = (s.thread u).dst)
      (move : CallMove s.heap (s.thread u).key f rest op h' left.key left.frames) :
      ProcessMove s op (s.put u h' left)
  | exits (u : Thread) (left : AccThread) (a : ObjectId) (quiet : (s.thread u).frames = [])
      (before : (s.thread u).dst = .outside) (key : (s.thread u).key = some a)
      (frames : left.frames = []) (key' : left.key = none) (after : left.dst = .unlink a) :
      ProcessMove s .other (s.put u s.heap left)
  | unlinks (u : Thread) (left : AccThread) (a : ObjectId) (quiet : (s.thread u).frames = [])
      (before : (s.thread u).dst = .unlink a) (frames : left.frames = [])
      (key : left.key = (s.thread u).key) (after : left.dst = .release a) :
      ProcessMove s (.unlink a) (s.put u (s.heap.unlink a) left)
  | releases (u : Thread) (left : AccThread) (a : ObjectId) (quiet : (s.thread u).frames = [])
      (before : (s.thread u).dst = .release a) (frames : left.frames = [])
      (key : left.key = (s.thread u).key) (after : left.dst = .outside) :
      ProcessMove s (.release a (s.heap.releaseCalls a false))
        (s.put u (s.heap.releaseResource a) left)

theorem process_move {s s' : AccProcess Thread} {label : AccLabel Thread} {op : ResourceOp}
    (stepped : s.step env pdma label = some (op, s')) : ProcessMove s op s' := by
  cases label with
  | io u label =>
    simp only [AccProcess.step, Option.bind_eq_bind, Option.bind_eq_some_iff] at stepped
    obtain ⟨⟨op', h', left⟩, moved, result⟩ := stepped
    obtain ⟨rfl, rfl⟩ := Prod.mk.inj (Option.some.inj result)
    cases label with
    | call request =>
      simp only [AccThread.step, Option.some.injEq, Prod.mk.injEq] at moved
      obtain ⟨rfl, rfl, rfl⟩ := moved
      exact .calls u _ _ rfl rfl rfl rfl
    | step answer =>
      cases running : (s.thread u).frames with
      | nil => simp [AccThread.step, running] at moved
      | cons f rest =>
        simp only [AccThread.step, running, Option.bind_eq_bind, Option.bind_eq_some_iff,
          Option.some.injEq] at moved
        obtain ⟨⟨action, io⟩, stepped, e, did, same⟩ := moved
        obtain ⟨rfl, rfl, rfl⟩ := same
        have view : ((s.thread u).io s.heap).resources.isSome = (s.thread u).key.isSome :=
          Option.isSome_map
        exact .moves u _ f rest _ _ running rfl (call_move stepped view did)
  | exit u =>
    simp only [AccProcess.step] at stepped
    split at stepped
    next a quiet before key =>
      obtain ⟨rfl, rfl⟩ := Prod.mk.inj (Option.some.inj stepped)
      exact .exits u _ a quiet before key quiet rfl rfl
    next => exact absurd stepped (by simp)
  | unlink u =>
    simp only [AccProcess.step] at stepped
    split at stepped
    next a quiet before =>
      obtain ⟨rfl, rfl⟩ := Prod.mk.inj (Option.some.inj stepped)
      exact .unlinks u _ a quiet before quiet rfl rfl
    next => exact absurd stepped (by simp)
  | release u =>
    simp only [AccProcess.step] at stepped
    split at stepped
    next a quiet before =>
      obtain ⟨rfl, rfl⟩ := Prod.mk.inj (Option.some.inj stepped)
      exact .releases u _ a quiet before quiet rfl rfl
    next => exact absurd stepped (by simp)

end Libsysve.AccIo
