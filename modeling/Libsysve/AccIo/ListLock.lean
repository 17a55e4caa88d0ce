import Libsysve.AccIo.ListExact

/-!
# The locked sections, statement by statement

`acc_io_resources_list_lock` is held in `ve_accelerated_io_pre`, in
`ve_accelerated_io_dstfunc` and around a fork.  Every statement of these sections, and of
`ve_accelerated_io_atfork_child`, is a step here, and other threads take their steps in
between.  The thread itself is only kept in the section by its signal mask: a signal handler
runs wherever its signal is not masked.
-/

set_option autoImplicit false

namespace Libsysve.AccIo

inductive ListSection where
  | insert (accIoRes : ObjectId)
  | unlink (param : ObjectId)
  | fork
deriving DecidableEq

/-- The assignments between `pthread_mutex_lock` and `pthread_mutex_unlock`. -/
def ListSection.statements : ListSection → List (ResourceHeap → ResourceHeap)
  | .insert a =>
    [fun h => h.setNext (.object a) h.listHeadNext,
      fun h => h.setPrev a (some .listHead),
      fun h =>
        match h.listHeadNext with
        | none => h
        | some b => h.setPrev b (some (.object a)),
      fun h => h.setNext .listHead (some a)]
  | .unlink a =>
    [fun h =>
        match (h.node a).prev with
        | none => h
        | some before => h.setNext before (h.node a).next,
      fun h =>
        match (h.node a).next with
        | none => h
        | some b => h.setPrev b (h.node a).prev]
  | .fork => []

def ListSection.written (part : ListSection) (made : Nat) (h : ResourceHeap) : ResourceHeap :=
  (part.statements.take made).foldl (fun h statement => statement h) h

/-- The next statement of `ve_accelerated_io_atfork_child`; `temp` is its variable. -/
inductive ChildPoint where
  | unlock
  | setspecific
  | first
  | walk (temp : Option ObjectId)
  | clearFlag
deriving DecidableEq

/-- Where a thread is in a section; with `restore` the mask is still to be set back. -/
inductive SectionPoint where
  | outside
  | waiting (part : ListSection)
  | locked (part : ListSection) (made : Nat)
  | child (next : ChildPoint)
  | restore
deriving DecidableEq

abbrev SigSet := Nat → Bool

/-- The constructor fills `acc_io_sigset`. -/
def accIoSigset : SigSet := fun _ => true

/-- A process, with `acc_io_resources_list_lock` and, of each thread, its signal mask and
`acc_io_sigset_old`.  The threads that are not `born` do not exist yet. -/
structure ListProcess (Thread : Type) where
  process : AccProcess Thread
  lock : Option Thread
  born : Thread → Bool
  point : Thread → SectionPoint
  mask : Thread → SigSet
  sigsetOld : Thread → SigSet

inductive ListLabel (Thread : Type) where
  /-- A step outside the sections. -/
  | run (label : AccLabel Thread)
  /-- A handler of the signal calls an I/O function. -/
  | handler (t : Thread) (signo : Nat) (request : IoRequest)
  /-- `pthread_sigmask (SIG_BLOCK, ..)` of `ve_accelerated_io_pre` or `ve_accelerated_io_dstfunc` -/
  | block (t : Thread)
  /-- `pthread_sigmask (SIG_BLOCK, ..)` of `ve_accelerated_io_atfork_prepare`: the thread, or a
  handler of a signal, forks. -/
  | atforkPrepare (t : Thread) (signo : Option Nat)
  /-- The next statement of the section. -/
  | next (t : Thread)
  /-- The thread, a handler's start or its end changes the mask. -/
  | sigmask (t : Thread) (mask : SigSet)
  | create (t u : Thread)

/-- What a step does to an object; the handler of a child releases objects of its parent. -/
inductive ListOp where
  | op (op : ResourceOp)
  | childReleases (a : ObjectId) (calls : List SysveCall)

def AccThread.nextSection (t : AccThread) : Option ListSection :=
  match t.frames, t.dst with
  | f :: _, _ =>
    match f.call.point with
    | .listInsert _ => f.accIoRes.map .insert
    | _ => none
  | [], .unlink a => some (.unlink a)
  | [], _ => none

def AccLabel.actor {Thread : Type} : AccLabel Thread → Thread
  | .io t _ | .exit t | .unlink t | .release t => t

def AccThread.plain {Thread : Type} (t : AccThread) : AccLabel Thread → Bool
  | .io _ (.call _) => t.frames.isEmpty && decide (t.dst = .outside)
  | .io _ (.step _) => t.nextSection.isNone
  | .exit _ | .release _ => true
  | .unlink _ => false

variable {Thread : Type} [DecidableEq Thread]

namespace ListProcess

def initial (node : ObjectId → ResourceNode) (main : Thread) (mask : SigSet) :
    ListProcess Thread where
  process := .initial node
  lock := none
  born t := decide (t = main)
  point _ := .outside
  mask _ := mask
  sigsetOld _ := mask

def Idle (s : ListProcess Thread) (t : Thread) : Prop := s.born t = true ∧ s.point t = .outside

instance (s : ListProcess Thread) (t : Thread) : Decidable (s.Idle t) :=
  inferInstanceAs (Decidable (_ ∧ _))

def Delivers (s : ListProcess Thread) (t : Thread) (signo : Nat) : Prop :=
  s.born t = true ∧ s.mask t signo = false

instance (s : ListProcess Thread) (t : Thread) (signo : Nat) : Decidable (s.Delivers t signo) :=
  inferInstanceAs (Decidable (_ ∧ _))

def goTo (s : ListProcess Thread) (t : Thread) (point : SectionPoint) : ListProcess Thread :=
  { s with point := Function.update s.point t point }

/-- `pthread_sigmask (SIG_BLOCK, &acc_io_sigset, &acc_io_sigset_old)` -/
def sigBlock (s : ListProcess Thread) (t : Thread) (part : ListSection) : ListProcess Thread where
  process := s.process
  lock := s.lock
  born := s.born
  point := Function.update s.point t (.waiting part)
  mask := Function.update s.mask t fun signo => s.mask t signo || accIoSigset signo
  sigsetOld := Function.update s.sigsetOld t (s.mask t)

/-- `pthread_sigmask (SIG_SETMASK, &acc_io_sigset_old, NULL)` -/
def sigRestore (s : ListProcess Thread) (t : Thread) : ListProcess Thread :=
  { s with
    point := Function.update s.point t .outside
    mask := Function.update s.mask t (s.sigsetOld t) }

/-- What the thread goes on with after the section: the memory is as the assignments left it. -/
def leave (env : Env) (constructorPdma : Bool) (s : ListProcess Thread) (t : Thread) :
    ListSection → Option (ResourceOp × AccProcess Thread)
  | .insert _ => do
    let (op, after) ← s.process.step env constructorPdma (.io t (.step .quiet))
    some (op, { after with heap := s.process.heap })
  | .unlink _ => do
    let (op, after) ← s.process.step env constructorPdma (.unlink t)
    some (op, { after with heap := s.process.heap })
  | .fork => some (.other, s.process)

def childNext (s : ListProcess Thread) (t : Thread) :
    ChildPoint → ListOp × ListProcess Thread
  | .unlock => (.op .other, { s.goTo t (.child .setspecific) with lock := none })
  | .setspecific =>
    let left := { s.process.thread t with key := none }
    (.op .other,
      { s.goTo t (.child .first) with process := s.process.put t s.process.heap left })
  | .first => (.op .other, s.goTo t (.child (.walk s.process.heap.listHeadNext)))
  | .walk (some tem) =>
    let temp := (s.process.heap.node tem).next
    (.childReleases tem (s.process.heap.releaseCalls tem true),
      { s.goTo t (.child (.walk temp)) with
        process := { s.process with heap := s.process.heap.releaseResource tem } })
  | .walk none =>
    (.op .other,
      { s.goTo t (.child .clearFlag) with
        process := { s.process with heap := s.process.heap.setNext .listHead none } })
  | .clearFlag =>
    let left := { s.process.thread t with veBuffUsingFlag := veBuffNotUsing }
    (.op .other, { s.goTo t .restore with process := s.process.put t s.process.heap left })

def next (env : Env) (constructorPdma : Bool) (s : ListProcess Thread) (t : Thread) :
    Option (ListOp × ListProcess Thread) :=
  match s.point t with
  | .outside => none
  | .waiting part =>
    match s.lock with
    | some _ => none
    | none => some (.op .other, { s.goTo t (.locked part 0) with lock := some t })
  | .locked part made =>
    match part.statements[made]? with
    | some statement =>
      some (.op .other,
        { s.goTo t (.locked part (made + 1)) with
          process := { s.process with heap := statement s.process.heap } })
    | none => do
      let (op, process) ← s.leave env constructorPdma t part
      some (.op op, { s.goTo t .restore with process := process, lock := none })
  | .child point => some (s.childNext t point)
  | .restore => some (.op .other, s.sigRestore t)

def step (env : Env) (constructorPdma : Bool) (s : ListProcess Thread) :
    ListLabel Thread → Option (ListOp × ListProcess Thread)
  | .run label =>
    if s.Idle label.actor ∧ (s.process.thread label.actor).plain label = true then do
      let (op, process) ← s.process.step env constructorPdma label
      some (.op op, { s with process := process })
    else none
  | .handler t signo request =>
    if s.Delivers t signo then do
      let (op, process) ← s.process.step env constructorPdma (.io t (.call request))
      some (.op op, { s with process := process })
    else none
  | .block t =>
    if s.Idle t then
      (s.process.thread t).nextSection.map fun part => (.op .other, s.sigBlock t part)
    else none
  | .atforkPrepare t none =>
    let caller := s.process.thread t
    if s.Idle t ∧ caller.frames = [] ∧ caller.dst = .outside then
      some (.op .other, s.sigBlock t .fork)
    else none
  | .atforkPrepare t (some signo) =>
    if s.Delivers t signo then some (.op .other, s.sigBlock t .fork) else none
  | .next t => s.next env constructorPdma t
  | .sigmask t mask =>
    if s.Idle t then some (.op .other, { s with mask := Function.update s.mask t mask })
    else none
  | .create t u =>
    if s.Idle t ∧ s.born u = false then
      some (.op .other,
        { s with
          born := Function.update s.born u true
          mask := Function.update s.mask u (s.mask t) })
    else none

/-- The thread that holds the lock for it forks: the child has this thread and the memory, with
the lock taken. -/
def fork (s : ListProcess Thread) (t : Thread) : Option (Unit × ListProcess Thread) :=
  if s.point t = .locked .fork 0 then
    some ((),
      { s with
        process :=
          { heap := s.process.heap
            thread := Function.update (fun _ => .blank) t (s.process.thread t) }
        born := fun u => decide (u = t)
        point := Function.update (fun _ => .outside) t (.child .unlock) })
  else none

end ListProcess

variable (Thread) in
/-- Processes whose locked sections are not one step. -/
def listForking (env : Env) (constructorPdma : Bool) :
    Forking (ListProcess Thread) (ListLabel Thread) Thread ListOp Unit where
  step := ListProcess.step env constructorPdma
  fork := ListProcess.fork

end Libsysve.AccIo
