import Libsysve.Vedma.Ring
import Libsysve.Library.Atomic

/-!
# vedma_main.S, one access at a time

Here every load, every store and every `cas` of `ve_dma_post`, `ve_dma_poll` and
`ve_dma_post_wait` is a step of its own, so any number of threads, the hardware and the tail
of `ve_dma_post_wait` get in between.  The accesses are taken in program order, which is what
the `fencem` instructions are there for; a step that only computes is part of the next one.
-/

set_option autoImplicit false

namespace Libsysve.Vedma

/-- What the functions read and write: `vedma_vars`, the descriptors and the handles. -/
structure Memory (Handle : Type) where
  vedmaDesc : DescIndex → DmaDesc
  vedmaLock : BitVec 64
  vedmaIndex : DescIndex
  vedmaStatus : DescIndex → StatusEntry Handle
  handle : Handle → VeDmaHandle

/-- The arguments of `ve_dma_post`, or of `ve_dma_post_wait` when there is no handle. -/
structure Request (Handle : Type) where
  dst : BitVec 64
  src : BitVec 64
  size : BitVec 32
  handle : Option Handle
deriving DecidableEq

inductive Call (Handle : Type) where
  | request (q : Request Handle)
  | poll (h : Handle)
deriving DecidableEq

inductive Store (Handle : Type) where
  | dst (i : DescIndex) (x : BitVec 64)
  | src (i : DescIndex) (x : BitVec 64)
  | size (i : DescIndex) (x : BitVec 64)
  | word (i : DescIndex) (x : BitVec 64)
  | status (i : DescIndex) (entry : StatusEntry Handle)
  | index (i : DescIndex)
  | handleStatus (h : Handle) (x : Int)
  | handleIndex (h : Handle) (i : DescIndex)

/-- Where a function goes on after it has unlocked. -/
inductive Exit (Handle : Type) where
  | returns (s0 : Int)
  | waits (q : Request Handle) (s34 : DescIndex)

/-- The next access of a thread, with the registers that are still needed.  `stores` is a
run of stores that ends in the one that unlocks. -/
inductive Pc (Handle : Type) where
  | outside
  | cas (call : Call Handle) (s63 : BitVec 64)
  | ldIndex (q : Request Handle)
  | ldStatus (q : Request Handle) (s34 : DescIndex)
  | lhmDesc (q : Request Handle) (s34 : DescIndex)
  | ldHandle (q : Request Handle) (s34 : DescIndex) (s62 : Int)
  | ldlStatus (h : Handle)
  | ldlIndex (h : Handle)
  | lhmPoll (h : Handle) (s34 : DescIndex)
  | stores (left : List (Store Handle)) (exit : Exit Handle)
  | lhmWait (q : Request Handle) (s34 : DescIndex)
  | stWait (q : Request Handle) (s34 : DescIndex) (s63 : BitVec 64)
  | ret (s0 : Int)

variable {Handle Thread : Type}

/-- "start DMA" up to "update vedma_index". -/
def Request.start (q : Request Handle) (s34 : DescIndex) : List (Store Handle) :=
  [.dst s34 q.dst, .src s34 q.src, .size s34 (q.size.setWidth 64 + (8#64 <<< 32)),
    .word s34 1] ++
  (match q.handle with
    | some h => [.handleStatus h (-1), .handleIndex h s34, .status s34 (.handle h)]
    | none => [.status s34 .sync]) ++
  [.index (s34 + 1)]

def Request.exit (q : Request Handle) (s34 : DescIndex) : Exit Handle :=
  match q.handle with
  | some _ => .returns 0
  | none => .waits q s34

/-- Where a request goes that finds its descriptor taken: `ve_dma_post` gives up, and
`ve_dma_post_wait` repeats the load it has just done. -/
def Request.busy (q : Request Handle) (again : Pc Handle) : Pc Handle :=
  match q.handle with
  | some _ => .stores [] (.returns (-eagain))
  | none => again

def Call.section : Call Handle → Pc Handle
  | .request q => .ldIndex q
  | .poll h => .ldlStatus h

def Exit.pc : Exit Handle → Pc Handle
  | .returns s0 => .ret s0
  | .waits q s34 => .lhmWait q s34

variable [DecidableEq Handle]

def Memory.setDesc (m : Memory Handle) (i : DescIndex) (d : DmaDesc) : Memory Handle :=
  { m with vedmaDesc := Function.update m.vedmaDesc i d }

def Memory.setStatus (m : Memory Handle) (i : DescIndex) (entry : StatusEntry Handle) :
    Memory Handle :=
  { m with vedmaStatus := Function.update m.vedmaStatus i entry }

def Memory.setHandle (m : Memory Handle) (h : Handle) (d : VeDmaHandle) : Memory Handle :=
  { m with handle := Function.update m.handle h d }

def Memory.setLock (m : Memory Handle) (x : BitVec 64) : Memory Handle :=
  { m with vedmaLock := x }

def Memory.store (m : Memory Handle) : Store Handle → Memory Handle
  | .dst i x => m.setDesc i { m.vedmaDesc i with dst := x }
  | .src i x => m.setDesc i { m.vedmaDesc i with src := x }
  | .size i x => m.setDesc i { m.vedmaDesc i with size := x }
  | .word i x => m.setDesc i { m.vedmaDesc i with word := x }
  | .status i entry => m.setStatus i entry
  | .index i => { m with vedmaIndex := i }
  | .handleStatus h x => m.setHandle h { m.handle h with status := x }
  | .handleIndex h i => m.setHandle h { m.handle h with index := i }

/-- The next access of a thread: what the call returns, if it does, the memory and the access
after it. -/
def access (m : Memory Handle) : Pc Handle → Option (Option Int × Memory Handle × Pc Handle)
  | .outside => none
  | .cas call s63 =>
    -- a `cas` that fails leaves the lock word in the register, and the next one tries that
    if m.vedmaLock = 0 then some (none, m.setLock s63, call.section)
    else some (none, m, .cas call m.vedmaLock)
  | .ldIndex q => some (none, m, .ldStatus q m.vedmaIndex)
  | .ldStatus q s34 =>
    match m.vedmaStatus s34 with
    | .sync => some (none, m, q.busy (.ldStatus q s34))
    | .null => some (none, m, .stores (q.start s34) (q.exit s34))
    | .handle _ => some (none, m, .lhmDesc q s34)
  | .lhmDesc q s34 =>
    let s63 := (m.vedmaDesc s34).word
    if completed s63 then some (none, m, .ldHandle q s34 (exception s63))
    else some (none, m, q.busy (.lhmDesc q s34))
  | .ldHandle q s34 s62 =>
    match m.vedmaStatus s34 with
    | .handle g =>
      some (none, m, .stores (.handleStatus g s62 :: .status s34 .null :: q.start s34)
        (q.exit s34))
    -- 0 or 1 is no address of a handle
    | _ => none
  | .ldlStatus h =>
    let s63 := (m.handle h).status
    if s63 ≠ -1 then some (none, m, .stores [] (.returns s63))
    else some (none, m, .ldlIndex h)
  | .ldlIndex h => some (none, m, .lhmPoll h (m.handle h).index)
  | .lhmPoll _ s34 =>
    let s63 := (m.vedmaDesc s34).word
    if completed s63 then some (none, m, .stores [.status s34 .null] (.returns (exception s63)))
    else some (none, m, .stores [] (.returns (-eagain)))
  | .stores (next :: left) exit => some (none, m.store next, .stores left exit)
  | .stores [] exit => some (none, m.setLock 0, exit.pc)
  | .lhmWait q s34 =>
    let s63 := (m.vedmaDesc s34).word
    if completed s63 then some (none, m, .stWait q s34 s63)
    else some (none, m, .lhmWait q s34)
  | .stWait _ s34 s63 => some (none, m.setStatus s34 .null, .ret (exception s63))
  | .ret s0 => some (some s0, m, .outside)

structure Cpu (Handle Thread : Type) where
  memory : Memory Handle
  pc : Thread → Pc Handle

inductive CpuLabel (Handle Thread : Type) where
  | call (t : Thread) (c : Call Handle)
  | access (t : Thread)
  | hardware (i : DescIndex) (word : BitVec 64)
deriving DecidableEq

variable [DecidableEq Thread]

def Cpu.move (f : Cpu Handle Thread) (t : Thread) (memory : Memory Handle) (pc : Pc Handle) :
    Cpu Handle Thread where
  memory := memory
  pc := Function.update f.pc t pc

def Cpu.setMemory (f : Cpu Handle Thread) (memory : Memory Handle) : Cpu Handle Thread :=
  { f with memory := memory }

/-- `sl` is the stack limit of a thread, which it puts into the lock. -/
def cpuStep (sl : Thread → BitVec 64) (f : Cpu Handle Thread) :
    CpuLabel Handle Thread → Option (Option Int × Cpu Handle Thread)
  | .call t c =>
    match f.pc t with
    | .outside => some (none, f.move t f.memory (.cas c (sl t)))
    | _ => none
  | .access t =>
    (access f.memory (f.pc t)).map fun (out, memory, pc) => (out, f.move t memory pc)
  | .hardware i word =>
    if (f.memory.vedmaDesc i).word = 1 ∧ completed word = true then
      some (none, f.setMemory (f.memory.store (.word i word)))
    else none

variable (Handle) in
def cpuMachine (sl : Thread → BitVec 64) :
    Machine (Cpu Handle Thread) (CpuLabel Handle Thread) (Option Int) where
  step := cpuStep sl

/-- What `ve_dma_init` leaves in a process that has just mapped its descriptors. -/
def Cpu.initial (desc : DescIndex → DmaDesc) (handle : Handle → VeDmaHandle) :
    Cpu Handle Thread where
  memory :=
    { vedmaDesc := desc
      vedmaLock := 0
      vedmaIndex := 0
      vedmaStatus := fun _ => .null
      handle := handle }
  pc _ := .outside

end Libsysve.Vedma
