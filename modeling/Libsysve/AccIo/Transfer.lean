import Libsysve.AccIo.Basic
import Libsysve.Library.ForLoop

/-!
# The four transfer functions

`ve_accelerated_io_read_pread` and `ve_accelerated_io_readv_preadv` are one pipeline,
`readTransfer`, that differs in how a VE half is copied to the user; the two write
functions are `writeTransfer` with two ways to fill a VE half.  The way is a `CopyPlan`:
from a cursor and a size, the new cursor, the memory copies to make, and what is left
over of the size (`ve_buff_size_less`; `0` in the contiguous functions, which have none).

`int i` is a natural number here: the loops count from 0 and a call of 2^31 chunks or
more is outside what `int` defines.
-/

set_option autoImplicit false

namespace Libsysve.AccIo

open Libsysve.ByteMemory Libsysve.ForLoop

abbrev CopyPlan (Cursor : Type) := Cursor → Int → Cursor × List CopyReq × Int

/-- One `memcpy` at `buf`, then `buf = buf + size`. -/
def bufferPlan : CopyPlan Nat := fun buf size => (buf + size.toNat, [⟨buf, 0, size⟩], 0)

structure Iovec where
  iovBase : Nat
  iovLen : Nat
deriving DecidableEq

structure IovCursor where
  nextIovNum : Nat
  iovLenDone : Int
deriving DecidableEq

/-- The loop `for (n = next_iov_num; n < count; n++)` over the segments from `n` on.
`first` is `next_iov_num`, which a loop that ends without its `break` leaves alone. -/
def iovCopyLoop (first : Nat) : List Iovec → Nat → Int → Int → Int →
    IovCursor × List CopyReq × Int
  | [], _, iovLenDone, veBuffSizeLess, _ => (⟨first, iovLenDone⟩, [], veBuffSizeLess)
  | v :: rest, n, iovLenDone, veBuffSizeLess, off =>
    let iovLenLess := int64 (v.iovLen - iovLenDone)
    let iovCopySize := min iovLenLess veBuffSizeLess
    let req : CopyReq := ⟨v.iovBase + iovLenDone.toNat, off, iovCopySize⟩
    if 0 ≥ veBuffSizeLess - iovCopySize then
      if iovLenLess > veBuffSizeLess then
        (⟨n, iovLenDone + veBuffSizeLess⟩, [req], veBuffSizeLess - iovCopySize)
      else
        (⟨n + 1, 0⟩, [req], veBuffSizeLess - iovCopySize)
    else
      let (cursor, reqs, left) :=
        iovCopyLoop first rest (n + 1) 0 (veBuffSizeLess - iovCopySize) (off + iovCopySize)
      (cursor, req :: reqs, left)

def iovPlan (iov : List Iovec) : CopyPlan IovCursor := fun cursor size =>
  iovCopyLoop cursor.nextIovNum (iov.drop cursor.nextIovNum) cursor.nextIovNum
    cursor.iovLenDone size 0

/-- "get total size": `total_size = total_size + iov[i].iov_len`, in 64 bits. -/
def totalSize (iov : List Iovec) : Int :=
  iov.foldl (fun total v => int64 (total + v.iovLen)) 0

/-- `(count + transfer_size - 1) / transfer_size` in `size_t`. -/
def chunkNumOfCount (count : Nat) : Nat := (count + parasSize - 1) % 2 ^ 64 / parasSize

/-- The same in `ssize_t`, converted to `uint64_t`. -/
def chunkNumOfTotal (total : Int) : Nat :=
  (((int64 (total + parasSize - 1)).tdiv parasSize) % 2 ^ 64).toNat

/-- The local variables of a transfer function.  `cursor` is `buf`, or `next_iov_num` and
`iov_len_done`; `halfSize` is `read_out_size` or `need_write_in_size`. -/
structure IoState (Cursor : Type) where
  world : World
  io : AccIoInfo
  cursor : Cursor
  ofs : Int
  transferSize : Int
  halfSize : Half → Int
  posted : Half → Option Nat
  exitResult : Int
  errnoBak : Int
  dataErr : Bool

/-- What a call passes to its chunk system calls, and how many chunks it has. -/
structure IoCall (Cursor : Type) where
  num : SyscallNum
  fd : Int
  total : Int
  chunkNum : Nat
  plan : CopyPlan Cursor

namespace IoState

variable {Cursor : Type}

def start (w : World) (io : AccIoInfo) (cursor : Cursor) (ofs : Int) : IoState Cursor where
  world := w
  io := io
  cursor := cursor
  ofs := int64 ofs
  transferSize := parasSize
  halfSize := fun _ => 0
  posted := fun _ => none
  exitResult := 0
  errnoBak := 0
  dataErr := false

/-- The head of the loop body: the second-call mark and the size of the last chunk. -/
def prepare (env : Env) (call : IoCall Cursor) (i : Nat) (s : IoState Cursor) :
    IoState Cursor :=
  let s := if i = 1 then { s with io := s.io.markSecond env } else s
  if i = call.chunkNum - 1 then
    { s with transferSize := int64 (call.total - s.transferSize * i) }
  else s

theorem prepare_frame (env : Env) (call : IoCall Cursor) (i : Nat) (s : IoState Cursor) :
    ∃ io size, s.prepare env call i = { s with io := io, transferSize := size } := by
  unfold prepare
  by_cases second : i = 1
  · rw [if_pos second]
    dsimp only
    split
    · exact ⟨_, _, rfl⟩
    · exact ⟨_, _, rfl⟩
  · rw [if_neg second]
    dsimp only
    split
    · exact ⟨_, _, rfl⟩
    · exact ⟨_, _, rfl⟩

theorem prepare_world (env : Env) (call : IoCall Cursor) (i : Nat) (s : IoState Cursor) :
    (s.prepare env call i).world = s.world := by
  obtain ⟨io, size, frame⟩ := prepare_frame env call i s
  rw [frame]

/-- `posted[j] = -1`. -/
def unpost (s : IoState Cursor) (j : Half) : IoState Cursor :=
  { s with posted := Function.update s.posted j none }

theorem unpost_self (s : IoState Cursor) (j : Half) : (s.unpost j).posted j = none :=
  Function.update_self _ _ _

theorem unpost_other (s : IoState Cursor) {j k : Half} (other : k ≠ j) :
    (s.unpost j).posted k = s.posted k := Function.update_of_ne other _ _

/-- `exit_result = FAIL; errno_bak = EIO; data_err = 1`. -/
def dmaError (s : IoState Cursor) : IoState Cursor :=
  { s with exitResult := -1, errnoBak := eio, dataErr := true }

/-- `errno_bak = errno; exit_result = -1`, when the chunk that failed is the first. -/
def firstError (first : Bool) (s : IoState Cursor) : IoState Cursor :=
  if first then { s with errnoBak := s.world.errno, exitResult := -1 } else s

@[simp] theorem firstError_world (first : Bool) (s : IoState Cursor) :
    (s.firstError first).world = s.world := by
  cases first <;> rfl

@[simp] theorem firstError_io (first : Bool) (s : IoState Cursor) :
    (s.firstError first).io = s.io := by
  cases first <;> rfl

@[simp] theorem firstError_posted (first : Bool) (s : IoState Cursor) :
    (s.firstError first).posted = s.posted := by
  cases first <;> rfl

@[simp] theorem firstError_halfSize (first : Bool) (s : IoState Cursor) :
    (s.firstError first).halfSize = s.halfSize := by
  cases first <;> rfl

def clearErrno (s : IoState Cursor) : IoState Cursor :=
  { s with world := { s.world with errno := 0 } }

def setDataErr (s : IoState Cursor) : IoState Cursor := { s with dataErr := true }

def wait (env : Env) (j : Half) (s : IoState Cursor) : Nat × IoState Cursor :=
  let (dmaRet, w) := s.world.veDmaWait env j
  (dmaRet, { s with world := w })

def post (env : Env) (dir : DmaDir) (j : Half) (data : Int) (s : IoState Cursor) :
    Bool × IoState Cursor :=
  let (ok, w) := s.world.veDmaPost env s.io dir j data
  (ok, { s with world := w })

/-- Copy the VE half to the user and count it. -/
def deliver (plan : CopyPlan Cursor) (j : Half) (s : IoState Cursor) : IoState Cursor :=
  let (cursor, reqs, _) := plan s.cursor (s.halfSize j)
  { s with
    cursor := cursor
    world := s.world.copyOut j (s.halfSize j) reqs
    exitResult := s.exitResult + s.halfSize j }

/-- Fill the VE half from the user; the rest is what the user buffers did not have. -/
def fill (plan : CopyPlan Cursor) (j : Half) (s : IoState Cursor) : Int × IoState Cursor :=
  let (cursor, reqs, left) := plan s.cursor s.transferSize
  (left, { s with cursor := cursor, world := s.world.copyIn j s.transferSize reqs })

/-- `read_out_size[j] = syscall(...)`. -/
def readSysCall (env : Env) (call : IoCall Cursor) (j : Half) (s : IoState Cursor) :
    IoState Cursor :=
  let (ret, w) := s.world.readChunk env call.num call.fd j (s.io.vhBuffAndFlag j)
    s.transferSize s.ofs
  { s with world := w, halfSize := Function.update s.halfSize j ret }

/-- `write_in_size = syscall(...)`. -/
def writeSysCall (env : Env) (call : IoCall Cursor) (j : Half) (size : Int)
    (s : IoState Cursor) : Int × IoState Cursor :=
  let (writeInSize, w) := s.world.writeChunk env call.num call.fd j (s.io.vhBuffAndFlag j)
    size s.ofs
  (writeInSize, { s with world := w })

/-- `ofs = ofs + transfer_size`. -/
def skipOfs (s : IoState Cursor) : IoState Cursor :=
  { s with ofs := int64 (s.ofs + s.transferSize) }

/-- `ofs = ofs + read_out_size[j]; posted[j] = i`. -/
def recordRead (i : Nat) (s : IoState Cursor) : IoState Cursor :=
  { s with
    ofs := int64 (s.ofs + s.halfSize (half i))
    posted := Function.update s.posted (half i) (some i) }

theorem recordRead_self (s : IoState Cursor) (i : Nat) :
    (s.recordRead i).posted (half i) = some i := Function.update_self ..

theorem recordRead_other (s : IoState Cursor) (i : Nat) {j : Half} (other : j ≠ half i) :
    (s.recordRead i).posted j = s.posted j := Function.update_of_ne other _ _

/-- `posted[j] = i; need_write_in_size[j] = size`. -/
def recordWrite (i : Nat) (size : Int) (s : IoState Cursor) : IoState Cursor :=
  { s with
    posted := Function.update s.posted (half i) (some i)
    halfSize := Function.update s.halfSize (half i) size }

theorem recordWrite_self (s : IoState Cursor) (i : Nat) (size : Int) :
    (s.recordWrite i size).posted (half i) = some i := Function.update_self ..

theorem recordWrite_other (s : IoState Cursor) (i : Nat) (size : Int) {j : Half}
    (other : j ≠ half i) : (s.recordWrite i size).posted j = s.posted j :=
  Function.update_of_ne other _ _

theorem recordWrite_halfSize_self (s : IoState Cursor) (i : Nat) (size : Int) :
    (s.recordWrite i size).halfSize (half i) = size := Function.update_self ..

theorem recordWrite_halfSize_other (s : IoState Cursor) (i : Nat) (size : Int) {j : Half}
    (other : j ≠ half i) : (s.recordWrite i size).halfSize j = s.halfSize j :=
  Function.update_of_ne other _ _

/-- `exit_result += write_in_size; ofs += write_in_size`. -/
def accept (writeInSize : Int) (s : IoState Cursor) : IoState Cursor :=
  { s with
    exitResult := s.exitResult + writeInSize
    ofs := int64 (s.ofs + writeInSize) }

end IoState

section Loops

variable {Cursor : Type}

/-- The end of the read loop body: the chunk system call, then the DMA to VE. -/
def readIssue (env : Env) (call : IoCall Cursor) (i : Nat) (s : IoState Cursor) :
    LoopCtl (IoState Cursor) :=
  let j := half i
  let s := s.readSysCall env call j
  if s.halfSize j = -1 then
    .brk (((s.firstError (i = 0)).clearErrno).unpost j)
  else if s.halfSize j = 0 then
    .brk (s.unpost j)
  else
    let (ok, s) := s.post env .vhToVe j (s.halfSize j)
    if ok = false then
      .brk (s.skipOfs.dmaError.unpost j)
    else
      let s := s.recordRead i
      if s.transferSize > s.halfSize j then .brk s else .next s

def readBody (env : Env) (call : IoCall Cursor) (i : Nat) (s : IoState Cursor) :
    LoopCtl (IoState Cursor) :=
  let s := s.prepare env call i
  let j := half i
  if buffNparas ≤ i then
    let (dmaRet, s) := s.wait env j
    if dmaRet ≥ 1 then .brk (s.dmaError.unpost j)
    else readIssue env call i (s.deliver call.plan j)
  else
    readIssue env call i s

def veFindMinPosted (posted : Half → Option Nat) : Half :=
  let look (least : Half × Option Nat) (k : Half) : Half × Option Nat :=
    match posted k, least.2 with
    | none, _ => least
    | some v, none => (k, some v)
    | some v, some minV => if v < minV then (k, some v) else least
  (look (look (0, none) 0) 1).1

/-- One round of the "Last 8MB" loop of the read functions. -/
def readDrainStep (env : Env) (call : IoCall Cursor) (index : Half) (s : IoState Cursor) :
    IoState Cursor :=
  match s.posted index with
  | none => s
  | some i =>
    let j := half i
    let (dmaRet, s) := s.wait env j
    let s := if dmaRet ≥ 1 then s.dmaError else s
    if s.dataErr then s else s.deliver call.plan j

def readDrain (env : Env) (call : IoCall Cursor) (s : IoState Cursor) : IoState Cursor :=
  let minK := veFindMinPosted s.posted
  readDrainStep env call (minK + 1) (readDrainStep env call minK s)

/-- The end of the write loop body: fill the VE half, then the DMA to VH. -/
def writeIssue (env : Env) (call : IoCall Cursor) (i : Nat) (s : IoState Cursor) :
    LoopCtl (IoState Cursor) :=
  let j := half i
  let (left, s) := s.fill call.plan j
  let (ok, s) := s.post env .veToVh j s.transferSize
  if ok = false then
    .brk (s.dmaError.unpost j)
  else
    .next (s.recordWrite i (s.transferSize - left))

/-- The chunk system call of the write loop, on the chunk half `j` holds since two rounds. -/
def writeFlush (env : Env) (call : IoCall Cursor) (i : Nat) (s : IoState Cursor) :
    LoopCtl (IoState Cursor) :=
  let j := half i
  let (writeInSize, s) := s.writeSysCall env call j parasSize
  if writeInSize = -1 then
    .brk (((s.firstError (s.posted j = some 0)).clearErrno.setDataErr).unpost j)
  else if writeInSize = 0 then
    .brk (s.setDataErr.unpost j)
  else
    let s := s.accept writeInSize
    if parasSize > writeInSize then .brk (s.setDataErr.unpost j)
    else writeIssue env call i s

def writeBody (env : Env) (call : IoCall Cursor) (i : Nat) (s : IoState Cursor) :
    LoopCtl (IoState Cursor) :=
  let s := s.prepare env call i
  let j := half i
  if buffNparas ≤ i then
    let (dmaRet, s) := s.wait env j
    if dmaRet ≥ 1 then .brk (s.dmaError.unpost j)
    else writeFlush env call i s
  else
    writeIssue env call i s

/-- One round of the "Last 8MB" loop of the write functions. -/
def writeDrainStep (env : Env) (call : IoCall Cursor) (index : Half) (s : IoState Cursor) :
    IoState Cursor :=
  match s.posted index with
  | none => s
  | some i =>
    let j := half i
    let (dmaRet, s) := s.wait env j
    let s := if dmaRet ≥ 1 then s.dmaError else s
    if s.dataErr then s
    else
      let (writeInSize, s) := s.writeSysCall env call j (s.halfSize j)
      if writeInSize = -1 then
        (s.firstError (i = 0)).clearErrno.setDataErr
      else if writeInSize = 0 then
        s.setDataErr
      else
        let s := s.accept writeInSize
        if s.halfSize j > writeInSize then s.setDataErr else s

def writeDrain (env : Env) (call : IoCall Cursor) (s : IoState Cursor) : IoState Cursor :=
  let minK := veFindMinPosted s.posted
  writeDrainStep env call (minK + 1) (writeDrainStep env call minK s)

def readTransfer (env : Env) (call : IoCall Cursor) (s : IoState Cursor) : IoState Cursor :=
  readDrain env call (forLoop (readBody env call) call.chunkNum 0 s)

def writeTransfer (env : Env) (call : IoCall Cursor) (s : IoState Cursor) : IoState Cursor :=
  writeDrain env call (forLoop (writeBody env call) call.chunkNum 0 s)

end Loops

/-! ## The functions -/

/-- The result of `ve_accelerated_io_pre`: `SUCCESS` with the addresses, `FAIL` or `NOBUF`. -/
inductive PreResult where
  | success (io : AccIoInfo)
  | fail
  | noBuf

/-- The value returned and the world left behind. -/
structure IoResult where
  ret : Int
  world : World

/-- The plain system call with the caller's arguments (`SYSCALL_CANCEL`). -/
def plainCall (env : Env) (num : SyscallNum) (fd : Int) (w : World) : IoResult :=
  ⟨env.plain, { w with log := w.log ++ [.plain num fd] }⟩

/-- `if (0 != errno_bak) errno = errno_bak; return exit_result`. -/
def IoState.finish {Cursor : Type} (s : IoState Cursor) : IoResult :=
  ⟨s.exitResult,
    if s.errnoBak ≠ 0 then { s.world with errno := s.errnoBak } else s.world⟩

@[simp] theorem finish_ret {Cursor : Type} (s : IoState Cursor) :
    s.finish.ret = s.exitResult := rfl

@[simp] theorem finish_log {Cursor : Type} (s : IoState Cursor) :
    s.finish.world.log = s.world.log := by
  unfold IoState.finish
  split <;> rfl

@[simp] theorem finish_user {Cursor : Type} (s : IoState Cursor) :
    s.finish.world.user = s.world.user := by
  unfold IoState.finish
  split <;> rfl

/-- The guards before `ve_accelerated_io_pre`, and its three results. -/
def guarded (env : Env) (num : SyscallNum) (fd : Int) (empty null : Bool) (pre : PreResult)
    (w : World) (transfer : AccIoInfo → IoResult) : IoResult :=
  if empty then plainCall env num fd w
  else if null then ⟨-1, { w with errno := efault }⟩
  else match pre with
    | .fail => plainCall env num fd w
    | .noBuf => plainCall env num fd w
    | .success io => transfer io

def bufferCall (num : SyscallNum) (fd : Int) (count : Nat) : IoCall Nat where
  num := num
  fd := fd
  total := count
  chunkNum := chunkNumOfCount count
  plan := bufferPlan

def iovCall (num : SyscallNum) (fd : Int) (iov : List Iovec) : IoCall IovCursor where
  num := num
  fd := fd
  total := totalSize iov
  chunkNum := chunkNumOfTotal (totalSize iov)
  plan := iovPlan iov

def veAcceleratedIoReadPread (env : Env) (pre : PreResult) (num : SyscallNum) (fd : Int)
    (buf count : Nat) (ofs : Int) (w : World) : IoResult :=
  guarded env num fd (count = 0) (buf = 0) pre w fun io =>
    (readTransfer env (bufferCall num fd count) (.start w io buf ofs)).finish

def veAcceleratedIoWritePwrite (env : Env) (pre : PreResult) (num : SyscallNum) (fd : Int)
    (buf count : Nat) (ofs : Int) (w : World) : IoResult :=
  guarded env num fd (count = 0) (buf = 0) pre w fun io =>
    (writeTransfer env (bufferCall num fd count) (.start w io buf ofs)).finish

/-- `read_syscall_type`: the vector functions issue the contiguous system calls. -/
def readSyscallType (num : SyscallNum) : SyscallNum := if num = .preadv then .pread64 else .read

def writeSyscallType (num : SyscallNum) : SyscallNum :=
  if num = .pwritev then .pwrite64 else .write

/-- `iov` is `none` for a null pointer; only its first `count` entries are used. -/
def veAcceleratedIoReadvPreadv (env : Env) (pre : PreResult) (num : SyscallNum) (fd : Int)
    (iov : Option (List Iovec)) (count : Int) (ofs : Int) (w : World) : IoResult :=
  guarded env num fd (count = 0) iov.isNone pre w fun io =>
    let segments := (iov.getD []).take count.toNat
    (readTransfer env (iovCall (readSyscallType num) fd segments)
      (.start w io ⟨0, 0⟩ ofs)).finish

def veAcceleratedIoWritevPwritev (env : Env) (pre : PreResult) (num : SyscallNum) (fd : Int)
    (iov : Option (List Iovec)) (count : Int) (ofs : Int) (w : World) : IoResult :=
  guarded env num fd (count = 0) iov.isNone pre w fun io =>
    let segments := (iov.getD []).take count.toNat
    (writeTransfer env (iovCall (writeSyscallType num) fd segments)
      (.start w io ⟨0, 0⟩ ofs)).finish

end Libsysve.AccIo
