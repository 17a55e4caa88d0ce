import Libsysve.Library.Machine
import Libsysve.AccIo.AccCall

/-!
# The eight hooks

The functions that `ve_accelerated_io_init` puts behind `read`, `write` and their relatives, and
programs that call them on one descriptor.  A call whose preparation fails takes all hooks away.
VH has the file: a system call with an offset of its own works there, any other at the offset of
the descriptor, which it moves on.
-/

set_option autoImplicit false

namespace Libsysve.AccIo

open Libsysve.ByteMemory

section
variable (env : Env) (pre : PreResult) (fd : Int) (buf count : Nat) (iov : Option (List Iovec))
  (iovcnt ofs : Int) (w : World)

def veAcceleratedIoRead : IoResult := veAcceleratedIoReadPread env pre .read fd buf count 0 w

def veAcceleratedIoPread : IoResult := veAcceleratedIoReadPread env pre .pread64 fd buf count ofs w

def veAcceleratedIoReadv : IoResult := veAcceleratedIoReadvPreadv env pre .readv fd iov iovcnt 0 w

def veAcceleratedIoPreadv : IoResult :=
  veAcceleratedIoReadvPreadv env pre .preadv fd iov iovcnt ofs w

def veAcceleratedIoWrite : IoResult := veAcceleratedIoWritePwrite env pre .write fd buf count 0 w

def veAcceleratedIoPwrite : IoResult :=
  veAcceleratedIoWritePwrite env pre .pwrite64 fd buf count ofs w

def veAcceleratedIoWritev : IoResult :=
  veAcceleratedIoWritevPwritev env pre .writev fd iov iovcnt 0 w

def veAcceleratedIoPwritev : IoResult :=
  veAcceleratedIoWritevPwritev env pre .pwritev fd iov iovcnt ofs w

end

/-- Where byte `p` of the transfer is in user memory. -/
def AccCall.addr : AccCall → Nat → Nat
  | .readPread buf _ | .writePwrite buf _ => fun p => buf + p
  | .readvPreadv iov | .writevPwritev iov => iovAddr iov

def PreResult.refused : PreResult → Bool
  | .success _ => false
  | .fail | .noBuf => true

def PreResult.failed : PreResult → Bool
  | .fail => true
  | .success _ | .noBuf => false

/-- A call of one of the hooked functions; the vectors are given with their number of entries. -/
inductive HookCall where
  | read (buf count : Nat)
  | pread (buf count : Nat) (ofs : Int)
  | readv (iov : List Iovec)
  | preadv (iov : List Iovec) (ofs : Int)
  | write (buf count : Nat)
  | pwrite (buf count : Nat) (ofs : Int)
  | writev (iov : List Iovec)
  | pwritev (iov : List Iovec) (ofs : Int)
deriving DecidableEq

namespace HookCall

def num : HookCall → SyscallNum
  | .read _ _ => .read
  | .pread _ _ _ => .pread64
  | .readv _ => .readv
  | .preadv _ _ => .preadv
  | .write _ _ => .write
  | .pwrite _ _ _ => .pwrite64
  | .writev _ => .writev
  | .pwritev _ _ => .pwritev

def ofs : HookCall → Int
  | .pread _ _ ofs | .preadv _ ofs | .pwrite _ _ ofs | .pwritev _ ofs => ofs
  | .read _ _ | .readv _ | .write _ _ | .writev _ => 0

def toAccCall : HookCall → AccCall
  | .read buf count | .pread buf count _ => .readPread buf count
  | .readv iov | .preadv iov _ => .readvPreadv iov
  | .write buf count | .pwrite buf count _ => .writePwrite buf count
  | .writev iov | .pwritev iov _ => .writevPwritev iov

def total (call : HookCall) : Nat := call.toAccCall.total

def addr (call : HookCall) : Nat → Nat := call.toAccCall.addr

def run (env : Env) (pre : PreResult) (fd : Int) (w : World) : HookCall → IoResult
  | .read buf count => veAcceleratedIoRead env pre fd buf count w
  | .pread buf count ofs => veAcceleratedIoPread env pre fd buf count ofs w
  | .readv iov => veAcceleratedIoReadv env pre fd (some iov) iov.length w
  | .preadv iov ofs => veAcceleratedIoPreadv env pre fd (some iov) iov.length ofs w
  | .write buf count => veAcceleratedIoWrite env pre fd buf count w
  | .pwrite buf count ofs => veAcceleratedIoPwrite env pre fd buf count ofs w
  | .writev iov => veAcceleratedIoWritev env pre fd (some iov) iov.length w
  | .pwritev iov ofs => veAcceleratedIoPwritev env pre fd (some iov) iov.length ofs w

/-- There is nothing to transfer by the count the caller gives. -/
def empty (call : HookCall) : Bool :=
  match call.toAccCall with
  | .readPread _ count | .writePwrite _ count => count = 0
  | .readvPreadv iov | .writevPwritev iov => iov = []

def null (call : HookCall) : Bool :=
  match call.toAccCall with
  | .readPread buf _ | .writePwrite buf _ => buf = 0
  | .readvPreadv _ | .writevPwritev _ => false

/-- The call gets as far as `ve_accelerated_io_pre`. -/
def prepares (call : HookCall) : Bool := !call.empty && !call.null

/-- The plain system call is issued in the end. -/
def delegates (call : HookCall) (pre : PreResult) : Bool :=
  call.empty || call.prepares && pre.refused

end HookCall

/-! ## The file on VH -/

def SyscallNum.positioned : SyscallNum → Bool
  | .pread64 | .preadv | .pwrite64 | .pwritev => true
  | .read | .readv | .write | .writev => false

def SyscallNum.writes : SyscallNum → Bool
  | .write | .pwrite64 | .writev | .pwritev => true
  | .read | .pread64 | .readv | .preadv => false

/-- An open file: its bytes, and the offset of the descriptor. -/
structure OpenFile where
  bytes : Memory
  pos : Nat

namespace OpenFile

variable (f : OpenFile) (num : SyscallNum) (ofs : Int) (src : Memory) (n : Nat)

def start : Nat := if num.positioned then ofs.toNat else f.pos

/-- The file after a system call that moved `n` bytes. -/
def transferred : OpenFile where
  bytes := if num.writes then overlay f.bytes (f.start num ofs) src n else f.bytes
  pos := if num.positioned then f.pos else f.pos + n

end OpenFile

/-- The file under the chunk system calls, each of which reads the file as it is then. -/
def fileMonitor (f : OpenFile) : Monitor OpenFile ChunkCall where
  start := f
  after f c := f.transferred c.num c.ofs (fun i => c.bytes.getD i 0) c.ret.toNat
  allowed f c := c.num.writes = false →
    c.bytes = readRange f.bytes (f.start c.num c.ofs) c.ret.toNat

structure FileState where
  user : Memory
  file : OpenFile

/-- The plain system call, by the value it returns. -/
def FileState.plain (s : FileState) (call : HookCall) (ret : Int) : FileState where
  user :=
    if call.num.writes then s.user
    else scatter s.user call.addr (fun p => s.file.bytes (s.file.start call.num call.ofs + p))
      ret.toNat
  file := s.file.transferred call.num call.ofs (fun p => s.user (call.addr p)) ret.toNat

def plainMachine : Machine FileState (HookCall × Int) Int where
  step s label :=
    if -1 ≤ label.2 ∧ label.2 ≤ label.1.total then some (label.2, s.plain label.1 label.2) else none

/-- All hooks are those of this library, or all are NULL. -/
structure HookState extends FileState where
  hooked : Bool

/-- A call of a program with what it meets: the result of `ve_accelerated_io_pre`, the answers from
outside, and what its half-buffers hold. -/
structure HookTurn where
  call : HookCall
  fd : Int
  pre : PreResult
  env : Env
  world : World

namespace HookTurn

variable (turn : HookTurn) (s : HookState)

def start : World := { turn.world with user := s.user }

def result : IoResult :=
  if s.hooked then turn.call.run turn.env turn.pre turn.fd (turn.start s)
  else plainCall turn.env turn.call.num turn.fd (turn.start s)

/-- VH gets the plain system call. -/
def plain : Bool := !s.hooked || turn.call.delegates turn.pre

/-- `ve_accelerated_io_free_io_hook` is called. -/
def unhooks : Bool := turn.call.prepares && turn.pre.failed

def next : HookState where
  toFileState :=
    if turn.plain s then s.toFileState.plain turn.call (turn.result s).ret
    else
      { user := (turn.result s).world.user
        file := (fileMonitor s.file).stateAfter (chunkCalls (turn.result s).world.log) }
  hooked := s.hooked && !turn.unhooks

end HookTurn

def hookMachine : Machine HookState HookTurn Int where
  step s turn := some ((turn.result s).ret, turn.next s)

end Libsysve.AccIo
