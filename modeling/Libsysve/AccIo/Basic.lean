import Mathlib.Data.Int.Basic
import Mathlib.Data.Fin.Basic
import Mathlib.Logic.Function.Basic
import Mathlib.Order.Lattice
import Libsysve.Library.ByteMemory

/-!
# The surroundings of an accelerated I/O call

Constants and data of accelerated_io.c, the memories a transfer works on, and the
three effects it has: a chunk system call on a VH half-buffer, a DMA between the two
halves of one number, and a memory copy between a VE half-buffer and user memory.

What the system calls and the DMAs answer is an arbitrary `Env`; everything a call
does is appended to `World.log`.  The DMA moves its data when it is waited for, the
latest point the hardware has for it.
-/

set_option autoImplicit false

namespace Libsysve.AccIo

open Libsysve.ByteMemory

def veBuffSize : Nat := 8 * 1024 * 1024

def buffNparas : Nat := 2

def parasSize : Nat := veBuffSize / buffNparas

theorem parasSize_eq : parasSize = 4194304 := rfl

def eio : Int := 5

def efault : Int := 14

def int64 (x : Int) : Int := x.bmod (2 ^ 64)

theorem int64_eq_self {x : Int} (low : -2 ^ 63 ≤ x) (high : x < 2 ^ 63) : int64 x = x := by
  exact Int.bmod_eq_of_le (by omega) (by omega)

theorem int64_add_int64 (x y : Int) : int64 (int64 x + y) = int64 (x + y) := by
  simp [int64]

/-- An index of the arrays of length `BUFF_NPARAS`. -/
abbrev Half := Fin 2

/-- `i % BUFF_NPARAS`. -/
def half (i : Nat) : Half := ⟨i % buffNparas, Nat.mod_lt i (by decide)⟩

@[simp] theorem half_add_two (i : Nat) : half (i + 2) = half i := by
  simp [half, buffNparas]

theorem half_succ_ne (i : Nat) : half (i + 1) ≠ half i := by
  simp only [half, buffNparas, ne_eq, Fin.mk.injEq]
  omega

theorem half_ne_succ (i : Nat) : half i ≠ half (i + 1) := (half_succ_ne i).symm

theorem half_cases (i : Nat) (j : Half) : j = half i ∨ j = half (i + 1) := by
  have bound := j.isLt
  simp only [half, buffNparas, Fin.ext_iff]
  omega

theorem half_pred_ne {i : Nat} (one : 1 ≤ i) : half (i - 1) ≠ half i := by
  have ne := half_ne_succ (i - 1)
  rwa [show i - 1 + 1 = i by omega] at ne

theorem half_sub_two {i : Nat} (two : 2 ≤ i) : half (i - 2) = half i := by
  rw [← half_add_two (i - 2)]
  congr 1
  omega

theorem half_succ_eq_pred {i : Nat} (one : 1 ≤ i) : half (i + 1) = half (i - 1) := by
  rw [← half_add_two (i - 1)]
  congr 1
  omega

theorem half_add_one (i : Nat) : half i + 1 = half (i + 1) := by
  simp only [half, buffNparas, Fin.ext_iff, Fin.val_add, Fin.val_one]
  omega

theorem half_surjective (j : Half) : ∃ k, j = half k := by
  refine ⟨j.val, ?_⟩
  have bound := j.isLt
  simp only [half, buffNparas, Fin.ext_iff]
  omega

inductive SyscallNum where
  | read | pread64 | readv | preadv | write | pwrite64 | writev | pwritev
deriving DecidableEq, Repr

structure AccIoInfo where
  vhBuffAndFlag : Half → Nat
  veBuff : Half → Nat
  vhVehva : Half → Nat
  veVehva : Half → Nat

/-- The addresses of an `acc_io_resources` object; its links belong to the resource list. -/
structure AccIoResources where
  localVehva : Nat
  vehva : Nat
  vhBuff : Nat
  veIoBuff : Nat

/-- The answer of a chunk system call: `-1` with an errno, or up to `n` bytes and, for a
read, the data it stores. -/
inductive SysOutcome where
  | fail (errno : Int)
  | ok (n : Nat) (data : Memory)

namespace SysOutcome

/-- Any number of bytes from 0 to the size requested, or `-1`. -/
def ret (size : Int) : SysOutcome → Int
  | .fail _ => -1
  | .ok n _ => min n size

def data : SysOutcome → Memory
  | .fail _ => fun _ => 0
  | .ok _ data => data

def errno (current : Int) : SysOutcome → Int
  | .fail e => e
  | .ok _ _ => current

theorem ret_le (o : SysOutcome) {size : Int} (pos : 0 ≤ size) : o.ret size ≤ size := by
  cases o <;> simp only [ret] <;> omega

theorem ret_ge (o : SysOutcome) {size : Int} (pos : 0 ≤ size) : -1 ≤ o.ret size := by
  cases o <;> simp only [ret] <;> omega

end SysOutcome

/-- Everything a call gets from outside: the two flag bits of veacc_io_defs.h, and in the
order of the calls the answers of the chunk system calls, of `ve_dma_post` (accepted or
not) and of `ve_dma_wait` (the exception code), what a failed DMA leaves in its
destination, and the answer of the plain system call. -/
structure Env where
  veAcceleratedIoFlag : Nat
  veSecondSysCallFlag : Nat
  sys : Nat → SysOutcome
  postOk : Nat → Bool
  waitCode : Nat → Nat
  junk : Nat → Memory
  plain : Int

/-- A chunk system call.  `bytes` are the bytes it takes from the VH half (write) or
stores into it (read). -/
structure ChunkCall where
  num : SyscallNum
  fd : Int
  half : Half
  addr : Nat
  size : Int
  ofs : Int
  bytes : List UInt8
  ret : Int
deriving DecidableEq

/-- One `__libsysve_vec_memcpy` between user memory and a VE half-buffer. -/
structure CopyReq where
  user : Nat
  off : Int
  len : Int
deriving DecidableEq

inductive DmaDir where
  | vhToVe | veToVh
deriving DecidableEq

structure DmaReq where
  dir : DmaDir
  size : Int
deriving DecidableEq

/-- `copy` is the group of memory copies that empties or fills one half-buffer with `size`
bytes; `data` in `dmaPost` is the length that `GET_DMA_SIZE` rounded up to `size`. -/
inductive IoEvent where
  | sysCall (c : ChunkCall)
  | dmaPost (j : Half) (dst src : Nat) (data size : Int) (ok : Bool)
  | dmaWait (j : Half) (code : Nat)
  | copy (j : Half) (size : Int) (reqs : List CopyReq)
  | plain (num : SyscallNum) (fd : Int)
deriving DecidableEq

structure World where
  user : Memory
  ve : Half → Memory
  vh : Half → Memory
  dma : Half → Option DmaReq
  errno : Int
  log : List IoEvent
  sysCount : Nat
  postCount : Nat
  waitCount : Nat

/-- The last part of `ve_accelerated_io_pre`: the addresses of the halves. -/
def AccIoResources.info (env : Env) (res : AccIoResources) : AccIoInfo where
  vhBuffAndFlag i := (res.vhBuff ||| env.veAcceleratedIoFlag) + parasSize * i
  veBuff i := res.veIoBuff + parasSize * i
  vhVehva i := res.vehva + parasSize * i
  veVehva i := res.localVehva + parasSize * i

/-- Mark both VH addresses with `VE_SECOND_SYS_CALL_FLAG`. -/
def AccIoInfo.markSecond (env : Env) (io : AccIoInfo) : AccIoInfo :=
  { io with vhBuffAndFlag := fun j => io.vhBuffAndFlag j ||| env.veSecondSysCallFlag }

def AccIoInfo.dmaDst (io : AccIoInfo) : DmaDir → Half → Nat
  | .vhToVe => io.veVehva
  | .veToVh => io.vhVehva

def AccIoInfo.dmaSrc (io : AccIoInfo) : DmaDir → Half → Nat
  | .vhToVe => io.vhVehva
  | .veToVh => io.veVehva

/-- `GET_DMA_SIZE`: the mask clears the two low bits. -/
def getDmaSize (a : Int) : Int := (a + 3) / 4 * 4

theorem getDmaSize_dvd (a : Int) : 4 ∣ getDmaSize a := Dvd.intro_left _ rfl

theorem le_getDmaSize (a : Int) : a ≤ getDmaSize a := by
  unfold getDmaSize
  omega

theorem getDmaSize_le {a : Int} (le : a ≤ parasSize) : getDmaSize a ≤ parasSize := by
  simp only [parasSize_eq] at le ⊢
  unfold getDmaSize
  omega

namespace World

def readChunk (env : Env) (w : World) (num : SyscallNum) (fd : Int) (j : Half) (addr : Nat)
    (size ofs : Int) : Int × World :=
  let outcome := env.sys w.sysCount
  let ret := outcome.ret size
  (ret, { w with
    vh := Function.update w.vh j (overlay (w.vh j) 0 outcome.data ret.toNat)
    errno := outcome.errno w.errno
    sysCount := w.sysCount + 1
    log := w.log ++
      [.sysCall ⟨num, fd, j, addr, size, ofs, readRange outcome.data 0 ret.toNat, ret⟩] })

def writeChunk (env : Env) (w : World) (num : SyscallNum) (fd : Int) (j : Half) (addr : Nat)
    (size ofs : Int) : Int × World :=
  let outcome := env.sys w.sysCount
  let ret := outcome.ret size
  (ret, { w with
    errno := outcome.errno w.errno
    sysCount := w.sysCount + 1
    log := w.log ++
      [.sysCall ⟨num, fd, j, addr, size, ofs, readRange (w.vh j) 0 size.toNat, ret⟩] })

/-- `ve_dma_post(dst, src, GET_DMA_SIZE(data), &vedma_handle[j])` on the two halves `j`. -/
def veDmaPost (env : Env) (w : World) (io : AccIoInfo) (dir : DmaDir) (j : Half) (data : Int) :
    Bool × World :=
  let ok := env.postOk w.postCount
  (ok, { w with
    dma := if ok then Function.update w.dma j (some ⟨dir, getDmaSize data⟩) else w.dma
    postCount := w.postCount + 1
    log := w.log ++ [.dmaPost j (io.dmaDst dir j) (io.dmaSrc dir j) data (getDmaSize data) ok] })

/-- What a completed DMA does to its destination half. -/
def dmaMove (w : World) (j : Half) (req : DmaReq) (src : Memory) : World :=
  match req.dir with
  | .vhToVe => { w with ve := Function.update w.ve j (overlay (w.ve j) 0 src req.size.toNat) }
  | .veToVh => { w with vh := Function.update w.vh j (overlay (w.vh j) 0 src req.size.toNat) }

def dmaSource (w : World) (j : Half) : DmaDir → Memory
  | .vhToVe => w.vh j
  | .veToVh => w.ve j

def dmaComplete (env : Env) (w : World) (j : Half) : World :=
  match w.dma j with
  | none => w
  | some req =>
    w.dmaMove j req
      (if env.waitCode w.waitCount = 0 then w.dmaSource j req.dir else env.junk w.waitCount)

/-- `ve_dma_wait(&vedma_handle[j])`: polls until the answer is not `-EAGAIN`. -/
def veDmaWait (env : Env) (w : World) (j : Half) : Nat × World :=
  (env.waitCode w.waitCount,
    { w.dmaComplete env j with
      dma := Function.update w.dma j none
      waitCount := w.waitCount + 1
      log := w.log ++ [.dmaWait j (env.waitCode w.waitCount)] })

/-- The user memory after copying out of a half-buffer, request by request. -/
def copyOutMemory (half : Memory) : Memory → List CopyReq → Memory
  | user, [] => user
  | user, req :: rest =>
    copyOutMemory half
      (overlay user req.user (fun i => half (req.off.toNat + i)) req.len.toNat) rest

/-- A half-buffer after copying user memory into it, request by request. -/
def copyInMemory (user : Memory) : Memory → List CopyReq → Memory
  | half, [] => half
  | half, req :: rest =>
    copyInMemory user
      (overlay half req.off.toNat (fun i => user (req.user + i)) req.len.toNat) rest

def copyOut (w : World) (j : Half) (size : Int) (reqs : List CopyReq) : World :=
  { w with user := copyOutMemory (w.ve j) w.user reqs, log := w.log ++ [.copy j size reqs] }

def copyIn (w : World) (j : Half) (size : Int) (reqs : List CopyReq) : World :=
  { w with
    ve := Function.update w.ve j (copyInMemory w.user (w.ve j) reqs)
    log := w.log ++ [.copy j size reqs] }

/-! ## What the effects leave alone -/

section Effects

variable (env : Env) (w : World) (io : AccIoInfo) (num : SyscallNum) (fd : Int) (j : Half)
variable (addr : Nat) (size ofs data : Int) (dir : DmaDir) (reqs : List CopyReq)

@[simp] theorem readChunk_fst :
    (w.readChunk env num fd j addr size ofs).1 = (env.sys w.sysCount).ret size := rfl

@[simp] theorem readChunk_sysCount :
    (w.readChunk env num fd j addr size ofs).2.sysCount = w.sysCount + 1 := rfl

@[simp] theorem readChunk_errno : (w.readChunk env num fd j addr size ofs).2.errno =
    (env.sys w.sysCount).errno w.errno := rfl

@[simp] theorem readChunk_log : (w.readChunk env num fd j addr size ofs).2.log =
    w.log ++ [.sysCall ⟨num, fd, j, addr, size, ofs,
      readRange (env.sys w.sysCount).data 0 ((env.sys w.sysCount).ret size).toNat,
      (env.sys w.sysCount).ret size⟩] := rfl

@[simp] theorem writeChunk_fst :
    (w.writeChunk env num fd j addr size ofs).1 = (env.sys w.sysCount).ret size := rfl

@[simp] theorem writeChunk_sysCount :
    (w.writeChunk env num fd j addr size ofs).2.sysCount = w.sysCount + 1 := rfl

@[simp] theorem writeChunk_errno : (w.writeChunk env num fd j addr size ofs).2.errno =
    (env.sys w.sysCount).errno w.errno := rfl

@[simp] theorem writeChunk_log : (w.writeChunk env num fd j addr size ofs).2.log =
    w.log ++ [.sysCall ⟨num, fd, j, addr, size, ofs, readRange (w.vh j) 0 size.toNat,
      (env.sys w.sysCount).ret size⟩] := rfl

@[simp] theorem veDmaPost_fst :
    (w.veDmaPost env io dir j data).1 = env.postOk w.postCount := rfl

@[simp] theorem veDmaPost_vh : (w.veDmaPost env io dir j data).2.vh = w.vh := rfl

@[simp] theorem veDmaPost_dma : (w.veDmaPost env io dir j data).2.dma =
    if env.postOk w.postCount then Function.update w.dma j (some ⟨dir, getDmaSize data⟩)
    else w.dma := rfl

@[simp] theorem veDmaPost_log : (w.veDmaPost env io dir j data).2.log =
    w.log ++ [.dmaPost j (io.dmaDst dir j) (io.dmaSrc dir j) data (getDmaSize data)
      (env.postOk w.postCount)] := rfl

@[simp] theorem veDmaWait_fst : (w.veDmaWait env j).1 = env.waitCode w.waitCount := rfl

@[simp] theorem veDmaWait_log : (w.veDmaWait env j).2.log =
    w.log ++ [.dmaWait j (env.waitCode w.waitCount)] := rfl

@[simp] theorem veDmaWait_dma :
    (w.veDmaWait env j).2.dma = Function.update w.dma j none := rfl

theorem dmaComplete_frame : (w.dmaComplete env j).user = w.user ∧
    (w.dmaComplete env j).errno = w.errno ∧ (w.dmaComplete env j).sysCount = w.sysCount ∧
    (w.dmaComplete env j).postCount = w.postCount := by
  unfold dmaComplete
  cases w.dma j with
  | none => exact ⟨rfl, rfl, rfl, rfl⟩
  | some req =>
    cases direction : req.dir <;> simp [dmaMove, direction]

@[simp] theorem veDmaWait_user : (w.veDmaWait env j).2.user = w.user :=
  (dmaComplete_frame env w j).1

@[simp] theorem veDmaWait_errno : (w.veDmaWait env j).2.errno = w.errno :=
  (dmaComplete_frame env w j).2.1

@[simp] theorem veDmaWait_sysCount : (w.veDmaWait env j).2.sysCount = w.sysCount :=
  (dmaComplete_frame env w j).2.2.1

@[simp] theorem veDmaWait_postCount : (w.veDmaWait env j).2.postCount = w.postCount :=
  (dmaComplete_frame env w j).2.2.2

theorem veDmaWait_vhToVe {size : Int} (posted : w.dma j = some ⟨.vhToVe, size⟩) :
    (w.veDmaWait env j).2.vh = w.vh ∧
    (∀ k, k ≠ j → (w.veDmaWait env j).2.ve k = w.ve k) ∧
    (env.waitCode w.waitCount = 0 → ∀ b, b < size.toNat →
      (w.veDmaWait env j).2.ve j b = w.vh j b) := by
  simp only [veDmaWait, dmaComplete, posted, dmaMove, dmaSource]
  refine ⟨trivial, fun k other => Function.update_of_ne other _ _, ?_⟩
  intro success b lt
  have inside := overlay_inside (w.ve j) 0 (w.vh j) lt
  simpa [success] using inside

theorem veDmaWait_veToVh {size : Int} (posted : w.dma j = some ⟨.veToVh, size⟩) :
    (w.veDmaWait env j).2.ve = w.ve ∧
    (∀ k, k ≠ j → (w.veDmaWait env j).2.vh k = w.vh k) ∧
    (env.waitCode w.waitCount = 0 → ∀ b, b < size.toNat →
      (w.veDmaWait env j).2.vh j b = w.ve j b) := by
  simp only [veDmaWait, dmaComplete, posted, dmaMove, dmaSource]
  refine ⟨trivial, fun k other => Function.update_of_ne other _ _, ?_⟩
  intro success b lt
  have inside := overlay_inside (w.vh j) 0 (w.ve j) lt
  simpa [success] using inside

end Effects

def Fresh (w : World) : Prop :=
  (∀ j, w.dma j = none) ∧ w.log = [] ∧ w.sysCount = 0 ∧ w.postCount = 0 ∧ w.waitCount = 0

/-- A world before any call, with the low byte of its address in every byte of user memory. -/
def blank : World where
  user := fun a => a.toUInt8
  ve := fun _ _ => 0
  vh := fun _ _ => 0
  dma := fun _ => none
  errno := 0
  log := []
  sysCount := 0
  postCount := 0
  waitCount := 0

theorem blank_fresh : blank.Fresh := ⟨fun _ => rfl, rfl, rfl, rfl, rfl⟩

end World

def Env.steady (n : Nat) : Env where
  veAcceleratedIoFlag := 1
  veSecondSysCallFlag := 2
  sys := fun _ => .ok n fun b => (b + 65).toUInt8
  postOk := fun _ => true
  waitCode := fun _ => 0
  junk := fun _ _ => 0
  plain := -1

/-- Every DMA succeeds, the first `full` chunk calls are answered in full and the others move up
to `last` bytes. -/
def Env.short (full last : Nat) : Env :=
  { Env.steady parasSize with
    sys := fun k => .ok (if k < full then parasSize else last) fun b => (b + 65 + k).toUInt8 }

def AccIoResources.sample : AccIoResources := ⟨0x100000, 0x200000, 0x300000, 0x400000⟩

end Libsysve.AccIo
