import Libsysve.AccIo.Pipeline

/-!
# The invariant of the write pipeline

The write loop runs two chunks ahead of its system calls: at its head the chunks `i - 1` and
`i - 2` are on their way to VH and the first `i - 2` system calls were issued.  Every exit
that is not the end of the count sets `data_err`, so after it the drain loop only waits:
`Going` is a transfer that still issues calls and `Ended` one that does not.
-/

set_option autoImplicit false

namespace Libsysve.AccIo

open Libsysve.ByteMemory Libsysve.ForLoop

/-- A write transfer of `total` bytes that come from the user addresses `addr`. -/
structure WriteJob (Cursor : Type) where
  env : Env
  call : IoCall Cursor
  io : AccIoInfo
  ofs : Int
  errno : Int
  total : Nat
  addr : Nat → Nat
  user : Memory
  sized : Sized call total
  cover : CoverSpec call.plan total addr

namespace WriteJob

variable {Cursor : Type} (job : WriteJob Cursor)

def stream : Memory := fun p => job.user (job.addr p)

/-- The addresses at the system calls: with two chunks or more even the first call comes
after the second-call mark. -/
def lastInfo : AccIoInfo := job.io.atChunk job.env (chunkNum job.total - 1)

def chunkCall (k : Nat) : ChunkCall where
  num := job.call.num
  fd := job.call.fd
  half := half k
  addr := job.lastInfo.vhBuffAndFlag (half k)
  size := chunkSize job.total k
  ofs := int64 (job.ofs + parasSize * k)
  bytes := readRange job.stream (parasSize * k) (chunkSize job.total k)
  ret := chunkRet job.env job.total k

structure Base (n : Nat) (s : IoState Cursor) : Prop
    extends CallLog job.env job.total job.chunkCall n s.world where
  user : s.world.user = job.user

/-- Every chunk so far was accepted in full and no DMA failed. -/
structure Going (n : Nat) (s : IoState Cursor) : Prop where
  exit : s.exitResult = gotSum job.env job.total n
  errnoBak : s.errnoBak = 0
  dataErr : s.dataErr = false
  noFail : dmaFailed s.world.log = false
  errno : s.world.errno = job.errno
  ofs : n < chunkNum job.total → s.ofs = int64 (job.ofs + parasSize * n)
  full : ∀ k, k < n → got job.env job.total k = chunkSize job.total k

/-- The last chunk was not accepted in full; no DMA failed. -/
structure Stopped (n : Nat) (s : IoState Cursor) : Prop where
  issued : 1 ≤ n
  began : chunkRet job.env job.total 0 ≠ -1
  short : chunkRet job.env job.total (n - 1) < chunkSize job.total (n - 1)
  exit : s.exitResult = gotSum job.env job.total n
  errnoBak : s.errnoBak = 0
  dataErr : s.dataErr = true
  noFail : dmaFailed s.world.log = false
  errno : s.world.errno = errnoAfter job.env job.total job.errno n

structure FirstFailed (n : Nat) (s : IoState Cursor) : Prop where
  one : n = 1
  first : chunkRet job.env job.total 0 = -1
  exit : s.exitResult = -1
  errnoBak : s.errnoBak = (job.env.sys 0).errno job.errno
  dataErr : s.dataErr = true
  noFail : dmaFailed s.world.log = false

structure Aborted (s : IoState Cursor) : Prop where
  exit : s.exitResult = -1
  errnoBak : s.errnoBak = eio
  dataErr : s.dataErr = true
  failed : dmaFailed s.world.log = true
  cause : ∃ k, job.env.postOk k = false ∨ 1 ≤ job.env.waitCode k

inductive Ended (n : Nat) (s : IoState Cursor) : Prop where
  | stopped (h : job.Stopped n s)
  | first (h : job.FirstFailed n s)
  | aborted (h : job.Aborted s)

/-- Chunk `k` is in its VE half and its DMA to VH is outstanding. -/
structure InFlight (k : Nat) (s : IoState Cursor) : Prop where
  lt : k < chunkNum job.total
  posted : s.posted (half k) = some k
  size : s.halfSize (half k) = chunkSize job.total k
  dma : s.world.dma (half k) = some ⟨.veToVh, getDmaSize (chunkSize job.total k)⟩
  data : ∀ b, b < chunkSize job.total k →
    s.world.ve (half k) b = job.stream (parasSize * k + b)
  busy : outstanding s.world.log (half k) = true

structure Head (i : Nat) (s : IoState Cursor) : Prop where
  base : job.Base (i - 2) s
  going : job.Going (i - 2) s
  io : s.io = job.io.atChunk job.env (i - 1)
  transferSize : i < chunkNum job.total → s.transferSize = parasSize
  cursor : i < chunkNum job.total → job.cover.At (parasSize * i) s.cursor
  inFlight : ∀ k, k < i → i ≤ k + 2 → job.InFlight k s
  vacant : ∀ k, i ≤ k → k < 2 → Vacant (half k) s

/-- The state in the loop body before the fill: half `i` is free. -/
structure Ready (i : Nat) (s : IoState Cursor) : Prop where
  base : job.Base (i - 1) s
  going : job.Going (i - 1) s
  io : s.io = job.io.atChunk job.env i
  transferSize : s.transferSize = chunkSize job.total i
  cursor : job.cover.At (parasSize * i) s.cursor
  inFlight : 1 ≤ i → job.InFlight (i - 1) s
  free : outstanding s.world.log (half i) = false
  vacant : i = 0 → Vacant (half 1) s

def Slot (j : Half) (s : IoState Cursor) : Prop :=
  Vacant j s ∨ ∃ k, j = half k ∧ job.InFlight k s

inductive LoopExit (s : IoState Cursor) : Prop where
  | going (n : Nat) (base : job.Base n s) (ok : job.Going n s) (last : n = chunkNum job.total - 2)
      (io : s.io = job.lastInfo)
      (inFlight : ∀ k, n ≤ k → k < chunkNum job.total → job.InFlight k s)
      (vacant : ∀ k, chunkNum job.total ≤ k → k < 2 → Vacant (half k) s)
  | ended (n : Nat) (base : job.Base n s) (stopped : job.Ended n s) (slots : ∀ j, job.Slot j s)

/-! ## What single effects preserve -/

variable {job}

theorem InFlight.frame {k : Nat} {s s' : IoState Cursor} (h : job.InFlight k s)
    (posted : s'.posted (half k) = s.posted (half k))
    (size : s'.halfSize (half k) = s.halfSize (half k))
    (dma : s'.world.dma (half k) = s.world.dma (half k))
    (ve : s'.world.ve (half k) = s.world.ve (half k))
    (busy : outstanding s'.world.log (half k) = outstanding s.world.log (half k)) :
    job.InFlight k s' where
  lt := h.lt
  posted := posted.trans h.posted
  size := size.trans h.size
  dma := dma.trans h.dma
  data := by rw [ve]; exact h.data
  busy := busy.trans h.busy

theorem Base.locals {n : Nat} {s s' : IoState Cursor} (h : job.Base n s)
    (log : s'.world.log = s.world.log) (sysCount : s'.world.sysCount = s.world.sysCount)
    (user : s'.world.user = s.world.user) : job.Base n s' where
  toCallLog := h.toCallLog.of_eq log sysCount
  user := user.trans h.user

theorem Base.wait {n k : Nat} {s s' : IoState Cursor} (h : job.Base n s)
    (flying : job.InFlight k s)
    (world : s'.world = (s.world.veDmaWait job.env (half k)).2) : job.Base n s' where
  toCallLog := by
    apply h.toCallLog.event
    · rw [world, World.veDmaWait_log]
    · rw [world, World.veDmaWait_sysCount]
    · intro c; nofun
    · exact flying.busy
  user := by rw [world, World.veDmaWait_user, h.user]

theorem InFlight.wait_other {k k' : Nat} {s s' : IoState Cursor} (h : job.InFlight k' s)
    (other : half k' ≠ half k) (flying : job.InFlight k s)
    (world : s'.world = (s.world.veDmaWait job.env (half k)).2)
    (posted : s'.posted (half k') = s.posted (half k'))
    (size : s'.halfSize (half k') = s.halfSize (half k')) : job.InFlight k' s' := by
  apply h.frame posted size
  · rw [world, World.veDmaWait_dma, Function.update_of_ne other]
  · rw [world, (World.veDmaWait_veToVh _ _ _ flying.dma).1]
  · rw [world, outstanding_wait, Function.update_of_ne other]

theorem InFlight.arrived {k : Nat} {s : IoState Cursor} (h : job.InFlight k s)
    (success : job.env.waitCode s.world.waitCount = 0) :
    readRange ((s.world.veDmaWait job.env (half k)).2.vh (half k)) 0 (chunkSize job.total k) =
      readRange job.stream (parasSize * k) (chunkSize job.total k) := by
  have covered := le_getDmaSize (chunkSize job.total k)
  apply readRange_congr
  intro b lt
  have moved := (World.veDmaWait_veToVh _ _ _ h.dma).2.2 success b (by omega)
  rw [Nat.zero_add, moved, h.data b lt]

theorem aborted_of_wait {j : Half} {s : IoState Cursor}
    (failed : 1 ≤ job.env.waitCode s.world.waitCount) :
    job.Aborted (s.wait job.env j).2.dmaError := by
  refine ⟨rfl, rfl, rfl, ?_, _, .inr failed⟩
  show dmaFailed (s.world.veDmaWait job.env j).2.log = true
  rw [dmaFailed_wait, decide_eq_true failed, Bool.or_true]

theorem Going.wait {n : Nat} {j : Half} {s : IoState Cursor} (h : job.Going n s)
    (success : job.env.waitCode s.world.waitCount = 0) : job.Going n (s.wait job.env j).2 where
  exit := h.exit
  errnoBak := h.errnoBak
  dataErr := h.dataErr
  noFail := by
    show dmaFailed (s.world.veDmaWait job.env j).2.log = false
    rw [dmaFailed_wait, h.noFail, success]
    rfl
  errno := by
    show (s.world.veDmaWait job.env j).2.errno = job.errno
    rw [World.veDmaWait_errno, h.errno]
  ofs := h.ofs
  full := h.full

theorem Ended.wait {n : Nat} {j : Half} {s : IoState Cursor} (h : job.Ended n s)
    (success : job.env.waitCode s.world.waitCount = 0) :
    job.Ended n (s.wait job.env j).2 := by
  have log : dmaFailed (s.wait job.env j).2.world.log = dmaFailed s.world.log := by
    show dmaFailed (s.world.veDmaWait job.env j).2.log = _
    rw [dmaFailed_wait, success]
    simp
  have errno : (s.wait job.env j).2.world.errno = s.world.errno :=
    World.veDmaWait_errno job.env s.world j
  cases h with
  | stopped h =>
    exact .stopped ⟨h.issued, h.began, h.short, h.exit, h.errnoBak, h.dataErr,
      log.trans h.noFail, errno.trans h.errno⟩
  | first h => exact .first ⟨h.one, h.first, h.exit, h.errnoBak, h.dataErr, log.trans h.noFail⟩
  | aborted h => exact .aborted ⟨h.exit, h.errnoBak, h.dataErr, log.trans h.failed, h.cause⟩

theorem Ended.dataErr {n : Nat} {s : IoState Cursor} (h : job.Ended n s) : s.dataErr = true := by
  cases h with
  | stopped h => exact h.dataErr
  | first h => exact h.dataErr
  | aborted h => exact h.dataErr

theorem Ended.unpost {n : Nat} {s : IoState Cursor} (h : job.Ended n s) (j : Half) :
    job.Ended n (s.unpost j) := by
  cases h with
  | stopped h =>
    exact .stopped ⟨h.issued, h.began, h.short, h.exit, h.errnoBak, h.dataErr, h.noFail, h.errno⟩
  | first h => exact .first ⟨h.one, h.first, h.exit, h.errnoBak, h.dataErr, h.noFail⟩
  | aborted h => exact .aborted ⟨h.exit, h.errnoBak, h.dataErr, h.failed, h.cause⟩

end WriteJob

end Libsysve.AccIo
