import Libsysve.AccIo.Pipeline

/-!
# The invariant of the read pipeline

`Base n m s` holds whatever fails: `n` chunk system calls were issued, the first `m` chunks
were delivered to the user, and the half-buffers were used as `dmaMonitor` allows.  On top of
it a state is `Clean` (no DMA failed so far), `Aborted` (a DMA failed) or, when the first
system call failed, `FirstFailed`.  A half is `InFlight` with one chunk or `Vacant`.

The loop runs two chunks ahead of the copies: at its head chunks `i - 1` and `i - 2` are in
flight and `i - 2` chunks are delivered (`Head`); `readTransfer_spec` is what the loop and
the drain loop together leave behind.
-/

set_option autoImplicit false

namespace Libsysve.AccIo

open Libsysve.ByteMemory Libsysve.ForLoop

/-- A read transfer of `total` bytes that go to the user addresses `addr`. -/
structure ReadJob (Cursor : Type) where
  env : Env
  call : IoCall Cursor
  io : AccIoInfo
  ofs : Int
  errno : Int
  total : Nat
  addr : Nat → Nat
  user : Memory
  sized : Sized call total
  cover : CoverSpec call.plan total addr

namespace ReadJob

variable {Cursor : Type} (job : ReadJob Cursor)

def chunkCall (k : Nat) : ChunkCall where
  num := job.call.num
  fd := job.call.fd
  half := half k
  addr := (job.io.atChunk job.env k).vhBuffAndFlag (half k)
  size := chunkSize job.total k
  ofs := int64 (job.ofs + parasSize * k)
  bytes := readRange (job.env.sys k).data 0 (got job.env job.total k)
  ret := chunkRet job.env job.total k

/-- The first `d` bytes of the stream are in user memory and the cursor is behind them. -/
structure Delivered (d : Nat) (cursor : Cursor) (user : Memory) : Prop where
  cursor : job.cover.At d cursor
  user : user = scatter job.user job.addr (readStream job.env) d

structure Base (n m : Nat) (s : IoState Cursor) : Prop
    extends CallLog job.env job.total job.chunkCall n s.world where
  copied : copiedBytes s.world.log = gotSum job.env job.total m
  delivered : job.Delivered (gotSum job.env job.total m) s.cursor s.world.user

structure Clean (n m : Nat) (s : IoState Cursor) : Prop where
  exit : s.exitResult = gotSum job.env job.total m
  errnoBak : s.errnoBak = 0
  dataErr : s.dataErr = false
  noFail : dmaFailed s.world.log = false
  errno : s.world.errno = errnoAfter job.env job.total job.errno n

structure Aborted (s : IoState Cursor) : Prop where
  exit : s.exitResult = -1
  errnoBak : s.errnoBak = eio
  dataErr : s.dataErr = true
  failed : dmaFailed s.world.log = true
  cause : ∃ k, job.env.postOk k = false ∨ 1 ≤ job.env.waitCode k

structure FirstFailed (n m : Nat) (s : IoState Cursor) : Prop where
  one : n = 1
  none : m = 0
  first : chunkRet job.env job.total 0 = -1
  exit : s.exitResult = -1
  errnoBak : s.errnoBak = (job.env.sys 0).errno job.errno
  noFail : dmaFailed s.world.log = false

/-- Chunk `k` is in its VH half and its DMA is outstanding. -/
structure InFlight (k : Nat) (s : IoState Cursor) : Prop where
  posted : s.posted (half k) = some k
  size : s.halfSize (half k) = got job.env job.total k
  dma : s.world.dma (half k) = some ⟨.vhToVe, getDmaSize (got job.env job.total k)⟩
  data : ∀ b, b < got job.env job.total k →
    s.world.vh (half k) b = readStream job.env (parasSize * k + b)
  busy : outstanding s.world.log (half k) = true
  pos : 0 < got job.env job.total k

structure Head (i : Nat) (s : IoState Cursor) : Prop where
  base : job.Base i (i - 2) s
  clean : job.Clean i (i - 2) s
  full : ∀ k, k < i → got job.env job.total k = chunkSize job.total k
  io : s.io = job.io.atChunk job.env (i - 1)
  ofs : i < chunkNum job.total → s.ofs = int64 (job.ofs + parasSize * i)
  transferSize : i < chunkNum job.total → s.transferSize = parasSize
  inFlight : ∀ k, k < i → i ≤ k + 2 → job.InFlight k s
  vacant : ∀ k, i ≤ k → k < 2 → Vacant (half k) s

/-- The state in the loop body before the system call: half `i` is free. -/
structure Ready (i : Nat) (s : IoState Cursor) : Prop where
  base : job.Base i (i - 1) s
  clean : job.Clean i (i - 1) s
  full : ∀ k, k < i → got job.env job.total k = chunkSize job.total k
  io : s.io = job.io.atChunk job.env i
  ofs : s.ofs = int64 (job.ofs + parasSize * i)
  transferSize : s.transferSize = chunkSize job.total i
  inFlight : 1 ≤ i → job.InFlight (i - 1) s
  free : outstanding s.world.log (half i) = false
  vacant : i = 0 → Vacant (half 1) s

def Slot (j : Half) (s : IoState Cursor) : Prop :=
  Vacant j s ∨ ∃ k, j = half k ∧ job.InFlight k s

inductive LoopExit (s : IoState Cursor) : Prop where
  /-- No failure: chunks `m` to `p - 1` wait to be delivered. -/
  | clean (n m p : Nat) (base : job.Base n m s) (ok : job.Clean n m s) (issued : 1 ≤ n)
      (complete : Complete job.env job.total n)
      (whole : gotSum job.env job.total p = gotSum job.env job.total n)
      (order : m ≤ p ∧ p ≤ m + 2)
      (full : ∀ k, k + 1 < p → got job.env job.total k = chunkSize job.total k)
      (inFlight : ∀ k, m ≤ k → k < p → job.InFlight k s)
      (vacant : ∀ k, p ≤ k → k < m + 2 → Vacant (half k) s)
  | aborted (n m : Nat) (base : job.Base n m s) (failed : job.Aborted s) (issued : 1 ≤ n)
      (slots : ∀ j, job.Slot j s)
  | first (n m : Nat) (base : job.Base n m s) (failed : job.FirstFailed n m s)
      (vacant : ∀ j, Vacant j s)

/-! ## What single effects preserve -/

variable {job}

theorem Base.issuedCalls {n m : Nat} {s : IoState Cursor} (h : job.Base n m s) :
    IssuedCalls job.env job.total job.chunkCall n s.world.log :=
  h.toCallLog.issued (fun _ => rfl) (fun _ => rfl)

theorem InFlight.frame {k : Nat} {s s' : IoState Cursor} (h : job.InFlight k s)
    (posted : s'.posted (half k) = s.posted (half k))
    (size : s'.halfSize (half k) = s.halfSize (half k))
    (dma : s'.world.dma (half k) = s.world.dma (half k))
    (vh : s'.world.vh (half k) = s.world.vh (half k))
    (busy : outstanding s'.world.log (half k) = outstanding s.world.log (half k)) :
    job.InFlight k s' where
  posted := posted.trans h.posted
  size := size.trans h.size
  dma := dma.trans h.dma
  data := by rw [vh]; exact h.data
  busy := busy.trans h.busy
  pos := h.pos

theorem Base.event {n m : Nat} {s s' : IoState Cursor} {e : IoEvent} (h : job.Base n m s)
    (log : s'.world.log = s.world.log ++ [e]) (sysCount : s'.world.sysCount = s.world.sysCount)
    (user : s'.world.user = s.world.user) (cursor : s'.cursor = s.cursor)
    (noCall : ∀ c, e ≠ .sysCall c) (noCopy : ∀ j size reqs, e ≠ .copy j size reqs)
    (allowed : dmaMonitor.allowed (outstanding s.world.log) e) : job.Base n m s' where
  toCallLog := h.toCallLog.event log sysCount noCall allowed
  copied := by
    rw [log, copiedBytes_snoc, h.copied]
    cases e with
    | copy j size reqs => exact absurd rfl (noCopy j size reqs)
    | _ => simp
  delivered := by rw [user, cursor]; exact h.delivered

theorem Base.locals {n m : Nat} {s s' : IoState Cursor} (h : job.Base n m s)
    (log : s'.world.log = s.world.log) (sysCount : s'.world.sysCount = s.world.sysCount)
    (user : s'.world.user = s.world.user) (cursor : s'.cursor = s.cursor) :
    job.Base n m s' where
  toCallLog := h.toCallLog.of_eq log sysCount
  copied := by rw [log]; exact h.copied
  delivered := by rw [user, cursor]; exact h.delivered

theorem Base.wait {n m k : Nat} {s s' : IoState Cursor} (h : job.Base n m s)
    (flying : job.InFlight k s) (cursor : s'.cursor = s.cursor)
    (world : s'.world = (s.world.veDmaWait job.env (half k)).2) : job.Base n m s' := by
  apply h.event (e := .dmaWait (half k) (job.env.waitCode s.world.waitCount))
  · rw [world, World.veDmaWait_log]
  · rw [world, World.veDmaWait_sysCount]
  · rw [world, World.veDmaWait_user]
  · exact cursor
  · intro c; nofun
  · intro j size reqs; nofun
  · exact flying.busy

theorem InFlight.wait_other {k k' : Nat} {s s' : IoState Cursor} (h : job.InFlight k' s)
    (other : half k' ≠ half k) (flying : job.InFlight k s)
    (world : s'.world = (s.world.veDmaWait job.env (half k)).2)
    (posted : s'.posted (half k') = s.posted (half k'))
    (size : s'.halfSize (half k') = s.halfSize (half k')) : job.InFlight k' s' := by
  apply h.frame posted size
  · rw [world, World.veDmaWait_dma, Function.update_of_ne other]
  · rw [world, (World.veDmaWait_vhToVe _ _ _ flying.dma).1]
  · rw [world, outstanding_wait, Function.update_of_ne other]

theorem InFlight.arrived {k : Nat} {s : IoState Cursor} (h : job.InFlight k s)
    (success : job.env.waitCode s.world.waitCount = 0) :
    ∀ b, b < got job.env job.total k →
      (s.world.veDmaWait job.env (half k)).2.ve (half k) b =
        readStream job.env (parasSize * k + b) := by
  intro b lt
  have covered := le_getDmaSize (got job.env job.total k)
  have moved := (World.veDmaWait_vhToVe _ _ _ h.dma).2.2 success b (by omega)
  rw [moved, h.data b lt]

theorem Base.deliver {n m : Nat} {j : Half} {s : IoState Cursor} (h : job.Base n m s)
    (lt : m < chunkNum job.total)
    (full : ∀ k, k < m → got job.env job.total k = chunkSize job.total k)
    (pos : 0 < got job.env job.total m)
    (size : s.halfSize j = got job.env job.total m)
    (idle : outstanding s.world.log j = false)
    (data : ∀ b, b < got job.env job.total m →
      s.world.ve j b = readStream job.env (parasSize * m + b)) :
    job.Base n (m + 1) (s.deliver job.call.plan j) := by
  have before := gotSum_full lt full
  have fits : gotSum job.env job.total m + got job.env job.total m ≤ job.total := by
    have inside := chunk_end_le lt
    have le := got_le job.env job.total m
    omega
  have stored : ∀ b, b < got job.env job.total m →
      s.world.ve j b = readStream job.env (gotSum job.env job.total m + b) := by
    rw [before]
    exact data
  have behind := (job.cover.next h.delivered.cursor pos fits).1
  have moved : World.copyOutMemory (s.world.ve j) s.world.user
      (job.call.plan s.cursor (got job.env job.total m)).2.1 =
        scatter job.user job.addr (readStream job.env)
          (gotSum job.env job.total m + got job.env job.total m) := by
    rw [h.delivered.user]
    exact job.cover.copyOut h.delivered.cursor pos fits stored
  have requests := job.cover.requests h.delivered.cursor pos fits
    ((got_le _ _ _).trans (chunkSize_le _ _))
  have log : (s.deliver job.call.plan j).world.log = s.world.log ++
      [.copy j (got job.env job.total m)
        (job.call.plan s.cursor (got job.env job.total m)).2.1] := by
    simp only [IoState.deliver, World.copyOut, size]
  constructor
  · exact h.toCallLog.event log rfl (fun _ => nofun) ⟨idle, requests⟩
  · simp only [log, copiedBytes_snoc, h.copied, gotSum_succ, Nat.cast_add, requests.length]
  · simp only [IoState.deliver, World.copyOut, size, gotSum_succ]
    exact ⟨behind, moved⟩

theorem Clean.deliver {n m : Nat} {j : Half} {s : IoState Cursor} (h : job.Clean n m s)
    (size : s.halfSize j = got job.env job.total m) :
    job.Clean n (m + 1) (s.deliver job.call.plan j) where
  exit := by
    simp only [IoState.deliver, h.exit, size, gotSum_succ, Nat.cast_add]
  errnoBak := h.errnoBak
  dataErr := h.dataErr
  noFail := by
    simp only [IoState.deliver, World.copyOut, dmaFailed_snoc, h.noFail, IoEvent.dmaFails,
      Bool.or_self]
  errno := h.errno

theorem aborted_of_wait {j : Half} {s : IoState Cursor}
    (failed : 1 ≤ job.env.waitCode s.world.waitCount) :
    job.Aborted (s.wait job.env j).2.dmaError := by
  refine ⟨rfl, rfl, rfl, ?_, _, .inr failed⟩
  show dmaFailed (s.world.veDmaWait job.env j).2.log = true
  rw [dmaFailed_wait, decide_eq_true failed, Bool.or_true]

theorem Clean.wait {n m : Nat} {j : Half} {s : IoState Cursor} (h : job.Clean n m s)
    (success : job.env.waitCode s.world.waitCount = 0) :
    job.Clean n m (s.wait job.env j).2 where
  exit := h.exit
  errnoBak := h.errnoBak
  dataErr := h.dataErr
  noFail := by
    show dmaFailed (s.world.veDmaWait job.env j).2.log = false
    rw [dmaFailed_wait, h.noFail, success]
    rfl
  errno := (World.veDmaWait_errno job.env s.world j).trans h.errno

theorem Aborted.wait {j : Half} {s : IoState Cursor} (h : job.Aborted s) :
    job.Aborted (s.wait job.env j).2 where
  exit := h.exit
  errnoBak := h.errnoBak
  dataErr := h.dataErr
  failed := by
    show dmaFailed (s.world.veDmaWait job.env j).2.log = true
    rw [dmaFailed_wait, h.failed, Bool.true_or]
  cause := h.cause

theorem outstanding_deliver (s : IoState Cursor) (j : Half) :
    outstanding (s.deliver job.call.plan j).world.log = outstanding s.world.log := by
  simp only [IoState.deliver, World.copyOut, outstanding_snoc]
  rfl

end ReadJob

end Libsysve.AccIo
