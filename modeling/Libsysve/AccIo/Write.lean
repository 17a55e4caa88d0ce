import Libsysve.AccIo.WriteDrain

/-!
# Accelerated write

What `WriteJob.Final` says in terms of the log and of the user buffer, and its instance at
the plan of the contiguous functions.
-/

set_option autoImplicit false

namespace Libsysve.AccIo

open Libsysve.ByteMemory Libsysve.ForLoop

/-- The bytes a call hands to the file, each with the offset it is placed at. -/
def ChunkCall.placed (c : ChunkCall) : List (Int × UInt8) :=
  (c.bytes.take c.ret.toNat).mapIdx fun b byte => (c.ofs + b, byte)

def placedBytes (log : List IoEvent) : List (Int × UInt8) :=
  (chunkCalls log).flatMap ChunkCall.placed

namespace WriteJob

variable {Cursor : Type} {job : WriteJob Cursor}

theorem Base.issuedCalls {n : Nat} {s : IoState Cursor} (h : job.Base n s) :
    IssuedCalls job.env job.total job.chunkCall n s.world.log :=
  h.toCallLog.issued (fun _ => rfl) (fun _ => rfl)

theorem placed_range (ofs_low : -2 ^ 63 ≤ job.ofs) (ofs_high : job.ofs + job.total < 2 ^ 63)
    {n : Nat} (le : n ≤ chunkNum job.total)
    (full : ∀ k, k + 1 < n → got job.env job.total k = chunkSize job.total k) :
    ((List.range n).map job.chunkCall).flatMap ChunkCall.placed =
      (readRange job.stream 0 (gotSum job.env job.total n)).mapIdx
        fun p byte => (job.ofs + p, byte) := by
  induction n with
  | zero => rfl
  | succ n ih =>
    have before := ih (by omega) (fun k klt => full k (by omega))
    have position := gotSum_full (n := n) le (fun k klt => full k (by omega))
    have inside := chunk_end_le (show n < chunkNum job.total from le)
    have exact64 : int64 (job.ofs + parasSize * n) = job.ofs + parasSize * n :=
      int64_eq_self (by omega) (by omega)
    have accepted : (job.chunkCall n).bytes.take (job.chunkCall n).ret.toNat =
        readRange job.stream (gotSum job.env job.total n) (got job.env job.total n) := by
      rw [position]
      exact take_readRange _ _ (got_le _ _ _)
    have last : (job.chunkCall n).placed =
        (readRange job.stream (gotSum job.env job.total n) (got job.env job.total n)).mapIdx
          fun b byte => (job.ofs + (b + gotSum job.env job.total n : Nat), byte) := by
      rw [ChunkCall.placed, accepted]
      congr 1
      funext b byte
      rw [chunkCall, exact64, position]
      congr 1
      simp only [Nat.cast_add, Nat.cast_mul]
      ring
    rw [List.range_succ, List.map_append, List.flatMap_append, before, gotSum_succ,
      readRange_add, List.mapIdx_append, Nat.zero_add, readRange_length]
    simp only [List.map_cons, List.map_nil, List.flatMap_cons, List.flatMap_nil,
      List.append_nil, last]

theorem Base.placed {n : Nat} {s : IoState Cursor} (h : job.Base n s)
    (ofs_low : -2 ^ 63 ≤ job.ofs) (ofs_high : job.ofs + job.total < 2 ^ 63) :
    placedBytes s.world.log = (readRange job.stream 0 (gotSum job.env job.total n)).mapIdx
      fun p byte => (job.ofs + p, byte) := by
  rw [placedBytes, h.calls, placed_range ofs_low ofs_high h.le h.full]

theorem Final.dma_ok {n : Nat} {s : IoState Cursor} (h : job.Final n s) (pos : 0 < job.total)
    (posts : ∀ k, job.env.postOk k = true) (waits : ∀ k, job.env.waitCode k = 0) :
    1 ≤ n ∧ IssuedCalls.Returns job.env job.total n s.exitResult := by
  have chunks := chunkNum_pos pos
  rcases h.status with ⟨all, going⟩ | stopped | first | aborted
  · have began : chunkRet job.env job.total 0 ≠ -1 := by
      rw [chunkRet_of_full chunks (going.full 0 (by omega))]
      omega
    exact ⟨by omega, .inl ⟨⟨began, .inl all⟩, going.exit⟩⟩
  · exact ⟨stopped.issued,
      .inl ⟨⟨stopped.began, .inr ⟨stopped.issued, stopped.short⟩⟩, stopped.exit⟩⟩
  · exact ⟨by have one := first.one; omega, .inr ⟨first.one, first.first, first.exit⟩⟩
  · obtain ⟨k, refused | failed⟩ := aborted.cause
    · rw [posts k] at refused
      exact absurd refused (by decide)
    · rw [waits k] at failed
      omega

end WriteJob

/-! ## The contiguous functions -/

def bufferWriteJob (env : Env) (num : SyscallNum) (fd : Int) (buf count : Nat) (ofs : Int)
    (io : AccIoInfo) (w : World) (le : count ≤ maxTotal) : WriteJob Nat where
  env := env
  call := bufferCall num fd count
  io := io
  ofs := ofs
  errno := w.errno
  total := count
  addr := fun p => buf + p
  user := w.user
  sized := bufferCall_sized num fd le
  cover := bufferCover buf count

theorem bufferWriteJob_spec (env : Env) (num : SyscallNum) (fd : Int) (buf count : Nat)
    (ofs : Int) (io : AccIoInfo) (w : World) (le : count ≤ maxTotal) (pos : 0 < count)
    (fresh : w.Fresh) :
    ∃ n, (bufferWriteJob env num fd buf count ofs io w le).Final n
      (writeTransfer env (bufferCall num fd count) (.start w io buf ofs)) :=
  (bufferWriteJob env num fd buf count ofs io w le).writeTransfer_spec pos fresh rfl rfl rfl rfl

theorem veAcceleratedIoWritePwrite_success (env : Env) (io : AccIoInfo) (num : SyscallNum)
    (fd : Int) {buf count : Nat} (ofs : Int) (w : World) (pos : 0 < count) (nonnull : buf ≠ 0) :
    veAcceleratedIoWritePwrite env (.success io) num fd buf count ofs w =
      (writeTransfer env (bufferCall num fd count) (.start w io buf ofs)).finish := by
  have some_bytes : count ≠ 0 := by omega
  simp [veAcceleratedIoWritePwrite, guarded, some_bytes, nonnull]

/-- A write of the `count` bytes at `buf` to offset `ofs`: the file gets a prefix of them. -/
structure RefinesPlainWrite (env : Env) (num : SyscallNum) (fd : Int) (buf count : Nat)
    (ofs : Int) (w : World) (r : IoResult) : Prop where
  calls : PlainCalls env num fd count ofs r.ret r.world.log
  placed : placedBytes r.world.log =
    (readRange w.user buf (acceptedBytes r.world.log).toNat).mapIdx
      fun p byte => (ofs + p, byte)
  user : r.world.user = w.user

theorem writePwrite_refines_plain (env : Env) (io : AccIoInfo) (num : SyscallNum) (fd : Int)
    (buf count : Nat) (ofs : Int) (w : World) (pos : 0 < count) (small : count < 2 ^ 48)
    (nonnull : buf ≠ 0) (ofs_low : -2 ^ 63 ≤ ofs) (ofs_high : ofs + count < 2 ^ 63)
    (fresh : w.Fresh) (posts : ∀ k, env.postOk k = true) (waits : ∀ k, env.waitCode k = 0) :
    RefinesPlainWrite env num fd buf count ofs w
      (veAcceleratedIoWritePwrite env (.success io) num fd buf count ofs w) := by
  have le : count ≤ maxTotal := by
    rw [maxTotal_eq]
    omega
  obtain ⟨n, final⟩ := bufferWriteJob_spec env num fd buf count ofs io w le pos fresh
  rw [veAcceleratedIoWritePwrite_success env io num fd ofs w pos nonnull]
  generalize writeTransfer env (bufferCall num fd count) (.start w io buf ofs) = s at final ⊢
  obtain ⟨some_call, value⟩ := final.dma_ok pos posts waits
  have issued := final.base.issuedCalls
  constructor
  · rw [finish_ret, finish_log]
    exact issued.plainCalls some_call ofs_low ofs_high (fun _ => ⟨rfl, rfl⟩) (fun _ => rfl) value
  · rw [finish_log, final.base.placed ofs_low ofs_high, issued.accepted, Int.toNat_natCast]
    congr 1
    apply readRange_congr
    intro i _
    rw [Nat.zero_add]
    rfl
  · rw [finish_user]
    exact final.base.user

/-- A write of five chunks, of which the file takes three and three bytes more. -/
def shortWrite : IoResult :=
  veAcceleratedIoWritePwrite (Env.short 3 3)
    (.success (AccIoResources.sample.info (Env.short 3 3))) .pwrite64 7 4096 (4 * parasSize + 5)
    100 .blank

theorem writePwrite_refines_plain_short :
    (chunkCalls shortWrite.world.log).map ChunkCall.ret = [4194304, 4194304, 4194304, 3] ∧
      RefinesPlainWrite (Env.short 3 3) .pwrite64 7 4096 (4 * parasSize + 5) 100 .blank
        shortWrite :=
  ⟨by decide +kernel,
    writePwrite_refines_plain (Env.short 3 3) _ .pwrite64 7 4096 _ 100 .blank (by decide)
      (by decide) (by decide) (by decide) (by decide) World.blank_fresh (fun _ => rfl)
      (fun _ => rfl)⟩

/-! ## The vector functions -/

def iovWriteJob (env : Env) (num : SyscallNum) (fd : Int) (iov : List Iovec) (ofs : Int)
    (io : AccIoInfo) (w : World) (le : iovTotal iov ≤ maxTotal) : WriteJob IovCursor where
  env := env
  call := iovCall num fd iov
  io := io
  ofs := ofs
  errno := w.errno
  total := iovTotal iov
  addr := iovAddr iov
  user := w.user
  sized := iovCall_sized num fd le
  cover := iovCover iov le

theorem iovWriteJob_spec (env : Env) (num : SyscallNum) (fd : Int) (iov : List Iovec)
    (ofs : Int) (io : AccIoInfo) (w : World) (le : iovTotal iov ≤ maxTotal)
    (pos : 0 < iovTotal iov) (fresh : w.Fresh) :
    ∃ n, (iovWriteJob env num fd iov ofs io w le).Final n
      (writeTransfer env (iovCall num fd iov) (.start w io ⟨0, 0⟩ ofs)) :=
  (iovWriteJob env num fd iov ofs io w le).writeTransfer_spec pos fresh rfl rfl rfl
    (iovAt_start iov)

theorem veAcceleratedIoWritevPwritev_success (env : Env) (io : AccIoInfo) (num : SyscallNum)
    (fd : Int) {iov : List Iovec} (ofs : Int) (w : World) (some_segment : iov ≠ []) :
    veAcceleratedIoWritevPwritev env (.success io) num fd (some iov) iov.length ofs w =
      (writeTransfer env (iovCall (writeSyscallType num) fd iov)
        (.start w io ⟨0, 0⟩ ofs)).finish := by
  simp [veAcceleratedIoWritevPwritev, guarded, some_segment]

end Libsysve.AccIo
