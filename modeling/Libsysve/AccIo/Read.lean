import Libsysve.AccIo.ReadDrain

/-!
# Accelerated read

What `ReadJob.Final` says in terms of the log and of user memory, and its instance at the
plan of the contiguous functions.
-/

set_option autoImplicit false

namespace Libsysve.AccIo

open Libsysve.ByteMemory Libsysve.ForLoop

namespace ReadJob

variable {Cursor : Type} {job : ReadJob Cursor}

theorem data_range {n : Nat} (le : n ≤ chunkNum job.total)
    (full : ∀ k, k + 1 < n → got job.env job.total k = chunkSize job.total k) :
    ((List.range n).map job.chunkCall).flatMap ChunkCall.bytes =
      readRange (readStream job.env) 0 (gotSum job.env job.total n) := by
  induction n with
  | zero => rfl
  | succ n ih =>
    have before := ih (by omega) (fun k klt => full k (by omega))
    have position := gotSum_full (n := n) le (fun k klt => full k (by omega))
    have last : (job.chunkCall n).bytes =
        readRange (readStream job.env) (gotSum job.env job.total n) (got job.env job.total n) := by
      rw [position]
      apply readRange_congr
      intro i lt
      have inside : i < parasSize :=
        lt_of_lt_of_le lt ((got_le _ _ _).trans (chunkSize_le _ _))
      rw [readStream_chunk job.env n inside, Nat.zero_add]
    rw [List.range_succ, List.map_append, List.flatMap_append, before, gotSum_succ,
      readRange_add, Nat.zero_add]
    simp [last]

theorem Base.data {n m : Nat} {s : IoState Cursor} (h : job.Base n m s) :
    callData s.world.log = readRange (readStream job.env) 0 (gotSum job.env job.total n) := by
  rw [callData, h.calls, data_range h.le h.full]

theorem Final.status_of_dma_ok {n m : Nat} {s : IoState Cursor} (h : job.Final n m s)
    (posts : ∀ k, job.env.postOk k = true) (waits : ∀ k, job.env.waitCode k = 0) :
    job.Done n m s ∨ job.FirstFailed n m s := by
  rcases h.status with done | aborted | first
  · exact .inl done
  · obtain ⟨k, refused | failed⟩ := aborted.cause
    · rw [posts k] at refused
      exact absurd refused (by decide)
    · rw [waits k] at failed
      omega
  · exact .inr first

theorem FirstFailed.gotSum_eq {n m : Nat} {s : IoState Cursor} (h : job.FirstFailed n m s) :
    gotSum job.env job.total n = 0 := by
  rw [h.one, gotSum_succ, gotSum_zero, got_eq_zero (by rw [h.first]; decide)]

theorem Final.dma_ok {n m : Nat} {s : IoState Cursor} (h : job.Final n m s)
    (posts : ∀ k, job.env.postOk k = true) (waits : ∀ k, job.env.waitCode k = 0) :
    IssuedCalls.Returns job.env job.total n s.exitResult ∧
      gotSum job.env job.total m = gotSum job.env job.total n := by
  rcases h.status_of_dma_ok posts waits with done | first
  · exact ⟨.inl ⟨done.complete, by rw [done.clean.exit, done.whole]⟩, done.whole⟩
  · refine ⟨.inr ⟨first.one, first.first, first.exit⟩, ?_⟩
    rw [first.gotSum_eq, first.none, gotSum_zero]

end ReadJob

/-! ## The contiguous functions -/

def bufferReadJob (env : Env) (num : SyscallNum) (fd : Int) (buf count : Nat) (ofs : Int)
    (io : AccIoInfo) (w : World) (le : count ≤ maxTotal) : ReadJob Nat where
  env := env
  call := bufferCall num fd count
  io := io
  ofs := ofs
  errno := w.errno
  total := count
  addr := fun p => buf + p
  user := w.user
  sized := bufferCall_sized num fd le
  cover := bufferCover buf count

theorem bufferReadJob_spec (env : Env) (num : SyscallNum) (fd : Int) (buf count : Nat)
    (ofs : Int) (io : AccIoInfo) (w : World) (le : count ≤ maxTotal) (pos : 0 < count)
    (fresh : w.Fresh) :
    ∃ n m, (bufferReadJob env num fd buf count ofs io w le).Final n m
      (readTransfer env (bufferCall num fd count) (.start w io buf ofs)) :=
  (bufferReadJob env num fd buf count ofs io w le).readTransfer_spec pos fresh rfl rfl ⟨rfl, rfl⟩

theorem veAcceleratedIoReadPread_success (env : Env) (io : AccIoInfo) (num : SyscallNum)
    (fd : Int) {buf count : Nat} (ofs : Int) (w : World) (pos : 0 < count) (nonnull : buf ≠ 0) :
    veAcceleratedIoReadPread env (.success io) num fd buf count ofs w =
      (readTransfer env (bufferCall num fd count) (.start w io buf ofs)).finish := by
  have some_bytes : count ≠ 0 := by omega
  simp [veAcceleratedIoReadPread, guarded, some_bytes, nonnull]

/-- A read of `count` bytes at `ofs` into `buf`: the user gets the data of the chunk system
calls in their order. -/
structure RefinesPlainRead (env : Env) (num : SyscallNum) (fd : Int) (buf count : Nat)
    (ofs : Int) (w : World) (r : IoResult) : Prop where
  calls : PlainCalls env num fd count ofs r.ret r.world.log
  answer : ∀ (k : Nat) (c : ChunkCall), (chunkCalls r.world.log)[k]? = some c →
    c.bytes = readRange (env.sys k).data 0 c.ret.toNat
  data : readRange r.world.user buf (acceptedBytes r.world.log).toNat = callData r.world.log
  unchanged : ∀ a, a < buf ∨ buf + (acceptedBytes r.world.log).toNat ≤ a →
    r.world.user a = w.user a

theorem readPread_refines_plain (env : Env) (io : AccIoInfo) (num : SyscallNum) (fd : Int)
    (buf count : Nat) (ofs : Int) (w : World) (pos : 0 < count) (small : count < 2 ^ 48)
    (nonnull : buf ≠ 0) (ofs_low : -2 ^ 63 ≤ ofs) (ofs_high : ofs + count < 2 ^ 63)
    (fresh : w.Fresh) (posts : ∀ k, env.postOk k = true) (waits : ∀ k, env.waitCode k = 0) :
    RefinesPlainRead env num fd buf count ofs w
      (veAcceleratedIoReadPread env (.success io) num fd buf count ofs w) := by
  have le : count ≤ maxTotal := by
    rw [maxTotal_eq]
    omega
  obtain ⟨n, m, final⟩ := bufferReadJob_spec env num fd buf count ofs io w le pos fresh
  rw [veAcceleratedIoReadPread_success env io num fd ofs w pos nonnull]
  generalize readTransfer env (bufferCall num fd count) (.start w io buf ofs) = s at final ⊢
  obtain ⟨value, whole⟩ := final.dma_ok posts waits
  have issued := final.base.issuedCalls
  have accepted : (acceptedBytes s.world.log).toNat = gotSum env count n := by
    rw [issued.accepted, Int.toNat_natCast]
    rfl
  have user : s.world.user = overlay w.user buf (readStream env) (gotSum env count n) := by
    rw [← scatter_contiguous, final.base.delivered.user, whole]
    rfl
  constructor
  · rw [finish_ret, finish_log]
    exact issued.plainCalls final.issued ofs_low ofs_high (fun _ => ⟨rfl, rfl⟩)
      (fun _ => rfl) value
  · intro k c found
    rw [finish_log] at found
    obtain ⟨_, rfl⟩ := issued.call found
    rfl
  · rw [finish_log, finish_user, accepted, user, readRange_overlay, final.base.data]
    rfl
  · intro a outside
    rw [finish_log, accepted] at outside
    rw [finish_user, user]
    exact overlay_outside w.user _ outside

/-- A read of five chunks, of which the file has three and three bytes more. -/
def shortRead : IoResult :=
  veAcceleratedIoReadPread (Env.short 3 3) (.success (AccIoResources.sample.info (Env.short 3 3)))
    .pread64 7 4096 (4 * parasSize + 5) 100 .blank

theorem readPread_refines_plain_short :
    (chunkCalls shortRead.world.log).map ChunkCall.ret = [4194304, 4194304, 4194304, 3] ∧
      RefinesPlainRead (Env.short 3 3) .pread64 7 4096 (4 * parasSize + 5) 100 .blank shortRead :=
  ⟨by decide +kernel,
    readPread_refines_plain (Env.short 3 3) _ .pread64 7 4096 _ 100 .blank (by decide) (by decide)
      (by decide) (by decide) (by decide) World.blank_fresh (fun _ => rfl) (fun _ => rfl)⟩

/-! ## The vector functions -/

def iovReadJob (env : Env) (num : SyscallNum) (fd : Int) (iov : List Iovec) (ofs : Int)
    (io : AccIoInfo) (w : World) (le : iovTotal iov ≤ maxTotal) : ReadJob IovCursor where
  env := env
  call := iovCall num fd iov
  io := io
  ofs := ofs
  errno := w.errno
  total := iovTotal iov
  addr := iovAddr iov
  user := w.user
  sized := iovCall_sized num fd le
  cover := iovCover iov le

theorem iovReadJob_spec (env : Env) (num : SyscallNum) (fd : Int) (iov : List Iovec)
    (ofs : Int) (io : AccIoInfo) (w : World) (le : iovTotal iov ≤ maxTotal)
    (pos : 0 < iovTotal iov) (fresh : w.Fresh) :
    ∃ n m, (iovReadJob env num fd iov ofs io w le).Final n m
      (readTransfer env (iovCall num fd iov) (.start w io ⟨0, 0⟩ ofs)) :=
  (iovReadJob env num fd iov ofs io w le).readTransfer_spec pos fresh rfl rfl
    ⟨iovAt_start iov, rfl⟩

theorem veAcceleratedIoReadvPreadv_success (env : Env) (io : AccIoInfo) (num : SyscallNum)
    (fd : Int) {iov : List Iovec} (ofs : Int) (w : World) (some_segment : iov ≠ []) :
    veAcceleratedIoReadvPreadv env (.success io) num fd (some iov) iov.length ofs w =
      (readTransfer env (iovCall (readSyscallType num) fd iov)
        (.start w io ⟨0, 0⟩ ofs)).finish := by
  simp [veAcceleratedIoReadvPreadv, guarded, some_segment]

end Libsysve.AccIo
