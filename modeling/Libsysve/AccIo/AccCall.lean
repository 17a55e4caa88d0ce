import Libsysve.AccIo.Read
import Libsysve.AccIo.Write

/-!
# The four functions together

`AccCall` is a call of one of the four functions that passed `ve_accelerated_io_pre`.  What
they have in common: how a call ends (`CallEnd`), and that no DMA is left outstanding.
-/

set_option autoImplicit false

namespace Libsysve.AccIo

open Libsysve.ForLoop

inductive AccCall where
  | readPread (buf count : Nat)
  | readvPreadv (iov : List Iovec)
  | writePwrite (buf count : Nat)
  | writevPwritev (iov : List Iovec)
deriving DecidableEq

namespace AccCall

def total : AccCall → Nat
  | .readPread _ count => count
  | .readvPreadv iov => iovTotal iov
  | .writePwrite _ count => count
  | .writevPwritev iov => iovTotal iov

/-- The arguments get past the guards before `ve_accelerated_io_pre`. -/
def Valid : AccCall → Prop
  | .readPread buf count => buf ≠ 0 ∧ 0 < count
  | .readvPreadv iov => iov ≠ []
  | .writePwrite buf count => buf ≠ 0 ∧ 0 < count
  | .writevPwritev iov => iov ≠ []

/-- The bytes copied to the user, or accepted by the chunk system calls. -/
def moved : AccCall → List IoEvent → Int
  | .readPread _ _, log => copiedBytes log
  | .readvPreadv _, log => copiedBytes log
  | .writePwrite _ _, log => acceptedBytes log
  | .writevPwritev _, log => acceptedBytes log

def run (env : Env) (io : AccIoInfo) (num : SyscallNum) (fd : Int) (ofs : Int) (w : World) :
    AccCall → IoResult
  | .readPread buf count =>
    veAcceleratedIoReadPread env (.success io) num fd buf count ofs w
  | .readvPreadv iov =>
    veAcceleratedIoReadvPreadv env (.success io) num fd (some iov) iov.length ofs w
  | .writePwrite buf count =>
    veAcceleratedIoWritePwrite env (.success io) num fd buf count ofs w
  | .writevPwritev iov =>
    veAcceleratedIoWritevPwritev env (.success io) num fd (some iov) iov.length ofs w

end AccCall

def FirstCallFailed (log : List IoEvent) : Prop :=
  ∃ c, (chunkCalls log).head? = some c ∧ c.ret = -1

/-- The ways a call ends, by the bytes it moved and the value it returns. -/
inductive CallEnd (moved ret : Int) (log : List IoEvent) : Prop where
  | complete (noFail : dmaFailed log = false) (began : ¬FirstCallFailed log)
      (value : ret = moved) (nonneg : 0 ≤ moved)
  | first (noFail : dmaFailed log = false) (failed : FirstCallFailed log) (value : ret = -1)
      (nothing : moved = 0)
  | dma (failed : dmaFailed log = true) (value : ret = -1)

structure Settled (moved ret : Int) (log : List IoEvent) : Prop where
  ends : CallEnd moved ret log
  safe : dmaMonitor.Safe log
  idle : ∀ j, outstanding log j = false

theorem IssuedCalls.firstCallFailed {env : Env} {total : Nat} {chunkCall : Nat → ChunkCall}
    {n : Nat} {log : List IoEvent} (h : IssuedCalls env total chunkCall n log) (issued : 1 ≤ n) :
    FirstCallFailed log ↔ chunkRet env total 0 = -1 := by
  rw [FirstCallFailed, h.head issued]
  constructor
  · rintro ⟨c, first, failed⟩
    obtain rfl := Option.some.inj first
    rw [← h.ret, failed]
  · intro failed
    exact ⟨_, rfl, by rw [h.ret, failed]⟩

theorem ReadJob.Final.settled {Cursor : Type} {job : ReadJob Cursor} {n m : Nat}
    {s : IoState Cursor} (h : job.Final n m s) :
    Settled (copiedBytes s.world.log) s.exitResult s.world.log := by
  have issued := h.base.issuedCalls
  have first := issued.firstCallFailed h.issued
  refine ⟨?_, h.base.safe, h.idle⟩
  rcases h.status with done | aborted | failed
  · refine .complete done.clean.noFail ?_ ?_ ?_
    · rw [first]
      exact done.complete.began
    · rw [done.clean.exit, h.base.copied]
    · rw [h.base.copied]
      omega
  · exact .dma aborted.failed aborted.exit
  · refine .first failed.noFail (first.mpr failed.first) failed.exit ?_
    rw [h.base.copied, failed.none, gotSum_zero]
    rfl

theorem WriteJob.Final.settled {Cursor : Type} {job : WriteJob Cursor} {n : Nat}
    {s : IoState Cursor} (h : job.Final n s) (pos : 0 < job.total) :
    Settled (acceptedBytes s.world.log) s.exitResult s.world.log := by
  have issued := h.base.issuedCalls
  have chunks := chunkNum_pos pos
  refine ⟨?_, h.base.safe, h.idle⟩
  rcases h.status with ⟨all, going⟩ | stopped | failed | aborted
  · refine .complete going.noFail ?_ ?_ ?_
    · rw [issued.firstCallFailed (by omega), chunkRet_of_full chunks (going.full 0 (by omega))]
      omega
    · rw [going.exit, issued.accepted]
    · rw [issued.accepted]
      omega
  · refine .complete stopped.noFail ?_ ?_ ?_
    · rw [issued.firstCallFailed stopped.issued]
      exact stopped.began
    · rw [stopped.exit, issued.accepted]
    · rw [issued.accepted]
      omega
  · have one : n = 1 := failed.one
    subst one
    refine .first failed.noFail ((issued.firstCallFailed (le_refl 1)).mpr failed.first)
      failed.exit ?_
    rw [issued.accepted, gotSum_succ, gotSum_zero, got_eq_zero (by rw [failed.first]; decide)]
    rfl
  · exact .dma aborted.failed aborted.exit

/-! ## A transfer of nothing: all segments are empty -/

theorem settled_start {Cursor : Type} {w : World} (fresh : w.Fresh) (io : AccIoInfo)
    (cursor : Cursor) (ofs : Int) : Settled 0 0 (IoState.start w io cursor ofs).world.log := by
  have log : w.log = [] := fresh.2.1
  show Settled 0 0 w.log
  rw [log]
  refine ⟨.complete rfl ?_ rfl (le_refl 0), dmaMonitor.safe_nil, fun _ => rfl⟩
  rintro ⟨c, first, _⟩
  exact absurd first (by simp)

theorem readTransfer_none {Cursor : Type} (env : Env) {call : IoCall Cursor}
    (none : call.chunkNum = 0) (w : World) (io : AccIoInfo) (cursor : Cursor) (ofs : Int) :
    readTransfer env call (.start w io cursor ofs) = .start w io cursor ofs := by
  rw [readTransfer, none]
  rfl

theorem writeTransfer_none {Cursor : Type} (env : Env) {call : IoCall Cursor}
    (none : call.chunkNum = 0) (w : World) (io : AccIoInfo) (cursor : Cursor) (ofs : Int) :
    writeTransfer env call (.start w io cursor ofs) = .start w io cursor ofs := by
  rw [writeTransfer, none]
  rfl

theorem copiedBytes_start {Cursor : Type} {w : World} (fresh : w.Fresh) (io : AccIoInfo)
    (cursor : Cursor) (ofs : Int) :
    copiedBytes (IoState.start w io cursor ofs).world.log = 0 ∧
      acceptedBytes (IoState.start w io cursor ofs).world.log = 0 := by
  have log : w.log = [] := fresh.2.1
  simp [IoState.start, log, copiedBytes, acceptedBytes]

theorem iovCall_none {num : SyscallNum} {fd : Int} {iov : List Iovec} (none : iovTotal iov = 0) :
    (iovCall num fd iov).chunkNum = 0 := by
  have sized := iovCall_sized num fd (show iovTotal iov ≤ maxTotal by omega)
  rw [sized.chunkNum_eq, none]
  rfl

theorem Settled.finish (c : AccCall) {Cursor : Type} {s : IoState Cursor}
    (h : Settled (c.moved s.world.log) s.exitResult s.world.log) :
    Settled (c.moved s.finish.world.log) s.finish.ret s.finish.world.log := by
  rw [finish_log]
  exact h

namespace AccCall

theorem run_settled (env : Env) (io : AccIoInfo) (num : SyscallNum) (fd ofs : Int) {w : World}
    {c : AccCall} (valid : c.Valid) (le : c.total ≤ maxTotal) (fresh : w.Fresh) :
    Settled (c.moved (c.run env io num fd ofs w).world.log) (c.run env io num fd ofs w).ret
      (c.run env io num fd ofs w).world.log := by
  cases c with
  | readPread buf count =>
    obtain ⟨nonnull, pos⟩ := valid
    obtain ⟨n, m, final⟩ := bufferReadJob_spec env num fd buf count ofs io w le pos fresh
    rw [run, veAcceleratedIoReadPread_success env io num fd ofs w pos nonnull]
    exact Settled.finish (.readPread buf count) final.settled
  | readvPreadv iov =>
    rw [run, veAcceleratedIoReadvPreadv_success env io num fd ofs w valid]
    apply Settled.finish (.readvPreadv iov)
    by_cases pos : 0 < iovTotal iov
    · obtain ⟨n, m, final⟩ :=
        iovReadJob_spec env (readSyscallType num) fd iov ofs io w le pos fresh
      exact final.settled
    · rw [readTransfer_none env (iovCall_none (by omega)), moved,
        (copiedBytes_start fresh io _ ofs).1]
      exact settled_start fresh io _ ofs
  | writePwrite buf count =>
    obtain ⟨nonnull, pos⟩ := valid
    obtain ⟨n, final⟩ := bufferWriteJob_spec env num fd buf count ofs io w le pos fresh
    rw [run, veAcceleratedIoWritePwrite_success env io num fd ofs w pos nonnull]
    exact Settled.finish (.writePwrite buf count) (final.settled pos)
  | writevPwritev iov =>
    rw [run, veAcceleratedIoWritevPwritev_success env io num fd ofs w valid]
    apply Settled.finish (.writevPwritev iov)
    by_cases pos : 0 < iovTotal iov
    · obtain ⟨n, final⟩ :=
        iovWriteJob_spec env (writeSyscallType num) fd iov ofs io w le pos fresh
      exact final.settled pos
    · rw [writeTransfer_none env (iovCall_none (by omega)), moved,
        (copiedBytes_start fresh io _ ofs).2]
      exact settled_start fresh io _ ofs

/-! ## What the value returned says -/

/-- What the value returned would say if it told all about the bytes moved. -/
def ReportsMoved (moved ret : Int) : Prop := (ret = -1 → moved = 0) ∧ (0 ≤ ret → moved = ret)

/-- After a failed DMA the call returns `-1` (with `EIO`) whatever it had moved; otherwise the
value returned tells what was moved. -/
theorem run_reports_unless_dma (env : Env) (io : AccIoInfo) (num : SyscallNum) (fd ofs : Int)
    {w : World} {c : AccCall} (valid : c.Valid) (le : c.total ≤ maxTotal) (fresh : w.Fresh) :
    ((c.run env io num fd ofs w).ret = -1 →
      dmaFailed (c.run env io num fd ofs w).world.log = true ∨
        c.moved (c.run env io num fd ofs w).world.log = 0) ∧
    (0 ≤ (c.run env io num fd ofs w).ret →
      c.moved (c.run env io num fd ofs w).world.log = (c.run env io num fd ofs w).ret) ∧
    ((c.run env io num fd ofs w).ret = -1 ↔
      dmaFailed (c.run env io num fd ofs w).world.log = true ∨
        FirstCallFailed (c.run env io num fd ofs w).world.log) := by
  rcases (run_settled env io num fd ofs valid le fresh).ends with
    ⟨noFail, began, value, nonneg⟩ | ⟨noFail, failed, value, nothing⟩ | ⟨failed, value⟩
  · refine ⟨by omega, fun _ => value.symm, by omega, ?_⟩
    rintro (fails | first)
    · rw [noFail] at fails
      exact absurd fails (by decide)
    · exact absurd first began
  · exact ⟨fun _ => .inr nothing, by omega, fun _ => .inr failed, fun _ => value⟩
  · exact ⟨fun _ => .inl failed, by omega, fun _ => .inl failed, fun _ => value⟩

def secondWaitFails : Env :=
  { Env.steady parasSize with waitCode := fun k => if k = 1 then 7 else 0 }

/-- A write that has handed 4 MB to the file returns `-1`. -/
theorem run_dma_fails_late : ¬ReportsMoved
    (acceptedBytes ((AccCall.writePwrite 4096 (parasSize + 1)).run secondWaitFails
      (AccIoResources.sample.info secondWaitFails) .write 7 0 .blank).world.log)
    ((AccCall.writePwrite 4096 (parasSize + 1)).run secondWaitFails
      (AccIoResources.sample.info secondWaitFails) .write 7 0 .blank).ret := by
  have ret : ((AccCall.writePwrite 4096 (parasSize + 1)).run secondWaitFails
      (AccIoResources.sample.info secondWaitFails) .write 7 0 .blank).ret = -1 := by
    decide +kernel
  have moved : acceptedBytes ((AccCall.writePwrite 4096 (parasSize + 1)).run secondWaitFails
      (AccIoResources.sample.info secondWaitFails) .write 7 0 .blank).world.log = 4194304 := by
    decide +kernel
  rw [ReportsMoved, ret, moved]
  decide

theorem run_reports_unless_dma_late :
    ((AccCall.writePwrite 4096 (parasSize + 1)).run secondWaitFails
      (AccIoResources.sample.info secondWaitFails) .write 7 0 .blank).ret = -1 ↔
    dmaFailed ((AccCall.writePwrite 4096 (parasSize + 1)).run secondWaitFails
      (AccIoResources.sample.info secondWaitFails) .write 7 0 .blank).world.log = true ∨
    FirstCallFailed ((AccCall.writePwrite 4096 (parasSize + 1)).run secondWaitFails
      (AccIoResources.sample.info secondWaitFails) .write 7 0 .blank).world.log :=
  (run_reports_unless_dma secondWaitFails (AccIoResources.sample.info secondWaitFails) .write 7 0
    (show (AccCall.writePwrite 4096 (parasSize + 1)).Valid from ⟨by decide, by decide⟩)
    (by decide) World.blank_fresh).2.2

/-! ## The half-buffers -/

/-- The discipline of the half-buffers over a whole call: `dmaMonitor` at every event, no DMA
outstanding at the end, and every accepted request waited for exactly once. -/
structure PipelineSafe (log : List IoEvent) : Prop where
  safe : dmaMonitor.Safe log
  idle : ∀ j, outstanding log j = false
  waited : ∀ before j dst src data size rest,
    log = before ++ .dmaPost j dst src data size true :: rest →
      ∃ between wait after, rest = between ++ wait :: after ∧ wait.waits j = true ∧
        ∀ e, e ∈ between → e.posts j = false ∧ e.waits j = false
  once : ∀ j, log.countP (IoEvent.posts j) = log.countP (IoEvent.waits j)

theorem run_pipeline_safe (env : Env) (io : AccIoInfo) (num : SyscallNum) (fd ofs : Int)
    {w : World} {c : AccCall} (valid : c.Valid) (small : c.total < 2 ^ 48) (fresh : w.Fresh) :
    PipelineSafe (c.run env io num fd ofs w).world.log := by
  have le : c.total ≤ maxTotal := by
    rw [maxTotal_eq]
    omega
  obtain ⟨_, safe, idle⟩ := run_settled env io num fd ofs valid le fresh
  refine ⟨safe, idle, ?_, ?_⟩
  · intro before j dst src data size rest split
    rw [split] at safe
    have quiet := idle j
    rw [split] at quiet
    have shape : before ++ IoEvent.dmaPost j dst src data size true :: rest =
        before ++ [.dmaPost j dst src data size true] ++ rest := by simp
    rw [shape] at safe quiet
    refine waited_after_post safe ?_ quiet
    rw [outstanding_snoc, dmaMonitor_after]
    simp [IoEvent.posts]
  · intro j
    have count := posts_eq_waits _ safe j
    rwa [idle j, Bool.toNat_false, Nat.add_zero] at count

/-- The DMA fails that uses the first half for the second time. -/
def thirdWaitFails : Env :=
  { Env.steady parasSize with waitCode := fun k => if k = 2 then 7 else 0 }

/-- Five chunks in three segments, one of them empty. -/
def fiveChunks : AccCall :=
  .readvPreadv [⟨4096, 3 * parasSize⟩, ⟨8192, 0⟩, ⟨0x1000000, parasSize + 5⟩]

theorem run_pipeline_safe_iov :
    dmaFailed (fiveChunks.run thirdWaitFails (AccIoResources.sample.info thirdWaitFails) .readv 7 0
      .blank).world.log = true ∧
    (fiveChunks.run thirdWaitFails (AccIoResources.sample.info thirdWaitFails) .readv 7 0
      .blank).world.log.countP (IoEvent.waits (half 0)) = 2 ∧
    PipelineSafe (fiveChunks.run thirdWaitFails (AccIoResources.sample.info thirdWaitFails) .readv 7
      0 .blank).world.log :=
  ⟨by decide +kernel, by decide +kernel,
    run_pipeline_safe thirdWaitFails _ .readv 7 0
      (show fiveChunks.Valid by simp [fiveChunks, Valid]) (by decide) World.blank_fresh⟩

end AccCall

end Libsysve.AccIo
