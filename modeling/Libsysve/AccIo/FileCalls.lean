import Libsysve.AccIo.Hooks

/-!
# Programs of accelerated calls behave as with plain calls

One call: its chunk system calls work on the file one after the other, so together they are one
system call of the size they moved, for the read and the write functions alike
(`ChunksAt.stateAfter`).  A program: the states it goes through are those of the plain calls that
return the same values.
-/

set_option autoImplicit false

namespace Libsysve.AccIo

open Libsysve.ByteMemory

/-! ## Transfers one after the other -/

namespace OpenFile

variable (f : OpenFile) (num : SyscallNum) (ofs : Int) (src src' : Memory) (k n : Nat)

theorem start_transferred {ofs' : Int} (next : ofs'.toNat = ofs.toNat + k) :
    (f.transferred num ofs src k).start num ofs' = f.start num ofs + k := by
  cases positioned : num.positioned with
  | true => simp [start, positioned, next]
  | false => simp [start, transferred, positioned]

theorem transferred_transferred {ofs' : Int} (next : ofs'.toNat = ofs.toNat + k)
    (same : num.writes = true → ∀ i, i < n → src' i = src (k + i)) :
    (f.transferred num ofs src k).transferred num ofs' src' n =
      f.transferred num ofs src (k + n) := by
  rw [transferred, start_transferred f num ofs src k next]
  cases writes : num.writes with
  | true =>
    have stored := overlay_overlay f.bytes (f.start num ofs) src src' k n (same writes)
    cases positioned : num.positioned with
    | true => simp [transferred, writes, positioned, stored]
    | false => simp [transferred, writes, positioned, stored, Nat.add_assoc]
  | false =>
    cases positioned : num.positioned with
    | true => simp [transferred, writes, positioned]
    | false => simp [transferred, writes, positioned, Nat.add_assoc]

theorem transferred_none : f.transferred num ofs src 0 = f := by
  simp [transferred, overlay_none]

theorem transferred_bytes (reads : num.writes = false) :
    (f.transferred num ofs src n).bytes = f.bytes := by
  simp [transferred, reads]

end OpenFile

/-! ## The chunk system calls of one call -/

/-- The chunk system calls of a transfer of `total` bytes at `ofs`. -/
structure ChunksAt (env : Env) (num : SyscallNum) (total : Nat) (ofs : Int)
    (chunkCall : Nat → ChunkCall) : Prop where
  ret : ∀ k, (chunkCall k).ret = chunkRet env total k
  nums : ∀ k, (chunkCall k).num = num
  offsets : ∀ k, (chunkCall k).ofs = int64 (ofs + parasSize * k)
  low : 0 ≤ ofs
  high : ofs + total < 2 ^ 63

namespace ChunksAt

variable {env : Env} {num : SyscallNum} {total n : Nat} {ofs : Int} {chunkCall : Nat → ChunkCall}
  {src : Memory}

theorem offset (chunks : ChunksAt env num total ofs chunkCall) (lt : n < chunkNum total)
    (full : ∀ k, k < n → got env total k = chunkSize total k) :
    (chunkCall n).ofs.toNat = ofs.toNat + gotSum env total n := by
  have position := gotSum_full lt full
  have inside := chunk_end_le lt
  have low := chunks.low
  have high := chunks.high
  rw [chunks.offsets, int64_eq_self (by omega) (by omega), position]
  omega

/-- All chunks together are one system call. -/
theorem stateAfter (chunks : ChunksAt env num total ofs chunkCall) (f : OpenFile)
    (bytes : num.writes = true → ∀ k,
      (chunkCall k).bytes = readRange src (parasSize * k) (chunkSize total k))
    (le : n ≤ chunkNum total) (full : ∀ k, k + 1 < n → got env total k = chunkSize total k) :
    (fileMonitor f).stateAfter ((List.range n).map chunkCall) =
      f.transferred num ofs src (gotSum env total n) := by
  induction n with
  | zero => exact (f.transferred_none num ofs src).symm
  | succ n ih =>
    have before := ih (by omega) (fun k lt => full k (by omega))
    have next := chunks.offset le (fun k lt => full k (by omega))
    have position : gotSum env total n = parasSize * n :=
      gotSum_full le (fun k lt => full k (by omega))
    have size : (chunkCall n).ret.toNat = got env total n := by rw [chunks.ret]; rfl
    rw [List.range_succ, List.map_append, List.map_singleton, Monitor.stateAfter_snoc, before,
      gotSum_succ]
    simp only [fileMonitor, chunks.nums, size]
    refine OpenFile.transferred_transferred f num ofs src _ _ _ next (fun writes i lt => ?_)
    rw [bytes writes, getD_readRange _ _ (lt_of_lt_of_le lt (got_le env total n)), position]

theorem stream (chunks : ChunksAt env num total ofs chunkCall) {f : OpenFile}
    (reads : num.writes = false)
    (bytes : ∀ k, (chunkCall k).bytes = readRange (env.sys k).data 0 (got env total k))
    (le : n ≤ chunkNum total) (full : ∀ k, k + 1 < n → got env total k = chunkSize total k)
    (safe : (fileMonitor f).Safe ((List.range n).map chunkCall)) {p : Nat}
    (lt : p < gotSum env total n) :
    readStream env p = f.bytes (f.start num ofs + p) := by
  induction n with
  | zero => exact absurd lt (Nat.not_lt_zero p)
  | succ n ih =>
    rw [List.range_succ, List.map_append, List.map_singleton, Monitor.safe_snoc] at safe
    obtain ⟨earlier, answered⟩ := safe
    by_cases old : p < gotSum env total n
    · exact ih (by omega) (fun k lt => full k (by omega)) earlier old
    · obtain ⟨i, rfl⟩ := Nat.exists_eq_add_of_le (Nat.le_of_not_lt old)
      rw [gotSum_succ] at lt
      have inside : i < got env total n := by omega
      have small : i < parasSize :=
        lt_of_lt_of_le inside ((got_le env total n).trans (chunkSize_le total n))
      have position : gotSum env total n = parasSize * n :=
        gotSum_full le (fun k lt => full k (by omega))
      have size : (chunkCall n).ret.toNat = got env total n := by rw [chunks.ret]; rfl
      have before : (fileMonitor f).stateAfter ((List.range n).map chunkCall) =
          f.transferred num ofs (readStream env) (gotSum env total n) :=
        chunks.stateAfter f (fun writes => absurd (reads.symm.trans writes) Bool.false_ne_true)
          (Nat.le_of_succ_le le) (fun k lt => full k (by omega))
      have next := chunks.offset le (fun k lt => full k (by omega))
      have there := answered (by rw [chunks.nums]; exact reads)
      rw [before, bytes, size, chunks.nums, OpenFile.start_transferred f num ofs _ _ next,
        OpenFile.transferred_bytes f num ofs _ _ reads] at there
      have byte := byte_eq_of_readRange there inside
      rw [Nat.zero_add] at byte
      rw [position, readStream_chunk env n small, byte, position, Nat.add_assoc]

end ChunksAt

/-- What a call does to user memory and the file is what the plain system call does that returns
the same value. -/
structure PlainEffect (f : OpenFile) (num : SyscallNum) (total : Nat) (ofs : Int)
    (addr : Nat → Nat) (user : Memory) (r : IoResult) : Prop where
  file : (fileMonitor f).stateAfter (chunkCalls r.world.log) =
    f.transferred num ofs (fun p => user (addr p)) r.ret.toNat
  user : r.world.user = if num.writes then user
    else scatter user addr (fun p => f.bytes (f.start num ofs + p)) r.ret.toNat
  low : -1 ≤ r.ret
  high : r.ret ≤ total

theorem IssuedCalls.Returns.range {env : Env} {total n : Nat} {ret : Int}
    (returns : IssuedCalls.Returns env total n ret) :
    ret.toNat = gotSum env total n ∧ -1 ≤ ret ∧ ret ≤ total := by
  have le := gotSum_le env total n
  rcases returns with ⟨_, rfl⟩ | ⟨rfl, failed, rfl⟩
  · omega
  · have nothing : got env total 0 = 0 := got_eq_zero (by omega)
    have sum : gotSum env total 1 = 0 := by rw [gotSum_succ, gotSum_zero, nothing]
    rw [sum]
    omega

theorem ReadJob.Final.plainEffect {Cursor : Type} {job : ReadJob Cursor} {n m : Nat}
    {s : IoState Cursor} (final : job.Final n m s) (f : OpenFile)
    (posts : ∀ k, job.env.postOk k = true) (waits : ∀ k, job.env.waitCode k = 0)
    (reads : job.call.num.writes = false) (low : 0 ≤ job.ofs)
    (high : job.ofs + job.total < 2 ^ 63)
    (safe : (fileMonitor f).Safe (chunkCalls s.world.log)) :
    PlainEffect f job.call.num job.total job.ofs job.addr job.user s.finish := by
  obtain ⟨value, whole⟩ := final.dma_ok posts waits
  obtain ⟨size, least, most⟩ := value.range
  have chunks : ChunksAt job.env job.call.num job.total job.ofs job.chunkCall :=
    ⟨fun _ => rfl, fun _ => rfl, fun _ => rfl, low, high⟩
  have base := final.base
  rw [base.calls] at safe
  refine ⟨?_, ?_, least, most⟩
  · rw [finish_log, base.calls, finish_ret, size]
    exact chunks.stateAfter f (fun writes => absurd (reads.symm.trans writes) Bool.false_ne_true)
      base.le base.full
  · rw [finish_user, finish_ret, size, reads, base.delivered.user, whole]
    exact scatter_congr (fun _ _ => rfl) (fun p lt =>
      chunks.stream reads (fun _ => rfl) base.le base.full safe lt)

theorem WriteJob.Final.plainEffect {Cursor : Type} {job : WriteJob Cursor} {n : Nat}
    {s : IoState Cursor} (final : job.Final n s) (f : OpenFile) (pos : 0 < job.total)
    (posts : ∀ k, job.env.postOk k = true) (waits : ∀ k, job.env.waitCode k = 0)
    (writes : job.call.num.writes = true) (low : 0 ≤ job.ofs)
    (high : job.ofs + job.total < 2 ^ 63) :
    PlainEffect f job.call.num job.total job.ofs job.addr job.user s.finish := by
  obtain ⟨_, value⟩ := final.dma_ok pos posts waits
  obtain ⟨size, least, most⟩ := value.range
  have chunks : ChunksAt job.env job.call.num job.total job.ofs job.chunkCall :=
    ⟨fun _ => rfl, fun _ => rfl, fun _ => rfl, low, high⟩
  have base := final.base
  refine ⟨?_, ?_, least, most⟩
  · rw [finish_log, base.calls, finish_ret, size]
    exact chunks.stateAfter f (fun _ _ => rfl) base.le base.full
  · rw [finish_user, base.user, writes, if_pos rfl]

namespace AccCall

def chunkNum (num : SyscallNum) : AccCall → SyscallNum
  | .readPread _ _ | .writePwrite _ _ => num
  | .readvPreadv _ => readSyscallType num
  | .writevPwritev _ => writeSyscallType num

def writes : AccCall → Bool
  | .readPread _ _ | .readvPreadv _ => false
  | .writePwrite _ _ | .writevPwritev _ => true

theorem plainEffect_start {Cursor : Type} {w : World} (fresh : w.Fresh) (f : OpenFile)
    (num : SyscallNum) (total : Nat) (ofs : Int) (addr : Nat → Nat) (io : AccIoInfo)
    (cursor : Cursor) (start : Int) : PlainEffect f num total ofs addr w.user
      (IoState.start w io cursor start).finish := by
  have log : w.log = [] := fresh.2.1
  refine ⟨?_, ?_, show (-1 : Int) ≤ 0 by decide, Int.natCast_nonneg total⟩
  · rw [finish_log, finish_ret]
    show (fileMonitor f).stateAfter (chunkCalls w.log) = _
    rw [log]
    exact (f.transferred_none num ofs _).symm
  · rw [finish_user]
    show w.user = _
    cases num.writes <;> rfl

/-- A call that passed `ve_accelerated_io_pre`, all of whose DMAs succeed. -/
theorem run_plainEffect (env : Env) (io : AccIoInfo) (num : SyscallNum) (fd ofs : Int) {w : World}
    {c : AccCall} (f : OpenFile) (valid : c.Valid) (le : c.total ≤ maxTotal) (fresh : w.Fresh)
    (posts : ∀ k, env.postOk k = true) (waits : ∀ k, env.waitCode k = 0)
    (kind : (c.chunkNum num).writes = c.writes) (low : 0 ≤ ofs) (high : ofs + c.total < 2 ^ 63)
    (safe : (fileMonitor f).Safe (chunkCalls (c.run env io num fd ofs w).world.log)) :
    PlainEffect f (c.chunkNum num) c.total ofs c.addr w.user (c.run env io num fd ofs w) := by
  cases c with
  | readPread buf count =>
    obtain ⟨nonnull, pos⟩ := valid
    obtain ⟨n, m, final⟩ := bufferReadJob_spec env num fd buf count ofs io w le pos fresh
    rw [run, veAcceleratedIoReadPread_success env io num fd ofs w pos nonnull] at safe ⊢
    rw [finish_log] at safe
    exact final.plainEffect f posts waits kind low high safe
  | readvPreadv iov =>
    rw [run, veAcceleratedIoReadvPreadv_success env io num fd ofs w valid] at safe ⊢
    by_cases pos : 0 < iovTotal iov
    · obtain ⟨n, m, final⟩ := iovReadJob_spec env (readSyscallType num) fd iov ofs io w le pos fresh
      rw [finish_log] at safe
      exact final.plainEffect f posts waits kind low high safe
    · rw [readTransfer_none env (iovCall_none (by omega))]
      exact plainEffect_start fresh f _ _ ofs _ io _ ofs
  | writePwrite buf count =>
    obtain ⟨nonnull, pos⟩ := valid
    obtain ⟨n, final⟩ := bufferWriteJob_spec env num fd buf count ofs io w le pos fresh
    rw [run, veAcceleratedIoWritePwrite_success env io num fd ofs w pos nonnull]
    exact final.plainEffect f pos posts waits kind low high
  | writevPwritev iov =>
    rw [run, veAcceleratedIoWritevPwritev_success env io num fd ofs w valid]
    by_cases pos : 0 < iovTotal iov
    · obtain ⟨n, final⟩ := iovWriteJob_spec env (writeSyscallType num) fd iov ofs io w le pos fresh
      exact final.plainEffect f pos posts waits kind low high
    · rw [writeTransfer_none env (iovCall_none (by omega))]
      exact plainEffect_start fresh f _ _ ofs _ io _ ofs

end AccCall

/-! ## One call of a program -/

theorem PlainEffect.congr {f : OpenFile} {num num' : SyscallNum} {total : Nat} {ofs : Int}
    {addr : Nat → Nat} {user : Memory} {r : IoResult} (h : PlainEffect f num total ofs addr user r)
    (writes : num.writes = num'.writes) (positioned : num.positioned = num'.positioned) :
    PlainEffect f num' total ofs addr user r := by
  have start : f.start num ofs = f.start num' ofs := by rw [OpenFile.start, positioned]; rfl
  refine ⟨h.file.trans ?_, ?_, h.low, h.high⟩
  · rw [OpenFile.transferred, OpenFile.transferred, start, writes, positioned]
  · rw [h.user, writes, start]

namespace HookCall

variable (env : Env) (fd : Int) (w : World) (call : HookCall)

theorem run_success (io : AccIoInfo) :
    call.run env (.success io) fd w = call.toAccCall.run env io call.num fd call.ofs w := by
  cases call <;> rfl

theorem run_empty (pre : PreResult) (empty : call.empty = true) :
    call.run env pre fd w = plainCall env call.num fd w := by
  cases call with
  | read buf count | pread buf count ofs | write buf count | pwrite buf count ofs =>
    have none : count = 0 := of_decide_eq_true empty
    subst none
    rfl
  | readv iov | preadv iov ofs | writev iov | pwritev iov ofs =>
    have none : iov = [] := of_decide_eq_true empty
    subst none
    rfl

theorem run_refused {pre : PreResult} (prepares : call.prepares = true)
    (refused : pre = .fail ∨ pre = .noBuf) :
    call.run env pre fd w = plainCall env call.num fd w := by
  rw [HookCall.prepares, Bool.and_eq_true, Bool.not_eq_true', Bool.not_eq_true'] at prepares
  obtain ⟨some, nonnull⟩ := prepares
  cases call with
  | read buf count | pread buf count ofs | write buf count | pwrite buf count ofs =>
    have count_ne : count ≠ 0 := of_decide_eq_false some
    have buf_ne : buf ≠ 0 := of_decide_eq_false nonnull
    rcases refused with rfl | rfl
    · exact (if_neg (by simpa using count_ne)).trans (if_neg (by simpa using buf_ne))
    · exact (if_neg (by simpa using count_ne)).trans (if_neg (by simpa using buf_ne))
  | readv iov | preadv iov ofs | writev iov | pwritev iov ofs =>
    have iov_ne : iov ≠ [] := of_decide_eq_false some
    rcases refused with rfl | rfl
    · exact if_neg (by simpa using iov_ne)
    · exact if_neg (by simpa using iov_ne)

theorem run_null (pre : PreResult) (some : call.empty = false) (null : call.null = true) :
    call.run env pre fd w = ⟨-1, { w with errno := efault }⟩ := by
  cases call with
  | read buf count | pread buf count ofs | write buf count | pwrite buf count ofs =>
    have count_ne : count ≠ 0 := of_decide_eq_false some
    have buf_eq : buf = 0 := of_decide_eq_true null
    exact (if_neg (by simpa using count_ne)).trans (if_pos (by simpa using buf_eq))
  | readv iov | preadv iov ofs | writev iov | pwritev iov ofs =>
    exact absurd null Bool.false_ne_true

theorem valid_of_prepares (prepares : call.prepares = true) : call.toAccCall.Valid := by
  rw [HookCall.prepares, Bool.and_eq_true, Bool.not_eq_true', Bool.not_eq_true'] at prepares
  obtain ⟨some, nonnull⟩ := prepares
  cases call with
  | read buf count | pread buf count ofs | write buf count | pwrite buf count ofs =>
    exact ⟨of_decide_eq_false nonnull, Nat.pos_of_ne_zero (of_decide_eq_false some)⟩
  | readv iov | preadv iov ofs | writev iov | pwritev iov ofs => exact of_decide_eq_false some

theorem chunkNum_kind : (call.toAccCall.chunkNum call.num).writes = call.num.writes ∧
    (call.toAccCall.chunkNum call.num).positioned = call.num.positioned ∧
    call.num.writes = call.toAccCall.writes := by
  cases call <;> exact ⟨rfl, rfl, rfl⟩

end HookCall

/-- What is asked of a call: its range fits into the file offsets, the DMAs succeed, a plain system
call moves at most what it was asked for, and VH answers the chunk system calls from the file. -/
structure HookTurn.Meets (turn : HookTurn) (s : HookState) : Prop where
  small : turn.call.total < 2 ^ 48
  low : 0 ≤ turn.call.ofs
  high : turn.call.ofs + turn.call.total < 2 ^ 63
  fresh : turn.world.Fresh
  posts : ∀ k, turn.env.postOk k = true
  waits : ∀ k, turn.env.waitCode k = 0
  answer : -1 ≤ turn.env.plain ∧ turn.env.plain ≤ turn.call.total
  served : (fileMonitor s.file).Safe (chunkCalls (turn.result s).world.log)

theorem FileState.plain_none (s : FileState) (call : HookCall) : s.plain call (-1) = s := by
  have file : s.file.transferred call.num call.ofs (fun p => s.user (call.addr p)) 0 = s.file :=
    s.file.transferred_none call.num call.ofs _
  have none : (-1 : Int).toNat = 0 := rfl
  rw [FileState.plain, none, file, scatter_zero, ite_self]

variable {turn : HookTurn} {s : HookState}

theorem HookTurn.result_plain (plain : turn.plain s = true) :
    turn.result s = plainCall turn.env turn.call.num turn.fd (turn.start s) := by
  rw [HookTurn.result]
  cases hooked : s.hooked with
  | false => rfl
  | true =>
    rw [if_pos rfl]
    rw [HookTurn.plain, hooked, Bool.not_true, Bool.false_or, HookCall.delegates] at plain
    by_cases empty : turn.call.empty = true
    · exact turn.call.run_empty turn.env turn.fd _ turn.pre empty
    · rw [eq_false_of_ne_true empty, Bool.false_or, Bool.and_eq_true] at plain
      obtain ⟨prepares, refused⟩ := plain
      refine turn.call.run_refused turn.env turn.fd _ prepares ?_
      cases pre : turn.pre with
      | success io =>
        rw [pre] at refused
        exact absurd refused Bool.false_ne_true
      | fail => exact .inl rfl
      | noBuf => exact .inr rfl

/-- A call of this library does what the plain call does that returns the same value. -/
theorem HookTurn.Meets.next (meets : turn.Meets s) :
    (turn.next s).toFileState = s.toFileState.plain turn.call (turn.result s).ret ∧
      -1 ≤ (turn.result s).ret ∧ (turn.result s).ret ≤ turn.call.total := by
  by_cases plain : turn.plain s = true
  · refine ⟨if_pos plain, ?_⟩
    rw [HookTurn.result_plain plain]
    exact meets.answer
  · have own : (turn.next s).toFileState =
        { user := (turn.result s).world.user
          file := (fileMonitor s.file).stateAfter (chunkCalls (turn.result s).world.log) } :=
      if_neg plain
    rw [own]
    rw [HookTurn.plain, Bool.or_eq_true, not_or, Bool.not_eq_true', Bool.not_eq_false,
      HookCall.delegates, Bool.or_eq_true, not_or, Bool.not_eq_true] at plain
    obtain ⟨hooked, some, accepted⟩ := plain
    have ran : turn.result s = turn.call.run turn.env turn.pre turn.fd (turn.start s) :=
      if_pos hooked
    have fresh : (turn.start s).Fresh := meets.fresh
    by_cases null : turn.call.null = true
    · have log : (turn.start s).log = [] := fresh.2.1
      rw [ran, turn.call.run_null turn.env turn.fd (turn.start s) turn.pre some null]
      refine ⟨?_, le_refl _, Int.le_trans (show (-1 : Int) ≤ 0 by decide) (Int.natCast_nonneg _)⟩
      rw [FileState.plain_none]
      show FileState.mk s.user ((fileMonitor s.file).stateAfter (chunkCalls (turn.start s).log)) = _
      rw [log]
      rfl
    · have prepares : turn.call.prepares = true := by
        rw [HookCall.prepares, some, eq_false_of_ne_true null]
        rfl
      rw [prepares, Bool.true_and] at accepted
      cases pre : turn.pre with
      | fail => exact absurd (by rw [pre]; rfl) accepted
      | noBuf => exact absurd (by rw [pre]; rfl) accepted
      | success io =>
        have served := meets.served
        rw [ran, pre, turn.call.run_success turn.env turn.fd (turn.start s) io] at served ⊢
        have le : turn.call.toAccCall.total ≤ maxTotal := by
          have small := meets.small
          rw [maxTotal_eq]
          rw [HookCall.total] at small
          omega
        obtain ⟨writes, positioned, kind⟩ := turn.call.chunkNum_kind
        have effect :=
          AccCall.run_plainEffect turn.env io turn.call.num turn.fd turn.call.ofs s.file
          (turn.call.valid_of_prepares prepares) le fresh meets.posts meets.waits
          (writes.trans kind) meets.low meets.high served
        have same := effect.congr writes positioned
        refine ⟨?_, same.low, same.high⟩
        rw [same.file, same.user]
        rfl

/-! ## Programs -/

theorem calls_as_plain (s final : HookState) (trace : List (Entry HookState HookTurn Int))
    (run : hookMachine.Run s trace final) (meets : ∀ e ∈ trace, e.label.Meets e.before) :
    plainMachine.Run s.toFileState
      (trace.map fun e => ⟨e.before.toFileState, (e.label.call, e.out), e.out, e.after.toFileState⟩)
      final.toFileState := by
  induction run with
  | nil => exact Machine.Run.nil
  | @snoc trace s₁ turn out s₂ ran stepped ih =>
    have earlier := ih (fun e member => meets e (List.mem_append_left _ member))
    have now := meets _ (List.mem_append_right trace (List.mem_singleton_self _))
    obtain ⟨rfl, rfl⟩ := Prod.mk.inj (Option.some.inj stepped)
    obtain ⟨state, low, high⟩ := now.next
    rw [List.map_append, List.map_singleton]
    refine earlier.snoc ?_
    rw [state]
    exact if_pos ⟨low, high⟩

instance decidableServed (f g : OpenFile) (c : ChunkCall) :
    Decidable ((fileMonitor f).allowed g c) :=
  inferInstanceAs (Decidable (c.num.writes = false →
    c.bytes = readRange g.bytes (g.start c.num c.ofs) c.ret.toNat))

/-- Five bytes are written, of which the file takes three. -/
def someWrite : HookTurn where
  call := .pwrite 4096 5 100
  fd := 7
  pre := .success (AccIoResources.sample.info (Env.steady 3))
  env := Env.steady 3
  world := .blank

/-- The same range is read, in two segments. -/
def someRead : HookTurn where
  call := .preadv [⟨8192, 2⟩, ⟨12288, 3⟩] 100
  fd := 7
  pre := .success (AccIoResources.sample.info (Env.steady 5))
  env := { Env.steady 5 with sys := fun _ => .ok 5 fun b => if b < 3 then b.toUInt8 else 9 }
  world := .blank

def ninesFile : HookState where
  user := World.blank.user
  file := { bytes := fun _ => 9, pos := 0 }
  hooked := true

theorem someWrite_meets : someWrite.Meets ninesFile := by
  refine ⟨by decide, by decide, by decide, World.blank_fresh, fun _ => rfl, fun _ => rfl, by decide,
    Monitor.safe_of_safeFrom _ _ ?_⟩
  decide +kernel

theorem someRead_meets : someRead.Meets (someWrite.next ninesFile) := by
  refine ⟨by decide, by decide, by decide, World.blank_fresh, fun _ => rfl, fun _ => rfl, by decide,
    Monitor.safe_of_safeFrom _ _ ?_⟩
  decide +kernel

theorem calls_as_plain_back :
    plainMachine.Run ninesFile.toFileState
        [⟨ninesFile.toFileState, (someWrite.call, 3), 3, (someWrite.next ninesFile).toFileState⟩,
          ⟨(someWrite.next ninesFile).toFileState, (someRead.call, 5), 5,
            (someRead.next (someWrite.next ninesFile)).toFileState⟩]
        (someRead.next (someWrite.next ninesFile)).toFileState ∧
      readRange (someRead.next (someWrite.next ninesFile)).user 12288 3 = [2, 9, 9] := by
  have wrote : (someWrite.result ninesFile).ret = 3 := by decide +kernel
  have read : (someRead.result (someWrite.next ninesFile)).ret = 5 := by decide +kernel
  have run : hookMachine.Run ninesFile
      ([] ++ [⟨ninesFile, someWrite, _, _⟩] ++ [⟨_, someRead, _, _⟩]) _ :=
    (Machine.Run.nil.snoc rfl).snoc rfl
  have plain := calls_as_plain ninesFile _ _ run (fun e member => by
    rcases List.mem_append.mp member with first | second
    · rw [List.mem_singleton.mp first]
      exact someWrite_meets
    · rw [List.mem_singleton.mp second]
      exact someRead_meets)
  refine ⟨?_, by decide +kernel⟩
  rw [← wrote, ← read]
  exact plain

/-! ## What is written is read back -/

/-- The call changes the byte of the file at `x`. -/
def HookTurn.Stores (turn : HookTurn) (s : HookState) (x : Nat) : Prop :=
  turn.call.num.writes = true ∧ s.file.start turn.call.num turn.call.ofs ≤ x ∧
    x < s.file.start turn.call.num turn.call.ofs + (turn.result s).ret.toNat

theorem HookTurn.Meets.byte_kept (meets : turn.Meets s) {x : Nat} (kept : ¬turn.Stores s x) :
    (turn.next s).file.bytes x = s.file.bytes x := by
  obtain ⟨state, _⟩ := meets.next
  rw [state]
  cases writes : turn.call.num.writes with
  | false => exact congrFun (OpenFile.transferred_bytes _ _ _ _ _ writes) x
  | true =>
    simp only [FileState.plain, OpenFile.transferred, writes, if_true]
    refine overlay_outside _ _ ?_
    by_contra inside
    exact kept ⟨writes, by omega, by omega⟩

theorem bytes_kept {s₁ s₂ : HookState} {trace : List (Entry HookState HookTurn Int)} {x : Nat}
    (run : hookMachine.Run s₁ trace s₂) (meets : ∀ e ∈ trace, e.label.Meets e.before)
    (kept : ∀ e ∈ trace, ¬e.label.Stores e.before x) : s₂.file.bytes x = s₁.file.bytes x := by
  induction run with
  | nil => rfl
  | @snoc trace before turn out after ran stepped ih =>
    have earlier := ih (fun e member => meets e (List.mem_append_left _ member))
      (fun e member => kept e (List.mem_append_left _ member))
    have last := List.mem_append_right trace (List.mem_singleton_self ⟨before, turn, out, after⟩)
    obtain ⟨rfl, rfl⟩ := Prod.mk.inj (Option.some.inj stepped)
    rw [(meets _ last).byte_kept (kept _ last), earlier]

theorem written_read_back (s s₁ : HookState) (w r : HookTurn)
    (between : List (Entry HookState HookTurn Int)) (p q : Nat) (written : w.Meets s)
    (run : hookMachine.Run (w.next s) between s₁) (meets : ∀ e ∈ between, e.label.Meets e.before)
    (read : r.Meets s₁) (stores : w.call.num.writes = true) (loads : r.call.num.writes = false)
    (kept : ∀ e ∈ between,
      ¬e.label.Stores e.before (s.file.start w.call.num w.call.ofs + q))
    (wrote : (q : Int) < (w.result s).ret) (got : (p : Int) < (r.result s₁).ret)
    (there : s₁.file.start r.call.num r.call.ofs + p = s.file.start w.call.num w.call.ofs + q)
    (alone : ∀ k, p < k → (k : Int) < (r.result s₁).ret → r.call.addr k ≠ r.call.addr p) :
    (r.next s₁).user (r.call.addr p) = s.user (w.call.addr q) := by
  obtain ⟨readState, _⟩ := read.next
  obtain ⟨writeState, _⟩ := written.next
  have insideRead : p < (r.result s₁).ret.toNat := by omega
  have insideWrite : q < (w.result s).ret.toNat := by omega
  have loaded : (r.next s₁).user (r.call.addr p) =
      s₁.file.bytes (s₁.file.start r.call.num r.call.ofs + p) := by
    rw [readState]
    simp only [FileState.plain, loads, Bool.false_eq_true, if_false]
    exact scatter_at insideRead (fun k after before => alone k after (by omega))
  have stored : (w.next s).file.bytes (s.file.start w.call.num w.call.ofs + q) =
      s.user (w.call.addr q) := by
    rw [writeState]
    simp only [FileState.plain, OpenFile.transferred, stores, if_true]
    exact overlay_inside _ _ _ insideWrite
  rw [loaded, there, bytes_kept run meets kept, stored]

/-- A write at the offset of the descriptor, which is 0. -/
def otherWrite : HookTurn := { someWrite with call := .write 4096 5 }

theorem written_read_back_segments :
    (someRead.next (otherWrite.next (someWrite.next ninesFile))).user 12288 =
      ninesFile.user 4098 := by
  have otherMeets : otherWrite.Meets (someWrite.next ninesFile) := by
    refine ⟨by decide, by decide, by decide, World.blank_fresh, fun _ => rfl, fun _ => rfl,
      by decide, Monitor.safe_of_safeFrom _ _ ?_⟩
    decide +kernel
  have readMeets : someRead.Meets (otherWrite.next (someWrite.next ninesFile)) := by
    refine ⟨by decide, by decide, by decide, World.blank_fresh, fun _ => rfl, fun _ => rfl,
      by decide, Monitor.safe_of_safeFrom _ _ ?_⟩
    decide +kernel
  have run : hookMachine.Run (someWrite.next ninesFile)
      ([] ++ [⟨someWrite.next ninesFile, otherWrite, _, _⟩]) _ := Machine.Run.nil.snoc rfl
  have got : (someRead.result (otherWrite.next (someWrite.next ninesFile))).ret = 5 := by
    decide +kernel
  refine written_read_back ninesFile _ someWrite someRead _ 2 2 someWrite_meets run ?_ readMeets rfl
    rfl ?_ (by decide +kernel) (by decide +kernel) (by decide +kernel) ?_
  · intro e member
    rw [List.mem_singleton.mp member]
    exact otherMeets
  · intro e member
    rw [List.mem_singleton.mp member]
    rintro ⟨_, _, below⟩
    exact absurd below (by decide +kernel)
  · intro k after before
    rw [got] at before
    obtain rfl | rfl : k = 3 ∨ k = 4 := by omega
    · decide
    · decide

end Libsysve.AccIo
