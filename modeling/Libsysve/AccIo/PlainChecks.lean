import Libsysve.AccIo.AccCall

/-!
# What the plain vector calls reject

A plain readv or writev checks the descriptor, the count and the lengths before it moves
data.  The accelerated functions do not: they add up the lengths in 64 bits and start with
the first chunk.  When that answers a rejected call as the plain call does is decided by the
first chunk alone.
-/

set_option autoImplicit false

namespace Libsysve.AccIo

open Libsysve.ByteMemory Libsysve.ForLoop

def ebadf : Int := 9

def einval : Int := 22

def ssizeMax : Nat := 2 ^ 63 - 1

def segmentsOf (iov : List Iovec) (count : Int) : List Iovec := iov.take count.toNat

/-- The errors that a plain vector call has for its arguments; `fdOk` is whether the
descriptor is open for the transfer, `iovMax` the kernel's IOV_MAX. -/
inductive PlainError (fdOk : Bool) (iovMax : Nat) (iov : List Iovec) (count : Int) :
    Int → Prop where
  | descriptor (bad : fdOk = false) : PlainError fdOk iovMax iov count ebadf
  | negative (lt : count < 0) : PlainError fdOk iovMax iov count einval
  | tooMany (lt : iovMax < count) : PlainError fdOk iovMax iov count einval
  | length (v : Iovec) (member : v ∈ segmentsOf iov count) (long : ssizeMax < v.iovLen) :
    PlainError fdOk iovMax iov count einval
  | sum (long : ssizeMax < iovTotal (segmentsOf iov count)) :
    PlainError fdOk iovMax iov count einval

def PlainRejected (fdOk : Bool) (iovMax : Nat) (iov : List Iovec) (count : Int) : Prop :=
  ∃ e, PlainError fdOk iovMax iov count e

/-- A DMA is posted, or a chunk system call moves data. -/
def IoEvent.Transfers : IoEvent → Prop
  | .dmaPost _ _ _ _ _ _ => True
  | .sysCall c => 0 < c.ret
  | _ => False

def Transferred (log : List IoEvent) : Prop := ∃ e, e ∈ log ∧ e.Transfers

/-- The function delegates to the plain call, or answers with one of its errors and does not
start a transfer. -/
def AnswersLike (error : Int → Prop) (plain r : IoResult) : Prop :=
  r = plain ∨ (r.ret = -1 ∧ error r.world.errno ∧ ¬Transferred r.world.log)

/-! ## The number of chunks -/

theorem int64_range (x : Int) : -2 ^ 63 ≤ int64 x ∧ int64 x < 2 ^ 63 := by
  have low := Int.le_bmod (x := x) (m := 2 ^ 64) (by decide)
  have high := Int.bmod_lt (x := x) (m := 2 ^ 64) (by decide)
  unfold int64
  omega

theorem totalSize_foldl_int64 (iov : List Iovec) : ∀ start : Int,
    iov.foldl (fun total v => int64 (total + v.iovLen)) (int64 start) =
      int64 (start + iovTotal iov) := by
  induction iov with
  | nil => intro start; simp [iovTotal]
  | cons v rest ih =>
    intro start
    rw [List.foldl_cons, int64_add_int64, ih, iovTotal_cons, Nat.cast_add]
    congr 1
    omega

theorem totalSize_eq_int64 (iov : List Iovec) : totalSize iov = int64 (iovTotal iov) := by
  have sum := totalSize_foldl_int64 iov 0
  rwa [Int.zero_add] at sum

/-- The 64-bit sum of the lengths is rounded up to no chunk. -/
def NoChunk (segments : List Iovec) : Prop :=
  2 - 2 * (parasSize : Int) ≤ int64 (iovTotal segments) ∧ int64 (iovTotal segments) ≤ 0

theorem tdiv_parasSize (x : Int) :
    x.tdiv parasSize = if 0 ≤ x then x / parasSize else -(-x / parasSize) := by
  split
  · exact Int.tdiv_eq_ediv_of_nonneg (by assumption)
  · have flip := Int.neg_tdiv (a := -x) (b := parasSize)
    rw [Int.neg_neg, Int.tdiv_eq_ediv_of_nonneg (a := -x) (by omega)] at flip
    exact flip

theorem int64_round {total : Int} (low : -2 ^ 63 ≤ total) (high : total < 2 ^ 63) :
    int64 (total + parasSize - 1) = if total + parasSize - 1 < 2 ^ 63 then total + parasSize - 1
      else total + parasSize - 1 - 2 ^ 64 := by
  rw [parasSize_eq]
  split
  · exact int64_eq_self (by omega) (by omega)
  · simp only [int64, Int.bmod_def]
    push_cast
    split <;> omega

theorem noChunk_iff (segments : List Iovec) :
    NoChunk segments ↔ chunkNumOfTotal (totalSize segments) = 0 := by
  obtain ⟨low, high⟩ := int64_range (iovTotal segments)
  rw [NoChunk, totalSize_eq_int64, chunkNumOfTotal, tdiv_parasSize, int64_round low high,
    parasSize_eq]
  push_cast
  split <;> split <;> omega

theorem totalSize_of_one {segments : List Iovec} (one : chunkNumOfTotal (totalSize segments) = 1) :
    1 ≤ totalSize segments := by
  obtain ⟨low, high⟩ := int64_range (iovTotal segments)
  rw [totalSize_eq_int64] at one ⊢
  rw [chunkNumOfTotal, tdiv_parasSize, int64_round low high, parasSize_eq] at one
  push_cast at one
  split at one <;> split at one <;> omega

/-! ## A transfer that is started stays in the log -/

theorem Transferred.snoc {log : List IoEvent} (h : Transferred log) (e : IoEvent) :
    Transferred (log ++ [e]) := by
  obtain ⟨e', member, transfers⟩ := h
  exact ⟨e', List.mem_append_left _ member, transfers⟩

theorem transferred_post (log : List IoEvent) (j : Half) (dst src : Nat) (data size : Int)
    (ok : Bool) : Transferred (log ++ [.dmaPost j dst src data size ok]) :=
  ⟨_, List.mem_append_right _ (List.mem_singleton_self _), trivial⟩

section
variable {Cursor : Type}

def IoState.Started (s : IoState Cursor) : Prop := Transferred s.world.log

variable (env : Env) (call : IoCall Cursor) (i : Nat) {s : IoState Cursor}

theorem IoState.Started.prepare (h : s.Started) : (s.prepare env call i).Started := by
  rw [Started, prepare_world]
  exact h

theorem IoState.post_started (dir : DmaDir) (j : Half) (data : Int) (s : IoState Cursor) :
    (s.post env dir j data).2.Started := transferred_post _ _ _ _ _ _ _

theorem IoState.Started.wait (j : Half) (h : s.Started) : (s.wait env j).2.Started := by
  show Transferred (s.world.veDmaWait env j).2.log
  rw [World.veDmaWait_log]
  exact h.snoc _

theorem IoState.Started.firstError {first : Bool} (h : s.Started) :
    (s.firstError first).Started := by
  cases first <;> exact h

theorem IoState.Started.deliver (plan : CopyPlan Cursor) (j : Half) (h : s.Started) :
    (s.deliver plan j).Started := h.snoc _

/-! ### Reads -/

theorem readIssue_posts (answer : 0 < (env.sys s.world.sysCount).ret s.transferSize) :
    (readIssue env call i s).Sat IoState.Started IoState.Started := by
  have size : (s.readSysCall env call (half i)).halfSize (half i) =
      (env.sys s.world.sysCount).ret s.transferSize := Function.update_self _ _ _
  have posted := IoState.post_started env .vhToVe (half i)
    ((s.readSysCall env call (half i)).halfSize (half i)) (s.readSysCall env call (half i))
  apply readIssue_rule rfl rfl
  · intro minus
    omega
  · intro zero
    omega
  · intro _ _ _
    exact posted
  · intro _ _ _ _
    exact posted
  · intro _ _ _
    exact posted

theorem IoState.Started.readIssue (h : s.Started) :
    (readIssue env call i s).Sat IoState.Started IoState.Started := by
  have asked : (s.readSysCall env call (half i)).Started := h.snoc _
  have posted := IoState.post_started env .vhToVe (half i)
    ((s.readSysCall env call (half i)).halfSize (half i)) (s.readSysCall env call (half i))
  apply readIssue_rule rfl rfl
  · intro _
    exact asked.firstError
  · intro _
    exact asked
  · intro _ _ _
    exact posted
  · intro _ _ _ _
    exact posted
  · intro _ _ _
    exact posted

theorem IoState.Started.readBody (h : s.Started) :
    (readBody env call i s).Sat IoState.Started IoState.Started := by
  have waited := (h.prepare env call i).wait env (half i)
  apply readBody_rule rfl rfl
  · intro _
    exact (h.prepare env call i).readIssue env call i
  · intro _ _
    exact waited
  · intro _ _
    exact (waited.deliver call.plan (half i)).readIssue env call i

theorem IoState.Started.readDrainStep (index : Half) (h : s.Started) :
    (readDrainStep env call index s).Started := by
  apply readDrainStep_rule
  · intro _
    exact h
  · intro k _ _
    exact h.wait env (half k)
  · intro k _ _ _
    exact h.wait env (half k)
  · intro k _ _ _
    exact (h.wait env (half k)).deliver call.plan (half k)

theorem IoState.Started.readDrain (h : s.Started) : (readDrain env call s).Started :=
  (h.readDrainStep env call _).readDrainStep env call _

/-! ### Writes -/

theorem writeIssue_posts :
    (writeIssue env call i s).Sat IoState.Started IoState.Started := by
  have posted :=
    IoState.post_started env .veToVh (half i) (s.fill call.plan (half i)).2.transferSize
    (s.fill call.plan (half i)).2
  apply writeIssue_rule rfl rfl
  · intro _
    exact posted
  · intro _
    exact posted

theorem IoState.Started.writeFlush (h : s.Started) :
    (writeFlush env call i s).Sat IoState.Started IoState.Started := by
  have asked : (s.writeSysCall env call (half i) parasSize).2.Started := h.snoc _
  apply writeFlush_rule rfl rfl
  · intro _
    exact asked.firstError
  · intro _
    exact asked
  · intro _ _
    exact asked
  · intro _ _
    exact writeIssue_posts env call i

theorem IoState.Started.writeBody (h : s.Started) :
    (writeBody env call i s).Sat IoState.Started IoState.Started := by
  have waited := (h.prepare env call i).wait env (half i)
  apply writeBody_rule rfl rfl
  · intro _
    exact writeIssue_posts env call i
  · intro _ _
    exact waited
  · intro _ _
    exact waited.writeFlush env call i

theorem IoState.Started.writeDrainStep (index : Half) (h : s.Started) :
    (writeDrainStep env call index s).Started := by
  apply writeDrainStep_rule
  · intro _
    exact h
  · intro k _ _
    exact h.wait env (half k)
  · intro k _ _ _
    exact h.wait env (half k)
  · intro k _ _ _
    have asked : ((s.wait env (half k)).2.writeSysCall env call (half k)
        ((s.wait env (half k)).2.halfSize (half k))).2.Started := (h.wait env (half k)).snoc _
    apply writeDrainCall_rule rfl rfl rfl
    · intro _
      exact asked.firstError
    · intro _
      exact asked
    · intro _ _
      exact asked
    · intro _ _
      exact asked

theorem IoState.Started.writeDrain (h : s.Started) : (writeDrain env call s).Started :=
  (h.writeDrainStep env call _).writeDrainStep env call _

/-! ### Whole transfers -/

variable {env call i}

theorem forLoop_started {body : Nat → IoState Cursor → LoopCtl (IoState Cursor)} {n : Nat}
    (first : (body 0 s).Sat IoState.Started IoState.Started)
    (step : ∀ i s, IoState.Started s → (body i s).Sat IoState.Started IoState.Started) :
    (forLoop body (n + 1) 0 s).Started := by
  rw [forLoop]
  cases outcome : body 0 s with
  | brk s' =>
    rw [outcome] at first
    exact first
  | next s' =>
    rw [outcome] at first
    have stays : ∀ i s, i < n + 1 → s.Started →
        (body i s).Sat IoState.Started IoState.Started := fun i s _ => step i s
    exact forLoop_rule stays (fun _ h => h) n 1 s' (by omega) first

end

/-! ## The first chunk decides -/

section
variable {Cursor : Type} {env : Env} {call : IoCall Cursor} {w : World} {io : AccIoInfo}
  {cursor : Cursor} {ofs : Int}

theorem readTransfer_first {s s' : IoState Cursor} (chunks : call.chunkNum ≠ 0)
    (ends : readIssue env call 0 (s.prepare env call 0) = .brk s')
    (idle : ∀ j, s'.posted j = none) : readTransfer env call s = s' := by
  obtain ⟨n, more⟩ := Nat.exists_eq_succ_of_ne_zero chunks
  have round : readBody env call 0 s = .brk s' := by
    unfold readBody
    exact (if_neg (by decide)).trans ends
  rw [readTransfer, more, forLoop, round]
  simp only [readDrain, readDrainStep, idle]

variable (env call) in
theorem prepare_posted (s : IoState Cursor) : (s.prepare env call 0).posted = s.posted := by
  obtain ⟨io, size, frame⟩ := s.prepare_frame env call 0
  rw [frame]

/-- `if (0 != errno_bak) errno = errno_bak` after `errno = 0`. -/
theorem finish_errno {s : IoState Cursor} (cleared : s.world.errno = 0) :
    s.finish.world.errno = s.errnoBak := by
  unfold IoState.finish
  dsimp only
  split
  · rfl
  · rw [cleared]
    omega

theorem not_transferred_call {c : ChunkCall} (nothing : c.ret ≤ 0) :
    ¬Transferred [.sysCall c] := by
  rintro ⟨e, member, transfers⟩
  obtain rfl := List.mem_singleton.mp member
  exact absurd transfers (by simpa [IoEvent.Transfers] using nothing)

theorem unpost_idle {s : IoState Cursor} (idle : ∀ j, s.posted j = none) (j k : Half) :
    (s.unpost j).posted k = none := by
  by_cases same : k = j
  · rw [same, s.unpost_self]
  · rw [s.unpost_other same, idle]

def firstAsked (env : Env) (call : IoCall Cursor) (s : IoState Cursor) : IoState Cursor :=
  (s.prepare env call 0).readSysCall env call (half 0)

variable (env call) in
theorem prepare_exitResult (s : IoState Cursor) :
    (s.prepare env call 0).exitResult = s.exitResult := by
  obtain ⟨io, size, frame⟩ := s.prepare_frame env call 0
  rw [frame]

variable (env call) in
theorem firstAsked_log {s : IoState Cursor} (log : s.world.log = []) :
    ∃ c, (firstAsked env call s).world.log = [.sysCall c] ∧
      c.ret = (env.sys s.world.sysCount).ret (s.prepare env call 0).transferSize := by
  obtain ⟨c, logged, answer⟩ : ∃ c, (firstAsked env call s).world.log =
      (s.prepare env call 0).world.log ++ [.sysCall c] ∧
      c.ret = (env.sys (s.prepare env call 0).world.sysCount).ret
        (s.prepare env call 0).transferSize := ⟨_, rfl, rfl⟩
  rw [IoState.prepare_world] at logged answer
  rw [log] at logged
  exact ⟨c, logged, answer⟩

variable (env call) in
theorem firstAsked_size (s : IoState Cursor) : (firstAsked env call s).halfSize 0 =
    (env.sys s.world.sysCount).ret (s.prepare env call 0).transferSize := by
  have answer : (firstAsked env call s).halfSize 0 =
      (env.sys (s.prepare env call 0).world.sysCount).ret (s.prepare env call 0).transferSize :=
    rfl
  rwa [IoState.prepare_world] at answer

variable (io cursor ofs) in
theorem readTransfer_failed (fresh : w.Fresh) (chunks : call.chunkNum ≠ 0) {e : Int}
    (failed : env.sys 0 = .fail e) :
    (readTransfer env call (.start w io cursor ofs)).finish.ret = -1 ∧
      (readTransfer env call (.start w io cursor ofs)).finish.world.errno = e ∧
      ∃ c, (readTransfer env call (.start w io cursor ofs)).finish.world.log = [.sysCall c] ∧
        c.ret = -1 := by
  obtain ⟨_, log, sysCount, _, _⟩ := fresh
  let s : IoState Cursor := .start w io cursor ofs
  have first : env.sys s.world.sysCount = .fail e := sysCount ▸ failed
  obtain ⟨c, logged, answer⟩ := firstAsked_log env call (s := s) log
  have minus := firstAsked_size env call s
  rw [first] at answer minus
  let s' := ((((firstAsked env call s).firstError true).clearErrno).unpost 0)
  have ends : readIssue env call 0 (s.prepare env call 0) = .brk s' := if_pos minus
  have idle : ∀ j, s'.posted j = none :=
    unpost_idle (fun j => congrFun (prepare_posted env call s) j) 0
  rw [readTransfer_first chunks ends idle, finish_errno rfl, finish_log]
  refine ⟨rfl, ?_, ?_⟩
  · show (env.sys (s.prepare env call 0).world.sysCount).errno _ = e
    rw [IoState.prepare_world, first]
    rfl
  · exact ⟨c, logged, answer⟩

variable (io cursor ofs) in
theorem readTransfer_endOfFile (fresh : w.Fresh) (chunks : call.chunkNum ≠ 0)
    (nothing : (env.sys 0).ret
      ((IoState.start w io cursor ofs).prepare env call 0).transferSize = 0) :
    (readTransfer env call (.start w io cursor ofs)).finish.ret = 0 ∧
      ∃ c, (readTransfer env call (.start w io cursor ofs)).finish.world.log = [.sysCall c] := by
  obtain ⟨_, log, sysCount, _, _⟩ := fresh
  let s : IoState Cursor := .start w io cursor ofs
  obtain ⟨c, logged, _⟩ := firstAsked_log env call (s := s) log
  have zero : (firstAsked env call s).halfSize 0 = 0 := by
    rw [firstAsked_size, show s.world.sysCount = 0 from sysCount]
    exact nothing
  let s' := (firstAsked env call s).unpost 0
  have ends : readIssue env call 0 (s.prepare env call 0) = .brk s' := by
    have proceeds : (firstAsked env call s).halfSize 0 ≠ -1 := by omega
    exact (if_neg proceeds).trans (if_pos zero)
  have idle : ∀ j, s'.posted j = none :=
    unpost_idle (fun j => congrFun (prepare_posted env call s) j) 0
  rw [readTransfer_first chunks ends idle, finish_ret, finish_log]
  exact ⟨prepare_exitResult env call s, c, logged⟩

variable (io cursor ofs) in
theorem readTransfer_starts (fresh : w.Fresh) (chunks : call.chunkNum ≠ 0)
    (moves : 0 < (env.sys 0).ret
      ((IoState.start w io cursor ofs).prepare env call 0).transferSize) :
    Transferred (readTransfer env call (.start w io cursor ofs)).finish.world.log := by
  obtain ⟨_, _, sysCount, _, _⟩ := fresh
  obtain ⟨n, more⟩ := Nat.exists_eq_succ_of_ne_zero chunks
  let s : IoState Cursor := .start w io cursor ofs
  have first : (readBody env call 0 s).Sat IoState.Started IoState.Started := by
    have issued := readIssue_posts env call 0 (s := s.prepare env call 0) (by
      rw [IoState.prepare_world, show s.world.sysCount = 0 from sysCount]
      exact moves)
    apply readBody_rule rfl rfl
    · intro _
      exact issued
    · intro second _
      exact absurd second (by decide)
    · intro second _
      exact absurd second (by decide)
  rw [finish_log, readTransfer, more]
  exact (forLoop_started first fun i s h => h.readBody env call i).readDrain env call

variable (io cursor ofs) in
theorem writeTransfer_starts (chunks : call.chunkNum ≠ 0) :
    Transferred (writeTransfer env call (.start w io cursor ofs)).finish.world.log := by
  obtain ⟨n, more⟩ := Nat.exists_eq_succ_of_ne_zero chunks
  let s : IoState Cursor := .start w io cursor ofs
  have first : (writeBody env call 0 s).Sat IoState.Started IoState.Started := by
    apply writeBody_rule rfl rfl
    · intro _
      exact writeIssue_posts env call 0
    · intro second _
      exact absurd second (by decide)
    · intro second _
      exact absurd second (by decide)
  rw [finish_log, writeTransfer, more]
  exact (forLoop_started first fun i s h => h.writeBody env call i).writeDrain env call

end

/-! ## The vector functions -/

theorem sysOutcome_ok {outcome : SysOutcome} {n : Nat} {data : Memory}
    (ok : outcome = .ok n data) {size : Int} (pos : 1 ≤ size) :
    outcome.ret size = 0 ∨ 0 < outcome.ret size := by
  rw [ok]
  simp only [SysOutcome.ret]
  omega

theorem prepare_first_pos (env : Env) {num : SyscallNum} {fd : Int} {segments : List Iovec}
    (w : World) (io : AccIoInfo) (ofs : Int) (chunks : (iovCall num fd segments).chunkNum ≠ 0) :
    1 ≤ ((IoState.start w io ⟨0, 0⟩ ofs).prepare env (iovCall num fd segments) 0).transferSize := by
  have size : ((IoState.start w io ⟨0, 0⟩ ofs).prepare env (iovCall num fd segments)
      0).transferSize = if 0 = (iovCall num fd segments).chunkNum - 1
        then int64 (totalSize segments - parasSize * (0 : Nat)) else parasSize := by
    unfold IoState.prepare
    dsimp only
    split <;> rfl
  rw [size]
  by_cases last : 0 = (iovCall num fd segments).chunkNum - 1
  · have one : chunkNumOfTotal (totalSize segments) = 1 := by
      change (iovCall num fd segments).chunkNum = 1
      omega
    have pos := totalSize_of_one one
    have range := int64_range (iovTotal segments)
    rw [← totalSize_eq_int64] at range
    rw [if_pos last, Nat.cast_zero, Int.mul_zero, Int.sub_zero, int64_eq_self range.1 range.2]
    exact pos
  · rw [if_neg last]
    decide

theorem readv_eq (env : Env) (io : AccIoInfo) (num : SyscallNum) (fd : Int) (iov : List Iovec)
    {count : Int} (ofs : Int) (w : World) (nonzero : count ≠ 0) :
    veAcceleratedIoReadvPreadv env (.success io) num fd (some iov) count ofs w =
      (readTransfer env (iovCall (readSyscallType num) fd (segmentsOf iov count))
        (.start w io ⟨0, 0⟩ ofs)).finish := by
  simp [veAcceleratedIoReadvPreadv, guarded, nonzero, segmentsOf]

theorem writev_eq (env : Env) (io : AccIoInfo) (num : SyscallNum) (fd : Int) (iov : List Iovec)
    {count : Int} (ofs : Int) (w : World) (nonzero : count ≠ 0) :
    veAcceleratedIoWritevPwritev env (.success io) num fd (some iov) count ofs w =
      (writeTransfer env (iovCall (writeSyscallType num) fd (segmentsOf iov count))
        (.start w io ⟨0, 0⟩ ofs)).finish := by
  simp [veAcceleratedIoWritevPwritev, guarded, nonzero, segmentsOf]

section
variable (env : Env) (io : AccIoInfo) (num : SyscallNum) (fd : Int) (iov : List Iovec)
  (count ofs : Int) (w : World) (fdOk : Bool) (iovMax : Nat)

variable {env num fd w} in
theorem not_answersLike_of_transferred {error : Int → Prop} {r : IoResult} (fresh : w.Fresh)
    (started : Transferred r.world.log) : ¬AnswersLike error (plainCall env num fd w) r := by
  rintro (rfl | ⟨_, _, none⟩)
  · obtain ⟨e, member, transfers⟩ := started
    have log : (plainCall env num fd w).world.log = [.plain num fd] := by
      rw [plainCall, fresh.2.1]
      rfl
    rw [log, List.mem_singleton] at member
    rw [member] at transfers
    exact transfers
  · exact none started

variable {env num fd w} in
theorem AnswersLike.own {error : Int → Prop} {r : IoResult}
    (answers : AnswersLike error (plainCall env num fd w) r) {log : List IoEvent}
    (logged : r.world.log = log) (other : ∀ num fd, IoEvent.plain num fd ∉ log) :
    r.ret = -1 ∧ error r.world.errno := by
  rcases answers with rfl | ⟨ret, error, _⟩
  · have member : IoEvent.plain num fd ∈ w.log ++ [.plain num fd] :=
      List.mem_append_right _ (List.mem_singleton_self _)
    exact absurd (logged ▸ member) (other num fd)
  · exact ⟨ret, error⟩

theorem readv_answersLike (fresh : w.Fresh) (nonzero : count ≠ 0) :
    AnswersLike (PlainError fdOk iovMax iov count) (plainCall env num fd w)
        (veAcceleratedIoReadvPreadv env (.success io) num fd (some iov) count ofs w) ↔
      ¬NoChunk (segmentsOf iov count) ∧
        ∃ e, env.sys 0 = .fail e ∧ PlainError fdOk iovMax iov count e := by
  rw [readv_eq env io num fd iov ofs w nonzero, noChunk_iff]
  have log : w.log = [] := fresh.2.1
  constructor
  · intro answers
    by_cases none : (iovCall (readSyscallType num) fd (segmentsOf iov count)).chunkNum = 0
    · rw [readTransfer_none env none] at answers
      obtain ⟨minus, _⟩ := answers.own ((finish_log _).trans log) (by simp)
      exact absurd minus (show (0 : Int) ≠ -1 by decide)
    · refine ⟨none, ?_⟩
      have size := prepare_first_pos env w io ofs none
      cases first : env.sys 0 with
      | fail e =>
        obtain ⟨_, errno, c, logged, _⟩ :=
          readTransfer_failed io (⟨0, 0⟩ : IovCursor) ofs fresh none first
        obtain ⟨_, error⟩ := answers.own logged (by simp)
        exact ⟨e, rfl, errno ▸ error⟩
      | ok n data =>
        exfalso
        rcases sysOutcome_ok first size with nothing | moves
        · obtain ⟨ret, c, logged⟩ :=
            readTransfer_endOfFile io (⟨0, 0⟩ : IovCursor) ofs fresh none nothing
          obtain ⟨minus, _⟩ := answers.own logged (by simp)
          exact absurd (ret.symm.trans minus) (by decide)
        · exact not_answersLike_of_transferred fresh
            (readTransfer_starts io (⟨0, 0⟩ : IovCursor) ofs fresh none moves) answers
  · rintro ⟨chunks, e, failed, error⟩
    have some : (iovCall (readSyscallType num) fd (segmentsOf iov count)).chunkNum ≠ 0 := chunks
    obtain ⟨ret, errno, c, logged, minus⟩ :=
      readTransfer_failed io (⟨0, 0⟩ : IovCursor) ofs fresh some failed
    refine .inr ⟨ret, errno ▸ error, ?_⟩
    rw [logged]
    exact not_transferred_call (by omega)

theorem writev_not_answersLike (fresh : w.Fresh) (nonzero : count ≠ 0) :
    ¬AnswersLike (PlainError fdOk iovMax iov count) (plainCall env num fd w)
        (veAcceleratedIoWritevPwritev env (.success io) num fd (some iov) count ofs w) := by
  rw [writev_eq env io num fd iov ofs w nonzero]
  have log : w.log = [] := fresh.2.1
  intro answers
  by_cases none : (iovCall (writeSyscallType num) fd (segmentsOf iov count)).chunkNum = 0
  · rw [writeTransfer_none env none] at answers
    obtain ⟨minus, _⟩ := answers.own ((finish_log _).trans log) (by simp)
    exact absurd minus (show (0 : Int) ≠ -1 by decide)
  · have started : Transferred (writeTransfer env
        (iovCall (writeSyscallType num) fd (segmentsOf iov count))
        (.start w io ⟨0, 0⟩ ofs)).finish.world.log :=
      writeTransfer_starts io (⟨0, 0⟩ : IovCursor) ofs none
    exact not_answersLike_of_transferred fresh started answers

/-- A rejected vector call is answered as the plain call answers it exactly when it is
delegated, or is a read whose first chunk system call is rejected in the same way. -/
theorem vector_rejects_iff (fresh : w.Fresh) :
    ((PlainRejected fdOk iovMax iov count → AnswersLike (PlainError fdOk iovMax iov count)
        (plainCall env num fd w)
        (veAcceleratedIoReadvPreadv env (.success io) num fd (some iov) count ofs w)) ↔
      (PlainRejected fdOk iovMax iov count → count = 0 ∨ (¬NoChunk (segmentsOf iov count) ∧
        ∃ e, env.sys 0 = .fail e ∧ PlainError fdOk iovMax iov count e))) ∧
    ((PlainRejected fdOk iovMax iov count → AnswersLike (PlainError fdOk iovMax iov count)
        (plainCall env num fd w)
        (veAcceleratedIoWritevPwritev env (.success io) num fd (some iov) count ofs w)) ↔
      (PlainRejected fdOk iovMax iov count → count = 0)) := by
  constructor
  · refine forall_congr' fun _ => ?_
    by_cases zero : count = 0
    · refine iff_of_true (.inl ?_) (.inl zero)
      simp [veAcceleratedIoReadvPreadv, guarded, zero]
    · rw [readv_answersLike env io num fd iov count ofs w fdOk iovMax fresh zero]
      exact (or_iff_right zero).symm
  · refine forall_congr' fun _ => ?_
    by_cases zero : count = 0
    · refine iff_of_true (.inl ?_) zero
      simp [veAcceleratedIoWritevPwritev, guarded, zero]
    · exact iff_of_false
        (writev_not_answersLike env io num fd iov count ofs w fdOk iovMax fresh zero) zero

end

def Env.badDescriptor : Env := { Env.steady 0 with sys := fun _ => .fail ebadf }

/-- readv and writev of one byte on a descriptor that is not open. -/
theorem vector_rejects_iff_badDescriptor :
    ((PlainRejected false 1024 [⟨4096, 1⟩] 1 →
        AnswersLike (PlainError false 1024 [⟨4096, 1⟩] 1)
          (plainCall .badDescriptor .readv 7 .blank)
          (veAcceleratedIoReadvPreadv .badDescriptor
            (.success (AccIoResources.sample.info .badDescriptor)) .readv 7
            (some [⟨4096, 1⟩]) 1 0 .blank)) ↔
      (PlainRejected false 1024 [⟨4096, 1⟩] 1 → (1 : Int) = 0 ∨
        (¬NoChunk (segmentsOf [⟨4096, 1⟩] 1) ∧
          ∃ e, Env.badDescriptor.sys 0 = .fail e ∧
            PlainError false 1024 [⟨4096, 1⟩] 1 e))) ∧
    ((PlainRejected false 1024 [⟨4096, 1⟩] 1 →
        AnswersLike (PlainError false 1024 [⟨4096, 1⟩] 1)
          (plainCall .badDescriptor .readv 7 .blank)
          (veAcceleratedIoWritevPwritev .badDescriptor
            (.success (AccIoResources.sample.info .badDescriptor)) .readv 7
            (some [⟨4096, 1⟩]) 1 0 .blank)) ↔
      (PlainRejected false 1024 [⟨4096, 1⟩] 1 → (1 : Int) = 0)) :=
  vector_rejects_iff .badDescriptor _ .readv 7 [⟨4096, 1⟩] 1 0 .blank false 1024
    World.blank_fresh

/-- readv of an empty segment on a descriptor that is not open returns 0. -/
theorem readv_misses_badDescriptor :
    ¬ ∀ env io num fd iov count ofs w fdOk iovMax, World.Fresh w →
      PlainRejected fdOk iovMax iov count →
        AnswersLike (PlainError fdOk iovMax iov count) (plainCall env num fd w)
          (veAcceleratedIoReadvPreadv env (.success io) num fd (some iov) count ofs w) := by
  intro always
  have answers := always .badDescriptor (AccIoResources.sample.info .badDescriptor) .readv 7
    [⟨4096, 0⟩] 1 0 .blank false 1024 World.blank_fresh ⟨_, .descriptor rfl⟩
  have none : ∀ num fd, IoEvent.plain num fd ∉ ([] : List IoEvent) := by simp
  obtain ⟨minus, _⟩ := answers.own (by decide) none
  exact absurd minus (by decide)

end Libsysve.AccIo
