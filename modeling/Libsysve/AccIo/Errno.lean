import Libsysve.AccIo.SecondMark
import Libsysve.AccIo.CountRange
import Libsysve.AccIo.DmaOutcome

/-!
# errno after an accelerated call

A call that fails leaves the errno of its first chunk system call, or EIO after a failed
DMA.  A call that returns a count should leave errno as it was.  A chunk behind the first that
fails sets it to 0; else it is what `ve_accelerated_io_pre` has left, which restores errno only
where it fails itself.

This holds for every count and every total that a `ssize_t` holds; the chunk index is an
`int`, and a call has a result when the index does not overflow.
-/

set_option autoImplicit false

namespace Libsysve.AccIo

open Libsysve.ForLoop

def SysOutcome.failed : SysOutcome → Bool
  | .fail _ => true
  | .ok _ _ => false

theorem SysOutcome.ret_of_failed {o : SysOutcome} (failed : o.failed = true) (size : Int) :
    o.ret size = -1 := by
  cases o with
  | fail e => rfl
  | ok n data => exact absurd failed (by simp [SysOutcome.failed])

theorem SysOutcome.failed_of_ret {o : SysOutcome} {size : Int} (pos : 0 ≤ size)
    (minus : o.ret size = -1) : ∃ e, o = .fail e := by
  cases o with
  | fail e => exact ⟨e, rfl⟩
  | ok n data =>
    have value : min (n : Int) size = -1 := minus
    omega

/-- A system call that fails sets errno. -/
def SetsErrno (env : Env) : Prop := ∀ k e, env.sys k = .fail e → e ≠ 0

/-- Chunk `k` of `num`, not the first, fails after chunks that came in full, and of the
requests and the waits that are made until the call returns, `dmas` of each, none fails. -/
structure HiddenAt (env : Env) (num dmas k : Nat) : Prop where
  later : 1 ≤ k
  inside : k < num
  failed : (env.sys k).failed = true
  full : ∀ j, j < k → (env.sys j).ret parasSize = parasSize
  posts : ∀ j, j < dmas → env.postOk j = true
  waits : ∀ j, j < dmas → env.waitCode j = 0

/-- Chunk `j` of a read gets a DMA, if none fails before: the chunks before it come in full, and
its own call returns data. -/
def ReadMade (env : Env) (total j : Nat) : Prop :=
  (∀ k, k < j → (env.sys k).ret (chunkSize total k) = chunkSize total k) ∧
    0 < (env.sys j).ret (chunkSize total j)

/-- The same of a write, whose chunk system calls come two rounds later. -/
def WriteMade (env : Env) (total j : Nat) : Prop :=
  ∀ k, k + 2 ≤ j → (env.sys k).ret (chunkSize total k) = chunkSize total k

/-- The first chunk system call fails, or the request or the wait of a chunk that gets one. -/
def Fails (env : Env) (num : Nat) (made : Nat → Prop) : Prop :=
  0 < num ∧ (env.sys 0).failed = true ∨
    ∃ j, j < num ∧ made j ∧ (env.postOk j = false ∨ 1 ≤ env.waitCode j)

/-- What a `ve_accelerated_io_pre` that succeeds leaves.  In the first call of a thread `strtol`
and `malloc` may have set errno. -/
structure PreSuccess where
  info : AccIoInfo
  errno : Int

/-- errno tells the truth about a call that found `errno` at its entry, before
`ve_accelerated_io_pre`. -/
structure ErrnoTrue (env : Env) (errno : Int) (r : IoResult) : Prop where
  failure : r.ret = -1 → r.world.errno ≠ 0 ∧
    (dmaFailed r.world.log = true ∧ r.world.errno = eio ∨
      FirstCallFailed r.world.log ∧ env.sys 0 = .fail r.world.errno)
  success : 0 ≤ r.ret → r.world.errno = errno

namespace AccCall

/-- A `size_t` count, or lengths whose sum a `ssize_t` holds, as readv(2) asks for. -/
def Fits : AccCall → Prop
  | .readPread _ count => count < 2 ^ 64
  | .readvPreadv iov => iovTotal iov < 2 ^ 63
  | .writePwrite _ count => count < 2 ^ 64
  | .writevPwritev iov => iovTotal iov < 2 ^ 63

/-- `run`, without a result when the chunk index overflows. -/
def runInt (env : Env) (io : AccIoInfo) (num : SyscallNum) (fd : Int) (ofs : Int) (w : World) :
    AccCall → Option IoResult
  | .readPread buf count =>
    (readChunks env (bufferCall num fd count) (.start w io buf ofs)).map IoState.finish
  | .readvPreadv iov =>
    (readChunks env (iovCall (readSyscallType num) fd iov) (.start w io ⟨0, 0⟩ ofs)).map
      IoState.finish
  | .writePwrite buf count =>
    (writeChunks env (bufferCall num fd count) (.start w io buf ofs)).map IoState.finish
  | .writevPwritev iov =>
    (writeChunks env (iovCall (writeSyscallType num) fd iov) (.start w io ⟨0, 0⟩ ofs)).map
      IoState.finish

theorem runInt_eq (env : Env) (io : AccIoInfo) (num : SyscallNum) (fd ofs : Int) (w : World)
    {c : AccCall} (valid : c.Valid) (small : c.chunks ≤ intMax) :
    c.runInt env io num fd ofs w = some (c.run env io num fd ofs w) := by
  cases c with
  | readPread buf count =>
    obtain ⟨nonnull, pos⟩ := valid
    rw [run, veAcceleratedIoReadPread_success env io num fd ofs w pos nonnull, runInt,
      readChunks_eq small]
    rfl
  | readvPreadv iov =>
    rw [run, veAcceleratedIoReadvPreadv_success env io num fd ofs w valid, runInt,
      readChunks_eq small]
    rfl
  | writePwrite buf count =>
    obtain ⟨nonnull, pos⟩ := valid
    rw [run, veAcceleratedIoWritePwrite_success env io num fd ofs w pos nonnull, runInt,
      writeChunks_eq small]
    rfl
  | writevPwritev iov =>
    rw [run, veAcceleratedIoWritevPwritev_success env io num fd ofs w valid, runInt,
      writeChunks_eq small]
    rfl

/-- A call from its entry, where `ve_accelerated_io_pre` succeeds. -/
def enterInt (env : Env) (pre : PreSuccess) (num : SyscallNum) (fd : Int) (ofs : Int) (w : World)
    (c : AccCall) : Option IoResult :=
  c.runInt env pre.info num fd ofs { w with errno := pre.errno }

/-- The requests and waits made by a call whose chunk `k` fails: a write is two chunks
ahead of its chunk system calls. -/
def dmasUntil (c : AccCall) (k : Nat) : Nat := if c.isRead then k else min (k + 2) c.chunks

/-- A failure of a chunk system call that the value returned does not show. -/
def HiddenFailure (env : Env) (c : AccCall) : Prop :=
  ∃ k, HiddenAt env c.chunks (c.dmasUntil k) k

/-- The call returns -1: this says so without running it. -/
def Fails (env : Env) (c : AccCall) : Prop :=
  AccIo.Fails env c.chunks
    (if c.isRead then ReadMade env c.total else WriteMade env c.total)

end AccCall

/-! ## The sizes of the chunks -/

/-- As far as an `int` counts, chunk `i` has the size `chunkSize total i`. -/
structure SizedUpTo {Cursor : Type} (call : IoCall Cursor) (total : Nat) : Prop where
  last : ∀ i, i ≤ intMax → i + 1 = call.chunkNum →
    int64 (call.total - parasSize * i) = chunkSize total i
  full : ∀ i, i ≤ intMax → i + 1 < call.chunkNum → chunkSize total i = parasSize
  pos : ∀ i, i ≤ intMax → i < call.chunkNum → 0 < chunkSize total i
  fits : ∀ i, i ≤ intMax → i < call.chunkNum → parasSize * i + chunkSize total i ≤ total

theorem sizedUpTo_of_chunkNum {Cursor : Type} {call : IoCall Cursor} {total : Nat}
    (same : call.total = total) (agree : ∀ i, i ≤ intMax → i < call.chunkNum →
      i < chunkNum total ∧ (i + 1 < call.chunkNum ↔ i + 1 < chunkNum total)) :
    SizedUpTo call total where
  last := by
    intro i inside isLast
    obtain ⟨lt, more⟩ := agree i inside (by omega)
    have size := chunkSize_last (show i + 1 = chunkNum total by omega)
    have le := chunkSize_le total i
    have pos := chunkSize_pos lt
    simp only [parasSize_eq] at *
    rw [same, int64_eq_self (by omega) (by omega)]
    omega
  full := by
    intro i inside more
    exact chunkSize_eq_parasSize ((agree i inside (by omega)).2.mp more)
  pos := fun i inside lt => chunkSize_pos (agree i inside lt).1
  fits := fun i inside lt => chunk_end_le (agree i inside lt).1

theorem bufferCall_sizedUpTo (num : SyscallNum) (fd : Int) {count : Nat} (word : count < 2 ^ 64) :
    SizedUpTo (bufferCall num fd count) count := by
  apply sizedUpTo_of_chunkNum rfl
  intro i _ lt
  have chunks : (bufferCall num fd count).chunkNum =
      (count + parasSize - 1) % 2 ^ 64 / parasSize := rfl
  rw [chunks] at lt ⊢
  simp only [chunkNum, parasSize_eq] at *
  omega

/-- A total whose rounding overflows a `ssize_t` has more chunks than an `int` counts. -/
theorem chunkNumOfTotal_large {total : Nat} (lt : total < 2 ^ 63)
    (large : 2 ^ 63 ≤ total + parasSize - 1) : 2 ^ 32 ≤ chunkNumOfTotal total := by
  simp only [chunkNumOfTotal, parasSize_eq] at *
  have wrapped : int64 ((total : Int) + (4194304 : Nat) - 1) =
      -(2 ^ 64 - (total + 4194304 - 1) : Int) := by
    rw [int64, Int.bmod_def]
    split <;> omega
  rw [wrapped, Int.neg_tdiv, Int.tdiv_eq_ediv_of_nonneg (by omega)]
  omega

theorem iovCall_sizedUpTo (num : SyscallNum) (fd : Int) {iov : List Iovec}
    (small : iovTotal iov < 2 ^ 63) : SizedUpTo (iovCall num fd iov) (iovTotal iov) := by
  have total : (iovCall num fd iov).total = iovTotal iov := totalSize_exact small
  have chunks : (iovCall num fd iov).chunkNum = chunkNumOfTotal (iovTotal iov) := by
    rw [← totalSize_exact small]
    rfl
  apply sizedUpTo_of_chunkNum total
  intro i inside lt
  rw [chunks] at lt ⊢
  rcases Nat.lt_or_ge (iovTotal iov + parasSize - 1) (2 ^ 63) with exact | large
  · rw [chunkNumOfTotal_exact exact] at lt ⊢
    exact ⟨lt, Iff.rfl⟩
  · have many := chunkNumOfTotal_large small large
    simp only [chunkNum, parasSize_eq, intMax] at *
    omega

/-! ## How a transfer ends -/

section
variable {Cursor : Type} {env : Env} {errno : Int} {hidden fails : Prop} {s : IoState Cursor}

/-- Nothing to report: the call returns a count and leaves `errno`. -/
structure Quiet (errno : Int) (s : IoState Cursor) : Prop where
  errno : s.world.errno = errno
  bak : s.errnoBak = 0
  exit : 0 ≤ s.exitResult

structure FirstError (env : Env) (s : IoState Cursor) : Prop where
  call : env.sys 0 = .fail s.errnoBak
  head : FirstCallFailed s.world.log
  exit : s.exitResult = -1

/-- The four ends of a transfer; `hidden` says that a chunk behind the first has failed and
no DMA has. -/
inductive ErrnoEnd (env : Env) (errno : Int) (hidden fails : Prop) (s : IoState Cursor) :
    Prop where
  | quiet (quiet : Quiet errno s) (visible : ¬hidden) (fine : ¬fails)
  | first (first : FirstError env s) (visible : ¬hidden) (lost : fails)
  | dma (dma : s.Abandoned) (visible : ¬hidden) (lost : fails)
  | cleared (quiet : Quiet 0 s) (isHidden : hidden)

theorem finish_errno_of_bak (none : s.errnoBak = 0) :
    s.finish.world.errno = s.world.errno := by
  unfold IoState.finish
  rw [if_neg (by rw [none]; decide)]

theorem finish_errno_of_error (some : s.errnoBak ≠ 0) : s.finish.world.errno = s.errnoBak := by
  unfold IoState.finish
  rw [if_pos some]

theorem Quiet.errnoTrue_iff (quiet : Quiet errno s) (before : Int) :
    ErrnoTrue env before s.finish ↔ errno = before := by
  have left : s.finish.world.errno = errno := (finish_errno_of_bak quiet.bak).trans quiet.errno
  have exit := quiet.exit
  constructor
  · intro holds
    rw [← left]
    exact holds.success exit
  · intro same
    refine ⟨fun minus => ?_, fun _ => left.trans same⟩
    rw [finish_ret] at minus
    omega

theorem FirstError.errnoTrue (first : FirstError env s) (sets : SetsErrno env) (before : Int) :
    ErrnoTrue env before s.finish := by
  have nonzero : s.errnoBak ≠ 0 := sets 0 _ first.call
  have left := finish_errno_of_error nonzero
  have exit := first.exit
  refine ⟨fun _ => ⟨by rwa [left], .inr ⟨?_, ?_⟩⟩, fun nonneg => ?_⟩
  · rw [finish_log]
    exact first.head
  · rw [left]
    exact first.call
  · rw [finish_ret] at nonneg
    omega

theorem IoState.Abandoned.errnoTrue (dma : s.Abandoned) (before : Int) :
    ErrnoTrue env before s.finish := by
  have nonzero : s.errnoBak ≠ 0 := by
    rw [dma.errno]
    decide
  have left := finish_errno_of_error nonzero
  have exit := dma.exit
  refine ⟨fun _ => ⟨by rwa [left], .inl ⟨?_, left.trans dma.errno⟩⟩, fun nonneg => ?_⟩
  · rw [finish_log]
    exact dma.failed
  · rw [finish_ret] at nonneg
    omega

theorem ErrnoEnd.errnoTrue_iff (ends : ErrnoEnd env errno hidden fails s) (sets : SetsErrno env)
    (before : Int) :
    ErrnoTrue env before s.finish ↔
      (hidden → before = 0) ∧ (¬hidden → errno = before ∨ fails) := by
  cases ends with
  | quiet quiet visible fine =>
    rw [quiet.errnoTrue_iff]
    constructor
    · exact fun same => ⟨fun isHidden => absurd isHidden visible, fun _ => .inl same⟩
    · rintro ⟨_, kept⟩
      exact (kept visible).resolve_right fine
  | first first visible lost =>
    exact iff_of_true (first.errnoTrue sets before)
      ⟨fun isHidden => absurd isHidden visible, fun _ => .inr lost⟩
  | dma dma visible lost =>
    exact iff_of_true (dma.errnoTrue before)
      ⟨fun isHidden => absurd isHidden visible, fun _ => .inr lost⟩
  | cleared quiet isHidden =>
    rw [quiet.errnoTrue_iff]
    constructor
    · exact fun zero => ⟨fun _ => zero.symm, fun visible => absurd isHidden visible⟩
    · rintro ⟨zero, _⟩
      exact (zero isHidden).symm

end

theorem abandoned_of_wait {Cursor : Type} {env : Env} {s : IoState Cursor} (j : Half)
    (bad : 1 ≤ env.waitCode s.world.waitCount) : (s.wait env j).2.dmaError.Abandoned := by
  refine ⟨?_, rfl, rfl, rfl⟩
  show dmaFailed (s.world.veDmaWait env j).2.log = true
  rw [dmaFailed_wait, decide_eq_true bad, Bool.or_true]

/-! ## When a failure is not hidden -/

section
variable {env : Env} {num i : Nat} {dmas : Nat → Nat}

theorem visible_of (fine : ∀ k, k < i → k < num → (env.sys k).failed = false)
    (stop : ∀ k, i ≤ k → ¬HiddenAt env num (dmas k) k) :
    ¬∃ k, HiddenAt env num (dmas k) k := by
  rintro ⟨k, hidden⟩
  rcases Nat.lt_or_ge k i with before | behind
  · have failed := hidden.failed
    rw [fine k before hidden.inside] at failed
    exact absurd failed (by decide)
  · exact stop k behind hidden

theorem visible_of_first {e : Int} (failed : env.sys 0 = .fail e) :
    ¬∃ k, HiddenAt env num (dmas k) k := by
  rintro ⟨k, hidden⟩
  have full := hidden.full 0 hidden.later
  rw [failed] at full
  simp only [SysOutcome.ret, parasSize_eq] at full
  omega

end

/-! ## When no failure shows -/

theorem not_fails {env : Env} {num n : Nat} {made : Nat → Prop}
    (began : 0 < num → (env.sys 0).failed = false)
    (upTo : ∀ j, j < num → made j → j < n) (posts : ∀ k, k < n → env.postOk k = true)
    (waits : ∀ k, k < n → env.waitCode k = 0) : ¬Fails env num made := by
  rintro (⟨some, failed⟩ | ⟨j, inside, isMade, refused | bad⟩)
  · rw [began some] at failed
    exact absurd failed (by decide)
  · rw [posts j (upTo j inside isMade)] at refused
    exact absurd refused (by decide)
  · have fine := waits j (upTo j inside isMade)
    omega

/-! ## Chunks in full, and the call of the next one -/

section
variable {Cursor : Type} {env : Env} {call : IoCall Cursor} {total n : Nat} {errno ret : Int}
variable {s : IoState Cursor}

theorem Quiet.of_eq {s' : IoState Cursor} (quiet : Quiet errno s)
    (errnoEq : s'.world.errno = s.world.errno) (bak : s'.errnoBak = s.errnoBak)
    (exit : s.exitResult ≤ s'.exitResult) : Quiet errno s' :=
  ⟨errnoEq.trans quiet.errno, bak.trans quiet.bak, quiet.exit.trans exit⟩

theorem Quiet.wait (quiet : Quiet errno s) (j : Half) : Quiet errno (s.wait env j).2 :=
  quiet.of_eq (World.veDmaWait_errno ..) rfl (le_refl _)

theorem not_failed_of_full {k : Nat}
    (full : (env.sys k).ret (chunkSize total k) = chunkSize total k) :
    (env.sys k).failed = false := by
  by_contra failed
  have minus := SysOutcome.ret_of_failed (Bool.eq_true_of_not_eq_false failed)
    (chunkSize total k)
  rw [full] at minus
  omega

/-- The calls of the first `n` chunks have been issued, all in full, and nothing has gone
wrong. -/
structure InFull (env : Env) (total : Nat) (errno : Int) (n : Nat) (s : IoState Cursor) :
    Prop where
  quiet : Quiet errno s
  dataErr : s.dataErr = false
  sysCount : s.world.sysCount = n
  full : ∀ k, k < n → (env.sys k).ret (chunkSize total k) = chunkSize total k
  empty : n = 0 → chunkCalls s.world.log = []

theorem InFull.start {w : World} (fresh : w.Fresh) (io : AccIoInfo) (cursor : Cursor)
    (ofs : Int) : InFull env total w.errno 0 (IoState.start w io cursor ofs) where
  quiet := ⟨rfl, rfl, le_refl 0⟩
  dataErr := rfl
  sysCount := fresh.2.2.1
  full := by omega
  empty := fun _ => congrArg chunkCalls fresh.2.1

theorem InFull.of_eq {s' : IoState Cursor} (inFull : InFull env total errno n s)
    (quiet : Quiet errno s') (dataErr : s'.dataErr = false)
    (sysCount : s'.world.sysCount = s.world.sysCount)
    (calls : chunkCalls s'.world.log = chunkCalls s.world.log) :
    InFull env total errno n s' where
  quiet := quiet
  dataErr := dataErr
  sysCount := sysCount.trans inFull.sysCount
  full := inFull.full
  empty := by
    rw [calls]
    exact inFull.empty

theorem InFull.prepare (inFull : InFull env total errno n s) (i : Nat) :
    InFull env total errno n (s.prepare env call i) := by
  obtain ⟨io, size, frame⟩ := s.prepare_frame env call i
  rw [frame]
  exact inFull.of_eq (inFull.quiet.of_eq rfl rfl (le_refl _)) inFull.dataErr rfl rfl

theorem InFull.wait (inFull : InFull env total errno n s) (j : Half) :
    InFull env total errno n (s.wait env j).2 :=
  inFull.of_eq (inFull.quiet.wait j) inFull.dataErr (World.veDmaWait_sysCount ..)
    (chunkCalls_wait env s j)

/-- Behind the call of chunk `n`, whose answer is `ret`. -/
structure Asked (env : Env) (total : Nat) (errno : Int) (n : Nat) (ret : Int)
    (s : IoState Cursor) : Prop where
  answer : ret = (env.sys n).ret (chunkSize total n)
  left : s.world.errno = (env.sys n).errno errno
  bak : s.errnoBak = 0
  exit : 0 ≤ s.exitResult
  dataErr : s.dataErr = false
  sysCount : s.world.sysCount = n + 1
  full : ∀ k, k < n → (env.sys k).ret (chunkSize total k) = chunkSize total k
  head : n = 0 → ∃ c, (chunkCalls s.world.log).head? = some c ∧ c.ret = ret

theorem InFull.asked (inFull : InFull env total errno n s) {s' : IoState Cursor} {size : Int}
    {c : ChunkCall} (logs : IoState.Logs (.sysCall c) s s') (isSize : size = chunkSize total n)
    (isRet : c.ret = (env.sys s.world.sysCount).ret size)
    (errnoEq : s'.world.errno = (env.sys s.world.sysCount).errno s.world.errno)
    (bak : s'.errnoBak = s.errnoBak) (exit : s'.exitResult = s.exitResult)
    (dataErr : s'.dataErr = s.dataErr) (sysCount : s'.world.sysCount = s.world.sysCount + 1) :
    Asked env total errno n c.ret s' where
  answer := by rw [isRet, inFull.sysCount, isSize]
  left := by rw [errnoEq, inFull.sysCount, inFull.quiet.errno]
  bak := bak.trans inFull.quiet.bak
  exit := by
    rw [exit]
    exact inFull.quiet.exit
  dataErr := dataErr.trans inFull.dataErr
  sysCount := by rw [sysCount, inFull.sysCount]
  full := inFull.full
  head := by
    intro first
    refine ⟨c, ?_, rfl⟩
    rw [logs.log, chunkCalls_snoc, inFull.empty first]
    rfl

namespace Asked

variable (asked : Asked env total errno n ret s)
include asked

theorem fine {k : Nat} (before : k < n) : (env.sys k).failed = false :=
  not_failed_of_full (asked.full k before)

theorem fine_of_answer (ok : ret ≠ -1) {k : Nat} (upTo : k < n + 1) :
    (env.sys k).failed = false := by
  rcases Nat.lt_succ_iff_lt_or_eq.mp upTo with before | rfl
  · exact asked.fine before
  · by_contra failed
    rw [asked.answer] at ok
    exact ok (SysOutcome.ret_of_failed (Bool.eq_true_of_not_eq_false failed) _)

theorem failed (minus : ret = -1) : ∃ e, env.sys n = .fail e :=
  SysOutcome.failed_of_ret (show (0 : Int) ≤ chunkSize total n by omega)
    (asked.answer.symm.trans minus)

theorem nonneg (ok : ret ≠ -1) : 0 ≤ ret := by
  have ge := SysOutcome.ret_ge (env.sys n) (show (0 : Int) ≤ chunkSize total n by omega)
  have answer := asked.answer
  omega

theorem quiet (ok : ret ≠ -1) : Quiet errno s := by
  refine ⟨?_, asked.bak, asked.exit⟩
  rw [asked.left]
  rw [asked.answer] at ok
  cases outcome : env.sys n with
  | fail e =>
    rw [outcome] at ok
    exact absurd rfl ok
  | ok m data => rfl

theorem accept (ok : ret ≠ -1) : Quiet errno (s.accept ret) := by
  have nonneg := asked.nonneg ok
  refine (asked.quiet ok).of_eq rfl rfl ?_
  show s.exitResult ≤ s.exitResult + ret
  omega

theorem firstError (first : n = 0) (minus : ret = -1) :
    FirstError env (s.firstError true).clearErrno := by
  subst first
  obtain ⟨e, failed⟩ := asked.failed minus
  refine ⟨?_, ?_, rfl⟩
  · show env.sys 0 = .fail s.world.errno
    rw [asked.left, failed]
    rfl
  · obtain ⟨c, head, same⟩ := asked.head rfl
    exact ⟨c, head, same.trans minus⟩

theorem cleared : Quiet 0 s.clearErrno := ⟨rfl, asked.bak, asked.exit⟩

theorem next {s' : IoState Cursor} (full : (chunkSize total n : Int) ≤ ret)
    (quiet : Quiet errno s') (dataErr : s'.dataErr = s.dataErr)
    (sysCount : s'.world.sysCount = s.world.sysCount) :
    InFull env total errno (n + 1) s' where
  quiet := quiet
  dataErr := dataErr.trans asked.dataErr
  sysCount := sysCount.trans asked.sysCount
  full := by
    intro k upTo
    rcases Nat.lt_succ_iff_lt_or_eq.mp upTo with before | rfl
    · exact asked.full k before
    · have le := SysOutcome.ret_le (env.sys k) (show (0 : Int) ≤ chunkSize total k by omega)
      rw [asked.answer] at full
      omega
  empty := by omega

/-- A chunk that came in short ends the transfer, and no later one can fail. -/
theorem visible_of_short (sized : SizedUpTo call total) (inside : n ≤ intMax) (ok : ret ≠ -1)
    (short : ret < chunkSize total n) {dmas : Nat → Nat} :
    ¬∃ k, HiddenAt env call.chunkNum (dmas k) k := by
  apply visible_of (i := n + 1)
  · intro k upTo _
    exact asked.fine_of_answer ok upTo
  · intro k behind hidden
    have size := sized.full n inside (lt_of_le_of_lt behind hidden.inside)
    have full := hidden.full n behind
    rw [asked.answer, size, full] at short
    omega

end Asked

theorem hides_iff (dmas : Nat → Nat) (sized : SizedUpTo call total) (inside : n ≤ intMax)
    (later : 1 ≤ n)
    (more : n < call.chunkNum) {e : Int} (failed : env.sys n = .fail e)
    (full : ∀ k, k < n → (env.sys k).ret (chunkSize total k) = chunkSize total k)
    (mono : ∀ k, n ≤ k → k < call.chunkNum → dmas n ≤ dmas k)
    (posts : ∀ k, k < dmas n → env.postOk k = true) {last : Nat} (isLast : last + 1 = dmas n)
    (waits : ∀ k, k < last → env.waitCode k = 0) :
    env.waitCode last = 0 ↔ ∃ k, HiddenAt env call.chunkNum (dmas k) k := by
  constructor
  · intro code
    refine ⟨n, later, more, ?_, ?_, posts, ?_⟩
    · rw [failed]
      rfl
    · intro k before
      have whole := full k before
      rwa [sized.full k (by omega) (by omega)] at whole
    · intro k before
      rcases Nat.lt_or_ge k last with older | here
      · exact waits k older
      · have same : k = last := by omega
        rw [same]
        exact code
  · rintro ⟨k, hidden⟩
    have before : n ≤ k := by
      by_contra behind
      have fine := not_failed_of_full (full k (by omega))
      rw [hidden.failed] at fine
      exact absurd fine (by decide)
    have le := mono k before hidden.inside
    exact hidden.waits last (by omega)

theorem prepare_size {i : Nat} (sized : SizedUpTo call total) (inside : i ≤ intMax)
    (lt : i < call.chunkNum) (size : s.transferSize = parasSize) :
    (s.prepare env call i).transferSize = chunkSize total i := by
  have marked : (if i = 1 then { s with io := s.io.markSecond env } else s).transferSize =
      parasSize := by
    split <;> exact size
  simp only [IoState.prepare]
  by_cases last : i = call.chunkNum - 1
  · rw [if_pos last, marked]
    exact sized.last i inside (by omega)
  · rw [if_neg last, marked, sized.full i inside (by omega)]

end

end Libsysve.AccIo
