import Libsysve.AccIo.PlainCalls
import Libsysve.AccIo.CopyPlans

/-!
# What the read and the write pipeline share

`CallLog` says that the log has the first `n` chunk system calls and that the half-buffers
were used as `dmaMonitor` allows.  The rest is about the two halves, which of them the drain
loop takes first, and the head of the loop body.
-/

set_option autoImplicit false

namespace Libsysve.AccIo

/-- `n` chunk system calls so far, `chunkCall k` being the `k`-th. -/
structure CallLog (env : Env) (total : Nat) (chunkCall : Nat → ChunkCall) (n : Nat)
    (w : World) : Prop where
  le : n ≤ chunkNum total
  sysCount : w.sysCount = n
  calls : chunkCalls w.log = (List.range n).map chunkCall
  full : ∀ k, k + 1 < n → got env total k = chunkSize total k
  safe : dmaMonitor.Safe w.log

namespace CallLog

variable {env : Env} {total : Nat} {chunkCall : Nat → ChunkCall} {n : Nat} {w w' : World}

theorem start (fresh : w.Fresh) : CallLog env total chunkCall 0 w := by
  obtain ⟨_, log, sysCount, _, _⟩ := fresh
  refine ⟨Nat.zero_le _, sysCount, ?_, by omega, ?_⟩
  · rw [log, chunkCalls_nil, List.range_zero, List.map_nil]
  · rw [log]
    exact dmaMonitor.safe_nil

theorem of_eq (h : CallLog env total chunkCall n w) (log : w'.log = w.log)
    (sysCount : w'.sysCount = w.sysCount) : CallLog env total chunkCall n w' where
  le := h.le
  sysCount := sysCount.trans h.sysCount
  calls := by rw [log]; exact h.calls
  full := h.full
  safe := by rw [log]; exact h.safe

theorem event (h : CallLog env total chunkCall n w) {e : IoEvent} (log : w'.log = w.log ++ [e])
    (sysCount : w'.sysCount = w.sysCount) (noCall : ∀ c, e ≠ .sysCall c)
    (allowed : dmaMonitor.allowed (outstanding w.log) e) :
    CallLog env total chunkCall n w' where
  le := h.le
  sysCount := sysCount.trans h.sysCount
  calls := by
    rw [log, chunkCalls_snoc, h.calls]
    cases e with
    | sysCall c => exact absurd rfl (noCall c)
    | _ => simp
  full := h.full
  safe := by
    rw [log, Monitor.safe_snoc]
    exact ⟨h.safe, allowed⟩

theorem sysCall (h : CallLog env total chunkCall n w)
    (log : w'.log = w.log ++ [.sysCall (chunkCall n)]) (sysCount : w'.sysCount = w.sysCount + 1)
    (lt : n < chunkNum total) (full : ∀ k, k < n → got env total k = chunkSize total k)
    (free : outstanding w.log (chunkCall n).half = false)
    (size : (chunkCall n).size = chunkSize total n) :
    CallLog env total chunkCall (n + 1) w' where
  le := lt
  sysCount := by rw [sysCount, h.sysCount]
  calls := by
    rw [log, chunkCalls_snoc, h.calls, List.range_succ, List.map_append]
    rfl
  full := fun k klt => full k (by omega)
  safe := by
    rw [log, Monitor.safe_snoc]
    have le := chunkSize_le total n
    exact ⟨h.safe, free, by rw [size]; omega⟩

theorem issued (h : CallLog env total chunkCall n w)
    (size : ∀ k, (chunkCall k).size = chunkSize total k)
    (ret : ∀ k, (chunkCall k).ret = chunkRet env total k) :
    IssuedCalls env total chunkCall n w.log :=
  ⟨size, ret, h.le, h.calls, h.full⟩

end CallLog

/-! ## The halves -/

theorem idle_of_two {o : Half → Bool} {k : Nat} (first : o (half k) = false)
    (second : o (half (k + 1)) = false) : ∀ j, o j = false := by
  intro j
  rcases half_cases k j with rfl | rfl
  · exact first
  · exact second

/-- The oldest of the chunks in flight comes first. -/
theorem veFindMinPosted_eq {posted : Half → Option Nat} {m : Nat}
    (first : posted (half m) = some m)
    (second : posted (half (m + 1)) = none ∨ posted (half (m + 1)) = some (m + 1)) :
    veFindMinPosted posted = half m := by
  have parity : half m = 0 ∧ half (m + 1) = 1 ∨ half m = 1 ∧ half (m + 1) = 0 := by
    simp only [half, buffNparas, Fin.ext_iff, Fin.val_zero, Fin.val_one]
    omega
  rcases parity with ⟨even, odd⟩ | ⟨odd, even⟩
  · rw [even] at first ⊢
    rw [odd] at second
    rcases second with none | later <;> simp [veFindMinPosted, *]
  · rw [odd] at first ⊢
    rw [even] at second
    rcases second with none | later <;> simp [veFindMinPosted, *]

theorem outstanding_wait (env : Env) (w : World) (j : Half) :
    outstanding (w.veDmaWait env j).2.log = Function.update (outstanding w.log) j false := by
  rw [World.veDmaWait_log, outstanding_snoc]
  rfl

theorem dmaFailed_wait (env : Env) (w : World) (j : Half) :
    dmaFailed (w.veDmaWait env j).2.log =
      (dmaFailed w.log || decide (1 ≤ env.waitCode w.waitCount)) := by
  rw [World.veDmaWait_log, dmaFailed_snoc]
  rfl

section Locals

variable {Cursor : Type}

structure Vacant (j : Half) (s : IoState Cursor) : Prop where
  posted : s.posted j = none
  idle : outstanding s.world.log j = false

theorem Vacant.frame {j : Half} {s s' : IoState Cursor} (h : Vacant j s)
    (posted : s'.posted j = s.posted j)
    (idle : outstanding s'.world.log j = outstanding s.world.log j) : Vacant j s' :=
  ⟨posted.trans h.posted, idle.trans h.idle⟩

theorem vacant_start {w : World} (fresh : w.Fresh) (io : AccIoInfo) (cursor : Cursor)
    (ofs : Int) (j : Half) : Vacant j (.start w io cursor ofs) := by
  obtain ⟨_, log, _, _, _⟩ := fresh
  refine ⟨rfl, ?_⟩
  simp [IoState.start, log, outstanding, dmaMonitor]

/-- The addresses in force at chunk `i`. -/
def AccIoInfo.atChunk (env : Env) (io : AccIoInfo) (i : Nat) : AccIoInfo :=
  if i = 0 then io else io.markSecond env

theorem prepare_eq {env : Env} {call : IoCall Cursor} {total : Nat} (sized : Sized call total)
    {io : AccIoInfo} {i : Nat} {s : IoState Cursor} (lt : i < chunkNum total)
    (addresses : s.io = io.atChunk env (i - 1)) (transferSize : s.transferSize = parasSize) :
    s.prepare env call i =
      { s with io := io.atChunk env i, transferSize := (chunkSize total i : Nat) } := by
  have marked : (if i = 1 then { s with io := s.io.markSecond env } else s) =
      { s with io := io.atChunk env i } := by
    by_cases second : i = 1
    · simp [second, addresses, AccIoInfo.atChunk]
    · have same : io.atChunk env (i - 1) = io.atChunk env i := by
        unfold AccIoInfo.atChunk
        by_cases zero : i = 0
        · simp [zero]
        · rw [if_neg (by omega), if_neg zero]
      rw [if_neg second, ← same, ← addresses]
  have unfolded : s.prepare env call i =
      if i = chunkNum total - 1 then
        { s with io := io.atChunk env i, transferSize := int64 (total - parasSize * i) }
      else { s with io := io.atChunk env i } := by
    rw [← sized.chunkNum_eq, ← sized.total_eq, ← transferSize]
    simp only [IoState.prepare]
    rw [marked]
  rw [unfolded]
  by_cases last : i = chunkNum total - 1
  · have size := chunkSize_last (show i + 1 = chunkNum total by omega)
    have inside := chunk_end_le lt
    have small := sized.le_max
    simp only [maxTotal_eq] at small
    have exact64 : int64 (total - parasSize * i) = (chunkSize total i : Nat) := by
      rw [int64_eq_self (by omega) (by omega)]
      omega
    rw [if_pos last, exact64]
  · have size := chunkSize_eq_parasSize (show i + 1 < chunkNum total by omega)
    rw [if_neg last, size, ← transferSize]

end Locals

end Libsysve.AccIo
