import Libsysve.AccIo.Chunks
import Libsysve.AccIo.Log

/-!
# A plain call carried out in chunks

`PlainCalls` is the part of "this call behaves as one plain system call" that the read and
the write functions share: which chunk system calls are issued, when they stop, and what is
returned.  `IssuedCalls` is the same in the terms of the pipeline invariants.
-/

set_option autoImplicit false

namespace Libsysve.AccIo

/-- The data of the chunk system calls, in the order of the calls. -/
def callData (log : List IoEvent) : List UInt8 := (chunkCalls log).flatMap ChunkCall.bytes

/-- A transfer of `total` bytes at `ofs` that chunk system calls carry out one after the
other, until one of them does not move all it was asked for. -/
structure PlainCalls (env : Env) (num : SyscallNum) (fd : Int) (total : Nat) (ofs : Int)
    (ret : Int) (log : List IoEvent) : Prop where
  request : ∀ (k : Nat) (c : ChunkCall), (chunkCalls log)[k]? = some c →
    c.num = num ∧ c.fd = fd ∧ c.size = min (parasSize : Int) (total - parasSize * k) ∧
    c.ofs = ofs + parasSize * k ∧ c.ret = (env.sys k).ret c.size
  issued : 0 < (chunkCalls log).length
  stops : ∀ (k : Nat) (c : ChunkCall), (chunkCalls log)[k]? = some c → c.ret < c.size →
    (chunkCalls log).length = k + 1
  complete : (∀ c, c ∈ chunkCalls log → c.ret = c.size) → acceptedBytes log = total
  failure : ret = -1 ↔ ∃ c, (chunkCalls log).head? = some c ∧ c.ret = -1
  value : ret ≠ -1 → ret = acceptedBytes log
  le : acceptedBytes log ≤ total

/-- The log has the first `n` chunk system calls, `chunkCall k` being the `k`-th, and all but
the last one moved all they were asked for. -/
structure IssuedCalls (env : Env) (total : Nat) (chunkCall : Nat → ChunkCall) (n : Nat)
    (log : List IoEvent) : Prop where
  size : ∀ k, (chunkCall k).size = chunkSize total k
  ret : ∀ k, (chunkCall k).ret = chunkRet env total k
  le : n ≤ chunkNum total
  calls : chunkCalls log = (List.range n).map chunkCall
  full : ∀ k, k + 1 < n → got env total k = chunkSize total k

/-- The first call did not fail and no call is left to issue after the first `n`. -/
structure Complete (env : Env) (total n : Nat) : Prop where
  began : chunkRet env total 0 ≠ -1
  last : n = chunkNum total ∨
    0 < n ∧ chunkRet env total (n - 1) < chunkSize total (n - 1)

/-- errno after `n` calls when no DMA failed and the first call did not fail: a later call
that fails has its errno cleared. -/
def errnoAfter (env : Env) (total : Nat) (errno : Int) (n : Nat) : Int :=
  if 2 ≤ n ∧ chunkRet env total (n - 1) = -1 then 0 else errno

theorem errnoAfter_of_ne {env : Env} {total : Nat} {errno : Int} {n : Nat}
    (ne : chunkRet env total (n - 1) ≠ -1) : errnoAfter env total errno n = errno := by
  rw [errnoAfter, if_neg]
  rintro ⟨_, failed⟩
  exact ne failed

theorem got_of_ret_pos {env : Env} {total k : Nat} (ne : chunkRet env total k ≠ -1)
    (ne0 : chunkRet env total k ≠ 0) :
    0 < got env total k ∧ (got env total k : Int) = chunkRet env total k := by
  have ge := chunkRet_ge env total k
  simp only [got]
  omega

theorem got_eq_zero {env : Env} {total k : Nat} (le : chunkRet env total k ≤ 0) :
    got env total k = 0 := by
  simp only [got]
  omega

namespace IssuedCalls

variable {env : Env} {total : Nat} {chunkCall : Nat → ChunkCall} {n : Nat}
variable {log : List IoEvent}

theorem accepted_range (ret : ∀ k, (chunkCall k).ret = chunkRet env total k) (n : Nat) :
    (((List.range n).map chunkCall).map fun c => max c.ret 0).sum = gotSum env total n := by
  induction n with
  | zero => rfl
  | succ n ih =>
    have last : max (chunkCall n).ret 0 = (got env total n : Int) := by
      rw [ret n]
      exact (Int.ofNat_toNat _).symm
    rw [List.range_succ, List.map_append, List.map_append, List.sum_append, ih, gotSum_succ]
    simp [last]

theorem accepted (h : IssuedCalls env total chunkCall n log) :
    acceptedBytes log = gotSum env total n := by
  rw [acceptedBytes, h.calls, accepted_range h.ret]

theorem accepted_le (h : IssuedCalls env total chunkCall n log) :
    acceptedBytes log ≤ total := by
  have le := gotSum_le env total n
  rw [h.accepted]
  omega

theorem length (h : IssuedCalls env total chunkCall n log) : (chunkCalls log).length = n := by
  rw [h.calls, List.length_map, List.length_range]

theorem call (h : IssuedCalls env total chunkCall n log) {k : Nat} {c : ChunkCall}
    (found : (chunkCalls log)[k]? = some c) : k < n ∧ c = chunkCall k := by
  rw [h.calls, List.getElem?_map, Option.map_eq_some_iff] at found
  obtain ⟨index, atIndex, rfl⟩ := found
  obtain ⟨lt, same⟩ := List.getElem?_eq_some_iff.mp atIndex
  rw [List.getElem_range] at same
  rw [List.length_range] at lt
  exact ⟨lt, by rw [same]⟩

theorem head (h : IssuedCalls env total chunkCall n log) (issued : 1 ≤ n) :
    (chunkCalls log).head? = some (chunkCall 0) := by
  obtain ⟨n, rfl⟩ := Nat.exists_eq_add_of_le' issued
  rw [h.calls, List.range_succ_eq_map]
  rfl

theorem stops (h : IssuedCalls env total chunkCall n log) {k : Nat} (lt : k < n)
    (short : (chunkCall k).ret < (chunkCall k).size) : n = k + 1 := by
  rw [h.ret, h.size] at short
  by_contra later
  have ret := chunkRet_of_full (lt_of_lt_of_le lt h.le) (h.full k (by omega))
  omega

theorem accepted_all (h : IssuedCalls env total chunkCall n log) (complete : Complete env total n)
    (issued : 1 ≤ n) (full : ∀ c, c ∈ chunkCalls log → c.ret = c.size) :
    acceptedBytes log = total := by
  obtain ⟨n, rfl⟩ := Nat.exists_eq_add_of_le' issued
  have member : chunkCall n ∈ chunkCalls log := by
    rw [h.calls]
    exact List.mem_map_of_mem (List.mem_range.mpr (by omega))
  have last : chunkRet env total n = chunkSize total n := by
    rw [← h.ret, ← h.size]
    exact full _ member
  have done : n + 1 = chunkNum total := by
    rcases complete.last with all | ⟨_, short⟩
    · exact all
    · rw [Nat.add_sub_cancel] at short
      omega
  have before := gotSum_full (n := n) h.le (fun k klt => h.full k (by omega))
  have size := chunkSize_last done
  have inside := chunk_end_le (show n < chunkNum total by omega)
  rw [h.accepted, gotSum_succ, before]
  simp only [got, last, Int.toNat_natCast]
  omega

/-- The value that fits the calls: their sum, or `-1` when the first one failed. -/
def Returns (env : Env) (total n : Nat) (ret : Int) : Prop :=
  (Complete env total n ∧ ret = gotSum env total n) ∨
    (n = 1 ∧ chunkRet env total 0 = -1 ∧ ret = -1)

theorem plainCalls (h : IssuedCalls env total chunkCall n log) {num : SyscallNum} {fd : Int}
    {ofs ret : Int} (issued : 1 ≤ n) (ofs_low : -2 ^ 63 ≤ ofs) (ofs_high : ofs + total < 2 ^ 63)
    (nums : ∀ k, (chunkCall k).num = num ∧ (chunkCall k).fd = fd)
    (offsets : ∀ k, (chunkCall k).ofs = int64 (ofs + parasSize * k))
    (value : Returns env total n ret) : PlainCalls env num fd total ofs ret log where
  request := by
    intro k c found
    obtain ⟨lt, rfl⟩ := h.call found
    have inside := chunk_end_le (lt_of_lt_of_le lt h.le)
    refine ⟨(nums k).1, (nums k).2, ?_, ?_, ?_⟩
    · rw [h.size, chunkSize]
      omega
    · rw [offsets, int64_eq_self (by omega) (by omega)]
    · rw [h.size, h.ret, chunkRet]
  issued := by
    rw [h.length]
    exact issued
  stops := by
    intro k c found short
    obtain ⟨lt, rfl⟩ := h.call found
    rw [h.length]
    exact h.stops lt short
  complete := by
    intro full
    rcases value with ⟨complete, _⟩ | ⟨one, failed, _⟩
    · exact h.accepted_all complete issued full
    · have whole := full _ (List.mem_of_mem_head? (h.head issued))
      rw [h.ret, h.size, failed] at whole
      omega
  failure := by
    rw [h.head issued]
    constructor
    · intro minus
      rcases value with ⟨_, sum⟩ | ⟨_, failed, _⟩
      · omega
      · exact ⟨_, rfl, by rw [h.ret, failed]⟩
    · rintro ⟨c, first, failed⟩
      obtain rfl := Option.some.inj first
      rw [h.ret] at failed
      rcases value with ⟨complete, _⟩ | ⟨_, _, minus⟩
      · exact absurd failed complete.began
      · exact minus
  value := by
    intro ne
    rcases value with ⟨_, sum⟩ | ⟨_, _, minus⟩
    · rw [sum, h.accepted]
    · exact absurd minus ne
  le := h.accepted_le

end IssuedCalls

end Libsysve.AccIo
