import Mathlib.Algebra.BigOperators.Group.Finset.Basic
import Mathlib.Algebra.BigOperators.Group.Finset.Sigma
import Libsysve.AccIo.Transfer

/-!
# The chunks of a transfer

A transfer of `total` bytes is cut into `chunkNum total` chunks of `parasSize` bytes, the
last one shorter.  `chunkRet` is the answer of the system call of chunk `k`, `got` the
bytes it moved, and `gotSum` the bytes moved by the first chunks.  The two ways the source
computes the number of chunks agree with `chunkNum` up to `maxTotal`, the largest total
whose loop index fits in an `int`.
-/

set_option autoImplicit false

namespace Libsysve.AccIo

open Libsysve.ByteMemory

def chunkNum (total : Nat) : Nat := (total + parasSize - 1) / parasSize

def chunkSize (total k : Nat) : Nat := min parasSize (total - parasSize * k)

def chunkRet (env : Env) (total k : Nat) : Int := (env.sys k).ret (chunkSize total k)

def got (env : Env) (total k : Nat) : Nat := (chunkRet env total k).toNat

def gotSum (env : Env) (total n : Nat) : Nat := ∑ k ∈ Finset.range n, got env total k

/-- The bytes a read gets from the file: those of chunk `k` start at `parasSize * k`. -/
def readStream (env : Env) : Memory := fun p =>
  (env.sys (p / parasSize)).data (p % parasSize)

def maxTotal : Nat := (2 ^ 31 - 1) * parasSize

theorem chunkSize_le (total k : Nat) : chunkSize total k ≤ parasSize := Nat.min_le_left _ _

theorem chunkSize_pos {total k : Nat} (lt : k < chunkNum total) : 0 < chunkSize total k := by
  simp only [chunkNum, chunkSize, parasSize_eq] at *
  omega

theorem lt_chunkNum {total k : Nat} (pos : 0 < chunkSize total k) : k < chunkNum total := by
  simp only [chunkNum, chunkSize, parasSize_eq] at *
  omega

theorem chunkSize_eq_parasSize {total k : Nat} (lt : k + 1 < chunkNum total) :
    chunkSize total k = parasSize := by
  simp only [chunkNum, chunkSize, parasSize_eq] at *
  omega

theorem chunkSize_last {total k : Nat} (last : k + 1 = chunkNum total) :
    chunkSize total k = total - parasSize * k := by
  simp only [chunkNum, chunkSize, parasSize_eq] at *
  omega

theorem chunk_end_le {total k : Nat} (lt : k < chunkNum total) :
    parasSize * k + chunkSize total k ≤ total := by
  simp only [chunkNum, chunkSize, parasSize_eq] at *
  omega

theorem chunkNum_pos {total : Nat} (pos : 0 < total) : 0 < chunkNum total := by
  simp only [chunkNum, parasSize_eq]
  omega

theorem chunkRet_le (env : Env) (total k : Nat) : chunkRet env total k ≤ chunkSize total k :=
  SysOutcome.ret_le _ (by omega)

theorem chunkRet_ge (env : Env) (total k : Nat) : -1 ≤ chunkRet env total k :=
  SysOutcome.ret_ge _ (by omega)

theorem got_le (env : Env) (total k : Nat) : got env total k ≤ chunkSize total k := by
  have le := chunkRet_le env total k
  simp only [got]
  omega

theorem chunkRet_of_full {env : Env} {total k : Nat} (lt : k < chunkNum total)
    (full : got env total k = chunkSize total k) : chunkRet env total k = chunkSize total k := by
  have pos := chunkSize_pos lt
  simp only [got] at full
  omega

@[simp] theorem gotSum_zero (env : Env) (total : Nat) : gotSum env total 0 = 0 := rfl

theorem gotSum_succ (env : Env) (total n : Nat) :
    gotSum env total (n + 1) = gotSum env total n + got env total n :=
  Finset.sum_range_succ _ _

theorem gotSum_full {env : Env} {total : Nat} : ∀ {n : Nat}, n < chunkNum total →
    (∀ k, k < n → got env total k = chunkSize total k) → gotSum env total n = parasSize * n := by
  intro n
  induction n with
  | zero => intro _ _; simp
  | succ n ih =>
    intro lt full
    have before := ih (by omega) (fun k klt => full k (by omega))
    rw [gotSum_succ, before, full n (by omega), chunkSize_eq_parasSize lt]
    ring

theorem gotSum_le_min (env : Env) (total n : Nat) :
    gotSum env total n ≤ min total (parasSize * n) := by
  induction n with
  | zero => simp
  | succ n ih =>
    have last := got_le env total n
    simp only [gotSum_succ, chunkSize, parasSize_eq] at *
    omega

theorem gotSum_le (env : Env) (total n : Nat) : gotSum env total n ≤ total :=
  (gotSum_le_min env total n).trans (Nat.min_le_left _ _)

theorem readStream_chunk (env : Env) (k : Nat) {b : Nat} (lt : b < parasSize) :
    readStream env (parasSize * k + b) = (env.sys k).data b := by
  have quotient : (parasSize * k + b) / parasSize = k := by
    simp only [parasSize_eq] at *
    omega
  have remainder : (parasSize * k + b) % parasSize = b := by
    simp only [parasSize_eq] at *
    omega
  simp only [readStream, quotient, remainder]

/-! ## The sizes as the source computes them -/

structure Sized {Cursor : Type} (call : IoCall Cursor) (total : Nat) : Prop where
  total_eq : call.total = total
  chunkNum_eq : call.chunkNum = chunkNum total
  le_max : total ≤ maxTotal

theorem maxTotal_eq : maxTotal = 9007199250546688 := rfl

theorem chunkNumOfCount_eq {count : Nat} (le : count ≤ maxTotal) :
    chunkNumOfCount count = chunkNum count := by
  simp only [chunkNumOfCount, chunkNum, maxTotal_eq, parasSize_eq] at *
  omega

theorem bufferCall_sized (num : SyscallNum) (fd : Int) {count : Nat} (le : count ≤ maxTotal) :
    Sized (bufferCall num fd count) count :=
  ⟨rfl, chunkNumOfCount_eq le, le⟩

def iovTotal (iov : List Iovec) : Nat := (iov.map Iovec.iovLen).sum

theorem totalSize_foldl (iov : List Iovec) : ∀ start : Int, 0 ≤ start →
    start + iovTotal iov < 2 ^ 63 →
      iov.foldl (fun total v => int64 (total + v.iovLen)) start = start + iovTotal iov := by
  induction iov with
  | nil => intro start _ _; simp [iovTotal]
  | cons v rest ih =>
    intro start nonneg le
    simp only [iovTotal, List.map_cons, List.sum_cons, Nat.cast_add] at le ih ⊢
    have exact64 : int64 (start + v.iovLen) = start + v.iovLen :=
      int64_eq_self (by omega) (by omega)
    rw [List.foldl_cons, exact64, ih (start + v.iovLen) (by omega) (by omega)]
    omega

/-- A total that a `ssize_t` holds is computed exactly. -/
theorem totalSize_exact {iov : List Iovec} (lt : iovTotal iov < 2 ^ 63) :
    totalSize iov = iovTotal iov := by
  rw [totalSize, totalSize_foldl iov 0 (by omega) (by omega)]
  omega

theorem totalSize_eq {iov : List Iovec} (le : iovTotal iov ≤ maxTotal) :
    totalSize iov = iovTotal iov := by
  apply totalSize_exact
  rw [maxTotal_eq] at le
  omega

theorem chunkNumOfTotal_exact {total : Nat} (small : total + parasSize - 1 < 2 ^ 63) :
    chunkNumOfTotal total = chunkNum total := by
  simp only [chunkNumOfTotal, chunkNum, parasSize_eq] at *
  rw [int64_eq_self (by omega) (by omega)]
  by_cases empty : total = 0
  · subst empty
    decide
  · rw [Int.tdiv_eq_ediv_of_nonneg (by omega)]
    omega

theorem chunkNumOfTotal_eq {total : Nat} (le : total ≤ maxTotal) :
    chunkNumOfTotal total = chunkNum total := by
  apply chunkNumOfTotal_exact
  rw [maxTotal_eq] at le
  rw [parasSize_eq]
  omega

theorem iovCall_sized (num : SyscallNum) (fd : Int) {iov : List Iovec}
    (le : iovTotal iov ≤ maxTotal) : Sized (iovCall num fd iov) (iovTotal iov) := by
  have total := totalSize_eq le
  refine ⟨total, ?_, le⟩
  show chunkNumOfTotal (totalSize iov) = chunkNum (iovTotal iov)
  rw [total, chunkNumOfTotal_eq le]

end Libsysve.AccIo
