import Libsysve.AccIo.Pipeline

/-!
# Transfers without failures

`Paced` counts the requests and the waits while all of them succeed: before round `i` the
chunks `i - 2` and `i - 1` are in flight.
-/

set_option autoImplicit false

namespace Libsysve.AccIo

section
variable {Cursor : Type} {env : Env} {call : IoCall Cursor} {i : Nat} {s : IoState Cursor}

/-! ## Chunks in flight -/

/-- A transfer before round `i`, all requests accepted and all waits successful. -/
structure Paced (env : Env) (i : Nat) (s : IoState Cursor) : Prop where
  posted : ∀ k, k < i → i ≤ k + 2 → s.posted (half k) = some k
  free : i ≤ 1 → s.posted (half i) = none ∧ (i = 0 → s.posted (half 1) = none)
  postCount : s.world.postCount = i
  waitCount : s.world.waitCount = i - 2
  posts : ∀ k, k < i → env.postOk k = true
  waits : ∀ k, k + 2 < i → env.waitCode k = 0

/-- The same in round `i`, behind its wait. -/
structure PacedMid (env : Env) (i : Nat) (s : IoState Cursor) : Prop where
  posted : ∀ k, k + 1 = i → s.posted (half k) = some k
  older : ∀ k, k + 2 = i → s.posted (half i) = some k
  free : i = 0 → s.posted (half 1) = none
  postCount : s.world.postCount = i
  waitCount : s.world.waitCount = i + 1 - 2
  posts : ∀ k, k < i → env.postOk k = true
  waits : ∀ k, k + 2 < i + 1 → env.waitCode k = 0

theorem Paced.start {w : World} (fresh : w.Fresh) (io : AccIoInfo) (cursor : Cursor) (ofs : Int) :
    Paced env 0 (IoState.start w io cursor ofs) :=
  ⟨by omega, fun _ => ⟨rfl, fun _ => rfl⟩, fresh.2.2.2.1, fresh.2.2.2.2, by omega, by omega⟩

theorem Paced.prepare (paced : Paced env i s) : Paced env i (s.prepare env call i) := by
  obtain ⟨io, size, frame⟩ := s.prepare_frame env call i
  rw [frame]
  exact ⟨paced.posted, paced.free, paced.postCount, paced.waitCount, paced.posts, paced.waits⟩

theorem Paced.first (paced : Paced env i s) (early : i < buffNparas) : PacedMid env i s := by
  simp only [buffNparas] at early
  refine ⟨?_, ?_, ?_, paced.postCount, ?_, paced.posts, ?_⟩
  · intro k previous
    exact paced.posted k (by omega) (by omega)
  · intro k older
    omega
  · intro zero
    exact (paced.free (by omega)).2 zero
  · have count := paced.waitCount
    omega
  · intro k before
    omega

theorem Paced.wait (paced : Paced env i s) (second : buffNparas ≤ i)
    (fine : env.waitCode s.world.waitCount = 0) :
    PacedMid env i (s.wait env (half i)).2 := by
  simp only [buffNparas] at second
  have count := paced.waitCount
  refine ⟨?_, ?_, ?_, ?_, ?_, paced.posts, ?_⟩
  · intro k previous
    exact paced.posted k (by omega) (by omega)
  · intro k older
    have here := paced.posted k (by omega) (by omega)
    rw [← half_add_two, older] at here
    exact here
  · intro zero
    omega
  · exact (World.veDmaWait_postCount ..).trans paced.postCount
  · show s.world.waitCount + 1 = i + 1 - 2
    omega
  · intro k before
    rcases Nat.lt_or_ge (k + 2) i with earlier | last
    · exact paced.waits k earlier
    · have here : k = s.world.waitCount := by omega
      rw [here]
      exact fine

theorem PacedMid.of_eq {s' : IoState Cursor} (mid : PacedMid env i s)
    (posted : s'.posted = s.posted) (postCount : s'.world.postCount = s.world.postCount)
    (waitCount : s'.world.waitCount = s.world.waitCount) : PacedMid env i s' where
  posted := by
    rw [posted]
    exact mid.posted
  older := by
    rw [posted]
    exact mid.older
  free := by
    rw [posted]
    exact mid.free
  postCount := postCount.trans mid.postCount
  waitCount := waitCount.trans mid.waitCount
  posts := mid.posts
  waits := mid.waits

theorem PacedMid.record {s' : IoState Cursor} (mid : PacedMid env i s)
    (accepted : env.postOk s.world.postCount = true) (here : s'.posted (half i) = some i)
    (other : ∀ j, j ≠ half i → s'.posted j = s.posted j)
    (postCount : s'.world.postCount = s.world.postCount + 1)
    (waitCount : s'.world.waitCount = s.world.waitCount) : Paced env (i + 1) s' where
  posted := by
    intro k before recent
    rcases Nat.lt_succ_iff_lt_or_eq.mp before with older | rfl
    · have previous : k + 1 = i := by omega
      have ne : half k ≠ half i := by
        rw [← previous]
        exact half_ne_succ k
      rw [other _ ne]
      exact mid.posted k previous
    · exact here
  free := by
    intro early
    have zero : i = 0 := by omega
    subst zero
    refine ⟨?_, fun absurdly => absurd absurdly (by omega)⟩
    rw [other _ (half_succ_ne 0)]
    exact mid.free rfl
  postCount := by rw [postCount, mid.postCount]
  waitCount := waitCount.trans mid.waitCount
  posts := by
    intro k before
    rcases Nat.lt_succ_iff_lt_or_eq.mp before with older | rfl
    · exact mid.posts k older
    · rwa [mid.postCount] at accepted
  waits := mid.waits

/-- The chunks from `m` to `n` are in flight, and no request and no wait has failed. -/
structure ChunksInFlight (env : Env) (m n : Nat) (s : IoState Cursor) : Prop where
  few : m ≤ n ∧ n ≤ m + 2
  posted : ∀ k, m ≤ k → k < n → s.posted (half k) = some k
  free : n ≤ m + 1 → s.posted (half n) = none
  other : n = m → s.posted (half (n + 1)) = none
  waitCount : s.world.waitCount = m
  posts : ∀ k, k < n → env.postOk k = true
  waits : ∀ k, k < m → env.waitCode k = 0

theorem Paced.inFlight (paced : Paced env i s) : ChunksInFlight env (i - 2) i s where
  few := by omega
  posted k recent before := paced.posted k before (by omega)
  free early := (paced.free (by omega)).1
  other early := by
    obtain rfl : i = 0 := by omega
    exact (paced.free (by omega)).2 rfl
  waitCount := paced.waitCount
  posts := paced.posts
  waits k before := paced.waits k (by omega)

theorem PacedMid.inFlight (mid : PacedMid env i s) :
    ChunksInFlight env (i - 1) i (s.unpost (half i)) where
  few := by omega
  posted k recent before := by
    have previous : k + 1 = i := by omega
    have ne : half k ≠ half i := by
      rw [← previous]
      exact half_ne_succ k
    rw [IoState.unpost_other _ ne]
    exact mid.posted k previous
  free _ := IoState.unpost_self _ _
  other early := by
    obtain rfl : i = 0 := by omega
    rw [IoState.unpost_other _ (half_succ_ne 0)]
    exact mid.free rfl
  waitCount := mid.waitCount.trans (by omega)
  posts := mid.posts
  waits k before := mid.waits k (by omega)

end

end Libsysve.AccIo
