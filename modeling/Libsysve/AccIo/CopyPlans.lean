import Libsysve.AccIo.Chunks
import Libsysve.AccIo.Log

/-!
# What the copy plans do

`Covers addr p reqs q`: the requests copy the bytes `p` to `q - 1` of a half-buffer, in
order, where byte `i` belongs to user address `addr i`.  `CoverSpec` says that a plan covers
the next bytes of a transfer from every cursor it can reach.  It holds of the contiguous plan
and of the segment loop of the vector functions.
-/

set_option autoImplicit false

namespace Libsysve.AccIo

open Libsysve.ByteMemory

inductive Covers (addr : Nat → Nat) : Nat → List CopyReq → Nat → Prop where
  | nil (p : Nat) : Covers addr p [] p
  | cons (p user len : Nat) (rest : List CopyReq) (q : Nat)
      (here : ∀ i, i < len → user + i = addr (p + i)) (after : Covers addr (p + len) rest q) :
      Covers addr p (⟨user, p, len⟩ :: rest) q

namespace Covers

variable {addr : Nat → Nat} {p q : Nat} {reqs : List CopyReq}

theorem le (h : Covers addr p reqs q) : p ≤ q := by
  induction h with
  | nil p => exact le_refl p
  | cons p user len rest q here after ih => omega

theorem length (h : Covers addr p reqs q) : copyLen reqs = q - p := by
  induction h with
  | nil p => simp
  | cons p user len rest q here after ih =>
    rw [copyLen_cons, ih]
    simp only [Nat.cast_add]
    ring

theorem inside (h : Covers addr p reqs q) :
    ∀ req, req ∈ reqs → (p : Int) ≤ req.off ∧ 0 ≤ req.len ∧ req.off + req.len ≤ q := by
  induction h with
  | nil p => simp
  | cons p user len rest q here after ih =>
    intro req member
    have le := after.le
    rcases List.mem_cons.mp member with rfl | later
    · have fits : (p : Int) + len ≤ q := by omega
      exact ⟨le_refl _, Int.natCast_nonneg len, fits⟩
    · have bounds := ih req later
      omega

theorem congr {addr' : Nat → Nat} (h : Covers addr p reqs q)
    (same : ∀ i, p ≤ i → i < q → addr i = addr' i) : Covers addr' p reqs q := by
  induction h with
  | nil p => exact .nil p
  | cons p user len rest q here after ih =>
    have le := after.le
    refine .cons p user len rest q ?_ (ih (fun i low high => same i (by omega) high))
    intro i lt
    rw [here i lt, same (p + i) (by omega) (by omega)]

/-- Copying out scatters the bytes of the half over their addresses. -/
theorem copyOut (h : Covers addr p reqs q) (half user : Memory) :
    World.copyOutMemory half user reqs =
      scatter user (fun i => addr (p + i)) (fun i => half (p + i)) (q - p) := by
  induction h generalizing user with
  | nil p =>
    rw [Nat.sub_self, scatter_zero]
    rfl
  | cons p address len rest q here after ih =>
    have le := after.le
    have split : q - p = len + (q - (p + len)) := by omega
    have first : overlay user address (fun i => half (p + i)) len =
        scatter user (fun i => addr (p + i)) (fun i => half (p + i)) len := by
      rw [← scatter_contiguous]
      exact scatter_congr here (fun i _ => rfl)
    simp only [World.copyOutMemory, Int.toNat_natCast, first, ih]
    rw [split, scatter_add]
    simp only [Nat.add_assoc]

/-- Copying in gathers the bytes of the half from their addresses. -/
theorem copyIn (h : Covers addr p reqs q) (user half : Memory) :
    World.copyInMemory user half reqs =
      fun i => if p ≤ i ∧ i < q then user (addr i) else half i := by
  induction h generalizing half with
  | nil p =>
    funext i
    rw [if_neg (by omega)]
    rfl
  | cons p address len rest q here after ih =>
    have le := after.le
    simp only [World.copyInMemory, Int.toNat_natCast, ih]
    funext i
    by_cases later : p + len ≤ i ∧ i < q
    · rw [if_pos later, if_pos (by omega)]
    · rw [if_neg later]
      by_cases first : p ≤ i ∧ i < p + len
      · obtain ⟨b, rfl⟩ := Nat.exists_eq_add_of_le first.1
        rw [if_pos (by omega), overlay_inside half p _ (by omega), here b (by omega)]
      · rw [if_neg (by omega), overlay_outside half _ (by omega)]

end Covers

/-- From a cursor `At` position `d` of the transfer the plan covers the next `n` bytes and
leaves none of them over. -/
structure CoverSpec {Cursor : Type} (plan : CopyPlan Cursor) (total : Nat)
    (addr : Nat → Nat) where
  At : Nat → Cursor → Prop
  next : ∀ {d n : Nat} {cursor : Cursor}, At d cursor → 0 < n → d + n ≤ total →
    At (d + n) (plan cursor n).1 ∧ (plan cursor n).2.2 = 0
  covers : ∀ {d n : Nat} {cursor : Cursor}, At d cursor → 0 < n → d + n ≤ total →
    Covers (fun i => addr (d + i)) 0 (plan cursor n).2.1 n

namespace CoverSpec

variable {Cursor : Type} {plan : CopyPlan Cursor} {total : Nat} {addr : Nat → Nat}
variable (spec : CoverSpec plan total addr)

theorem requests {d n : Nat} {cursor : Cursor} (here : spec.At d cursor) (pos : 0 < n)
    (fits : d + n ≤ total) (le : n ≤ parasSize) : CopyInside n (plan cursor n).2.1 := by
  have covered := spec.covers here pos fits
  exact ⟨by omega, by rw [covered.length, Nat.cast_zero, Int.sub_zero], covered.inside⟩

theorem copyOut {d n : Nat} {cursor : Cursor} (here : spec.At d cursor) (pos : 0 < n)
    (fits : d + n ≤ total) {user half stream : Memory}
    (holds : ∀ b, b < n → half b = stream (d + b)) :
    World.copyOutMemory half (scatter user addr stream d) (plan cursor n).2.1 =
      scatter user addr stream (d + n) := by
  rw [(spec.covers here pos fits).copyOut, Nat.sub_zero, scatter_add]
  apply scatter_congr
  · intro i _
    rw [Nat.zero_add]
  · intro i lt
    rw [Nat.zero_add, holds i lt]

theorem copyIn {d n : Nat} {cursor : Cursor} (here : spec.At d cursor) (pos : 0 < n)
    (fits : d + n ≤ total) (user half : Memory) {b : Nat} (lt : b < n) :
    World.copyInMemory user half (plan cursor n).2.1 b = user (addr (d + b)) := by
  rw [(spec.covers here pos fits).copyIn]
  exact if_pos ⟨Nat.zero_le b, lt⟩

end CoverSpec

/-! ## The contiguous plan -/

def bufferCover (buf total : Nat) : CoverSpec bufferPlan total (fun p => buf + p) where
  At d cursor := cursor = buf + d
  next := by
    rintro d n cursor rfl _ _
    simp [bufferPlan, Nat.add_assoc]
  covers := by
    rintro d n cursor rfl _ _
    refine .cons 0 (buf + d) n [] n ?_ ?_
    · intro i _
      rw [Nat.zero_add, Nat.add_assoc]
    · rw [Nat.zero_add]
      exact .nil n

/-! ## The segments of the vector functions -/

/-- The user address of byte `p` of the segments, one after the other. -/
def iovAddr : List Iovec → Nat → Nat
  | [], _ => 0
  | v :: rest, p => if p < v.iovLen then v.iovBase + p else iovAddr rest (p - v.iovLen)

theorem iovAddr_first {v : Iovec} {rest : List Iovec} {p : Nat} (lt : p < v.iovLen) :
    iovAddr (v :: rest) p = v.iovBase + p := if_pos lt

theorem iovAddr_rest (v : Iovec) (rest : List Iovec) (p : Nat) :
    iovAddr (v :: rest) (v.iovLen + p) = iovAddr rest p := by
  rw [iovAddr, if_neg (by omega), Nat.add_sub_cancel_left]

theorem iovTotal_cons (v : Iovec) (rest : List Iovec) :
    iovTotal (v :: rest) = v.iovLen + iovTotal rest := by
  simp [iovTotal]

theorem iovTotal_append (first rest : List Iovec) :
    iovTotal (first ++ rest) = iovTotal first + iovTotal rest := by
  simp [iovTotal]

theorem iovAddr_append (first rest : List Iovec) (p : Nat) :
    iovAddr (first ++ rest) (iovTotal first + p) = iovAddr rest p := by
  induction first with
  | nil =>
    rw [List.nil_append]
    congr 1
    simp [iovTotal]
  | cons v first ih =>
    rw [iovTotal_cons, List.cons_append, Nat.add_assoc, iovAddr_rest, ih]

/-- The cursor behind the first `d` bytes: `done` bytes into segment `n`, and never at the end
of a segment. -/
inductive IovAt (iov : List Iovec) (d : Nat) : IovCursor → Prop where
  | mk (n done : Nat) (le : n ≤ iov.length)
      (within : done = 0 ∨ ∃ v, iov[n]? = some v ∧ done < v.iovLen)
      (position : iovTotal (iov.take n) + done = d) : IovAt iov d ⟨n, done⟩

section SegmentLoop

variable {v : Iovec} {rest : List Iovec} {first n done less size off : Nat}

theorem iovLenLess_eq (len : v.iovLen = done + less) (small : v.iovLen < 2 ^ 63) :
    int64 (v.iovLen - done) = less := by
  rw [int64_eq_self (by omega) (by omega)]
  omega

theorem iovCopyLoop_inside (len : v.iovLen = done + less) (small : v.iovLen < 2 ^ 63)
    (inside : size < less) : iovCopyLoop first (v :: rest) n done size off =
      (⟨n, done + size⟩, [⟨v.iovBase + done, off, size⟩], 0) := by
  have copySize : min (less : Int) size = size := min_eq_right (by omega)
  have stop : (0 : Int) ≥ size - size := by omega
  have more : (less : Int) > size := by omega
  simp only [iovCopyLoop, iovLenLess_eq len small, copySize]
  rw [if_pos stop, if_pos more, Int.sub_self, Int.toNat_natCast]

theorem iovCopyLoop_end (len : v.iovLen = done + size) (small : v.iovLen < 2 ^ 63) :
    iovCopyLoop first (v :: rest) n done size off =
      (⟨n + 1, 0⟩, [⟨v.iovBase + done, off, size⟩], 0) := by
  have copySize : min (size : Int) size = size := min_self _
  have stop : (0 : Int) ≥ size - size := by omega
  have noMore : ¬(size : Int) > size := by omega
  simp only [iovCopyLoop, iovLenLess_eq len small, copySize]
  rw [if_pos stop, if_neg noMore, Int.sub_self, Int.toNat_natCast]

theorem iovCopyLoop_beyond (len : v.iovLen = done + less) (small : v.iovLen < 2 ^ 63)
    (pos : 0 < size) : iovCopyLoop first (v :: rest) n done (less + size : Nat) off =
      ((iovCopyLoop first rest (n + 1) (0 : Nat) size (off + less : Nat)).1,
        ⟨v.iovBase + done, off, less⟩ ::
          (iovCopyLoop first rest (n + 1) (0 : Nat) size (off + less : Nat)).2.1,
        (iovCopyLoop first rest (n + 1) (0 : Nat) size (off + less : Nat)).2.2) := by
  have copySize : min (less : Int) (less + size : Nat) = less := min_eq_left (by omega)
  have left : ((less + size : Nat) : Int) - less = size := by omega
  have goOn : ¬(0 : Int) ≥ size := by omega
  have behind : (off : Int) + less = (off + less : Nat) := by omega
  simp only [iovCopyLoop, iovLenLess_eq len small, copySize, left, if_neg goOn, behind,
    Int.toNat_natCast, Nat.cast_zero]

end SegmentLoop

theorem iovTotal_take_succ {iov rest : List Iovec} {v : Iovec} {n : Nat}
    (split : iov.drop n = v :: rest) :
    iov[n]? = some v ∧ iov.drop (n + 1) = rest ∧ n + 1 ≤ iov.length ∧
      iovTotal (iov.take (n + 1)) = iovTotal (iov.take n) + v.iovLen := by
  have lt : n < iov.length := by
    by_contra beyond
    rw [List.drop_eq_nil_of_le (by omega)] at split
    exact absurd split (by simp)
  rw [List.drop_eq_getElem_cons lt, List.cons.injEq] at split
  obtain ⟨rfl, tail⟩ := split
  refine ⟨List.getElem?_eq_getElem lt, tail, lt, ?_⟩
  rw [List.take_succ_eq_append_getElem lt, iovTotal_append]
  simp [iovTotal]

theorem iovLen_le_total {iov rest : List Iovec} {v : Iovec} {n : Nat}
    (split : iov.drop n = v :: rest) : v.iovLen ≤ iovTotal iov := by
  have whole : iovTotal iov = iovTotal (iov.take n) + iovTotal (iov.drop n) := by
    rw [← iovTotal_append, List.take_append_drop]
  rw [split, iovTotal_cons] at whole
  omega

/-- One run of the segment loop, from `done` bytes into the first of the segments left. -/
theorem iovCopyLoop_spec {iov : List Iovec} (small : iovTotal iov < 2 ^ 63) (first : Nat) :
    ∀ (segments : List Iovec) (n done size off : Nat), iov.drop n = segments →
      (done = 0 ∨ ∃ v, segments.head? = some v ∧ done < v.iovLen) → 0 < size →
      done + size ≤ iovTotal segments →
      IovAt iov (iovTotal (iov.take n) + done + size)
          (iovCopyLoop first segments n done size off).1 ∧
        (iovCopyLoop first segments n done size off).2.2 = 0 ∧
        Covers (fun i => iovAddr segments (done + (i - off))) off
          (iovCopyLoop first segments n done size off).2.1 (off + size) := by
  intro segments
  induction segments with
  | nil =>
    intro n done size off _ _ pos fits
    simp [iovTotal] at fits
    omega
  | cons v rest ih =>
    intro n done size off split within pos fits
    obtain ⟨here, tail, next, takeSucc⟩ := iovTotal_take_succ split
    have smallLen : v.iovLen < 2 ^ 63 := lt_of_le_of_lt (iovLen_le_total split) small
    have started : done ≤ v.iovLen := by
      rcases within with rfl | ⟨v', head, lt⟩
      · exact Nat.zero_le _
      · obtain rfl := Option.some.inj head
        omega
    obtain ⟨less, len⟩ := Nat.exists_eq_add_of_le started
    -- the bytes of this segment, wherever the loop goes on
    have segment : ∀ i, i < less →
        v.iovBase + done + i = iovAddr (v :: rest) (done + (off + i - off)) := by
      intro i lt
      rw [Nat.add_sub_cancel_left, iovAddr_first (by omega), Nat.add_assoc]
    rcases Nat.lt_trichotomy size less with inside | rfl | beyond
    · rw [iovCopyLoop_inside len smallLen inside]
      have cursor : IovAt iov (iovTotal (iov.take n) + done + size) ⟨n, (done + size : Nat)⟩ :=
        .mk n (done + size) (by omega) (.inr ⟨v, here, by omega⟩) (by omega)
      refine ⟨cursor, rfl, ?_⟩
      exact .cons off _ size [] _ (fun i lt => segment i (by omega)) (.nil _)
    · rw [iovCopyLoop_end len smallLen]
      refine ⟨.mk (n + 1) 0 next (.inl rfl) ?_, rfl, ?_⟩
      · rw [takeSucc]
        omega
      · exact .cons off _ size [] _ segment (.nil _)
    · obtain ⟨more, rfl⟩ := Nat.exists_eq_add_of_le beyond.le
      rw [iovTotal_cons] at fits
      rw [iovCopyLoop_beyond len smallLen (by omega)]
      obtain ⟨cursor, nothingLeft, covered⟩ :=
        ih (n + 1) 0 more (off + less) tail (.inl rfl) (by omega) (by omega)
      have position : iovTotal (iov.take (n + 1)) + 0 + more =
          iovTotal (iov.take n) + done + (less + more) := by
        rw [takeSucc]
        omega
      rw [position] at cursor
      refine ⟨cursor, nothingLeft, ?_⟩
      refine .cons off _ less _ _ segment ?_
      rw [← Nat.add_assoc]
      apply covered.congr
      intro i low _
      have shift : done + (i - off) = v.iovLen + (0 + (i - (off + less))) := by omega
      rw [shift, iovAddr_rest]

theorem iovPlan_spec {iov : List Iovec} (small : iovTotal iov < 2 ^ 63) {d size : Nat}
    {cursor : IovCursor} (here : IovAt iov d cursor) (pos : 0 < size)
    (fits : d + size ≤ iovTotal iov) :
    IovAt iov (d + size) (iovPlan iov cursor size).1 ∧ (iovPlan iov cursor size).2.2 = 0 ∧
      Covers (fun i => iovAddr iov (d + i)) 0 (iovPlan iov cursor size).2.1 size := by
  obtain ⟨n, done, le, within, rfl⟩ := here
  have whole : iovTotal (iov.take n) + iovTotal (iov.drop n) = iovTotal iov := by
    rw [← iovTotal_append, List.take_append_drop]
  have inside : done = 0 ∨ ∃ v, (iov.drop n).head? = some v ∧ done < v.iovLen := by
    rw [List.head?_drop]
    exact within
  obtain ⟨cursor, nothingLeft, covered⟩ :=
    iovCopyLoop_spec small n (iov.drop n) n done size 0 rfl inside pos (by omega)
  refine ⟨cursor, nothingLeft, ?_⟩
  rw [Nat.zero_add] at covered
  apply covered.congr
  intro i _ _
  have address := iovAddr_append (iov.take n) (iov.drop n) (done + i)
  rw [List.take_append_drop] at address
  rw [Nat.sub_zero, Nat.add_assoc, address]

theorem lt_ssize {total : Nat} (le : total ≤ maxTotal) : total < 2 ^ 63 := by
  rw [maxTotal_eq] at le
  omega

def iovCover (iov : List Iovec) (small : iovTotal iov ≤ maxTotal) :
    CoverSpec (iovPlan iov) (iovTotal iov) (iovAddr iov) where
  At := IovAt iov
  next := fun here pos fits =>
    ⟨(iovPlan_spec (lt_ssize small) here pos fits).1,
      (iovPlan_spec (lt_ssize small) here pos fits).2.1⟩
  covers := fun here pos fits => (iovPlan_spec (lt_ssize small) here pos fits).2.2

theorem iovAt_start (iov : List Iovec) : IovAt iov 0 ⟨0, 0⟩ :=
  .mk 0 0 (Nat.zero_le _) (.inl rfl) (by simp [iovTotal])

end Libsysve.AccIo
