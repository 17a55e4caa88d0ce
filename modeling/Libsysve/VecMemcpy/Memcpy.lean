import Libsysve.VecMemcpy.Copy

/-!
# __libsysve_vec_memcpy is memcpy

The blocks that choose between vectors of 8 bytes, vectors of 4 bytes and scalar words, and the
prologue and epilogue around them.
-/

set_option autoImplicit false

namespace Libsysve.VecMemcpy

open Libsysve.ByteMemory Libsysve.Blocks Libsysve.Word64
open SReg

variable {u : VectorUnit} {c : CopyCall} {k : Nat} {s s' : VeState} {post : VeState → Prop}

theorem Kept.start (kept : Kept u c s) (mem : s.mem = c.mem) :
    Copying u c 0 (((s.setReg s63 (0 ||| s.reg s0)).setReg s62 (0 ||| s.reg s1)).setReg s61
      (0 ||| s.reg s2)) where
  kept := ((kept.setReg rfl _).setReg rfl _).setReg rfl _
  le := Nat.zero_le _
  p := by simp [VeState.setReg_reg, kept.dest]
  q := by simp [VeState.setReg_reg, kept.src]
  left := by simp [VeState.setReg_reg, kept.size]
  mem := by rw [copyRange_zero]; exact mem

/-! ## Scalar words -/

theorem and_mask1 (s : VeState) (x : BitVec 64) :
    (x &&& s.value (mask1 61)).toNat = 0 ↔ x.toNat < 8 := by
  have zero : (x &&& s.value (mask1 61)).toNat = 0 ↔ x &&& s.value (mask1 61) = 0 :=
    BitVec.toNat_inj (y := 0)
  exact zero.trans (and_high_eq_zero x (j := 3) (by decide))

theorem Copying.copyWord (copying : Copying u c k s) (le : k + 8 ≤ c.n)
    (rest : List (VeInstr Label)) :
    ∃ s', (vecMemcpy u).runList (.ld s58 0 s62 :: .st s58 0 s63 :: .addu s62 8 s62 ::
        .addu s63 8 s63 :: .adds s61 (.imm (-8)) s61 :: rest) s = (vecMemcpy u).runList rest s' ∧
      Copying u c (k + 8) s' := by
  refine ⟨_, rfl, copying.advance le ?_ ?_ ?_ ?_ ?_⟩
  · exact ((((copying.kept.setReg rfl _).setMem _).setReg rfl _).setReg rfl _).setReg rfl _
  · simp [VeState.setReg_reg, BitVec.add_comm]
  · simp [VeState.setReg_reg, BitVec.add_comm]
  · simp [VeState.setReg_reg, BitVec.sub_eq_add_neg, BitVec.add_comm]
  · have loaded : (BitVec.ofNat 64 (loadWord s.mem (c.src.toNat + k) 8)).toNat =
        loadWord s.mem (c.src.toNat + k) 8 := ofNat_toNat (loadWord_lt s.mem _ 8)
    have stored := storeWord_load s.mem s.mem (c.dest.toNat + k) (c.src.toNat + k) 8
    have other : s63 ≠ s58 := by decide
    rw [← stored, ← loaded, ← copying.addrP (by omega), ← copying.addrQ (by omega)]
    simp [VeState.setReg_reg, s.setReg_addr other]

section

variable (done : ∀ s, Copying u c c.n s → (vecMemcpy u).Ends .epilogue s post)
include done

theorem ends_scalarLoop (copying : Copying u c k s) (more : k + 8 ≤ c.n) :
    (vecMemcpy u).Ends .scalarLoop s post := by
  have body : ∀ s, (∃ k, Copying u c k s ∧ k + 8 ≤ c.n) →
      (∀ s', (∃ k, Copying u c k s' ∧ k + 8 ≤ c.n) → (s'.reg s61).toNat < (s.reg s61).toNat →
        (vecMemcpy u).Ends .scalarLoop s' post) → (vecMemcpy u).Ends .scalarLoop s post := by
    rintro s ⟨k, copying, more⟩ again
    obtain ⟨s₁, copies, copied⟩ := copying.copyWord more [.and s59 s61 (mask1 61),
      .br .ne s59 0 .scalarLoop, .and s59 s61 (mask0 61), .br .ne s59 0 .post8]
    have before := copying.left_toNat
    have left := copied.left_toNat
    let s₂ := s₁.setReg s59 (s₁.reg s61 &&& s₁.value (mask1 61))
    have at₂ : Copying u c (k + 8) s₂ := copied.setReg rfl _
    have words : (s₂.reg s59).toNat = 0 ↔ c.n - (k + 8) < 8 := left ▸ and_mask1 s₁ (s₁.reg s61)
    have flow : (vecMemcpy u).runList (code .scalarLoop) s = (vecMemcpy u).runList
        [.br .ne s59 0 .scalarLoop, .and s59 s61 (mask0 61), .br .ne s59 0 .post8] s₂ := copies
    rw [run_brne] at flow
    by_cases few : c.n - (k + 8) < 8
    · rw [if_pos (words.mpr few)] at flow
      let s₃ := s₂.setReg s59 (s₂.reg s61 &&& s₂.value (mask0 61))
      have at₃ : Copying u c (k + 8) s₃ := at₂.setReg rfl _
      have bytes : (s₃.reg s59).toNat = c.n - (k + 8) := by
        have masked : (s₃.reg s59).toNat = (s₂.reg s61).toNat % 8 := Width.byte8.and_mask s₂ _
        rw [masked, at₂.left_toNat, Nat.mod_eq_of_lt few]
      have masks : (vecMemcpy u).exec (.and s59 s61 (mask0 61)) s₂ = .next s₃ := rfl
      rw [Program.runList_cons masks, run_brne, bytes] at flow
      by_cases all : k + 8 = c.n
      · rw [if_pos (by omega)] at flow
        exact .fall flow rfl (done s₃ (all ▸ at₃))
      · rw [if_neg (by omega)] at flow
        exact .jump flow (ends_post .byte8 done at₃ (by omega))
    · rw [if_neg (fun h => few (words.mp h))] at flow
      exact .jump flow (again s₂ ⟨k + 8, at₂, by omega⟩ (by
        have now := at₂.left_toNat
        omega))
  exact Program.Ends.loop (fun s => (s.reg s61).toNat) body s ⟨k, copying, more⟩

theorem ends_scalar (kept : Kept u c s) (mem : s.mem = c.mem) :
    (vecMemcpy u).Ends .scalar s post := by
  have start := kept.start mem
  let s₁ := ((s.setReg s63 (0 ||| s.reg s0)).setReg s62 (0 ||| s.reg s1)).setReg s61
    (0 ||| s.reg s2)
  let s₂ := s₁.setReg s59 (s₁.reg s61 &&& s₁.value (mask1 61))
  have at₂ : Copying u c 0 s₂ := start.setReg rfl _
  have words : (s₂.reg s59).toNat = 0 ↔ c.n - 0 < 8 :=
    start.left_toNat ▸ and_mask1 s₁ (s₁.reg s61)
  have flow : (vecMemcpy u).runList (code .scalar) s =
      (vecMemcpy u).runList [.br .eq s59 0 .rem8_2] s₂ := rfl
  rw [run_breq] at flow
  by_cases few : c.n - 0 < 8
  · rw [if_pos (words.mpr few)] at flow
    exact .jump flow (ends_rem2 .byte8 done at₂ few)
  · rw [if_neg (fun h => few (words.mp h))] at flow
    exact .fall flow rfl (ends_scalarLoop done at₂ (by omega))

/-! ## The choice of the block -/

theorem ends_alignment (w : Width) {l other : Label}
    (flow : (vecMemcpy u).runList (code l) s = (vecMemcpy u).runList
      [.and s55 s0 w.mask, .and s54 s1 w.mask, .br .ne s55 s54 other, .br .eq s55 0 w.vector] s')
    (follows : after l = some w.pre) (copying : Copying u c 0 s') (long : 8 ≤ c.n)
    (otherwise : ∀ s, Copying u c 0 s → (vecMemcpy u).Ends other s post) :
    (vecMemcpy u).Ends l s post := by
  let s₁ := s'.setReg s55 (s'.reg s0 &&& s'.value w.mask)
  let s₂ := s₁.setReg s54 (s₁.reg s1 &&& s₁.value w.mask)
  have at₂ : Copying u c 0 s₂ := (copying.setReg rfl _).setReg rfl _
  have destOffset : (s₂.reg s55).toNat = c.dest.toNat % w.bytes := by
    have masked : (s₂.reg s55).toNat = (s'.reg s0).toNat % w.bytes := w.and_mask s' _
    rw [masked, copying.kept.dest]
  have srcOffset : (s₂.reg s54).toNat = c.src.toNat % w.bytes := by
    have masked : (s₂.reg s54).toNat = (s₁.reg s1).toNat % w.bytes := w.and_mask s₁ _
    have kept : s₁.reg s1 = s'.reg s1 := rfl
    rw [masked, kept, copying.kept.src]
  have flow : (vecMemcpy u).runList (code l) s = (vecMemcpy u).runList
      [.br .ne s55 s54 other, .br .eq s55 0 w.vector] s₂ := flow
  rw [run_brne_reg, destOffset, srcOffset] at flow
  by_cases same : c.dest.toNat % w.bytes = c.src.toNat % w.bytes
  · rw [if_pos same, run_breq, destOffset] at flow
    by_cases aligned : c.dest.toNat % w.bytes = 0
    · rw [if_pos aligned] at flow
      exact .jump flow (ends_vector w done at₂ ⟨aligned, same ▸ aligned⟩)
    · rw [if_neg aligned] at flow
      exact .fall flow follows (ends_pre w done same long at₂ (Nat.pos_of_ne_zero aligned))
  · rw [if_neg same] at flow
    exact .jump flow (otherwise s₂ at₂)

theorem ends_byte4 (copying : Copying u c 0 s) (long : 8 ≤ c.n) :
    (vecMemcpy u).Ends .byte4 s post := by
  refine ends_alignment done .byte4 rfl rfl copying long fun s' copying => ?_
  have mem : s'.mem = c.mem := copying.mem.trans (copyRange_zero _ _ _)
  exact ends_scalar done copying.kept mem

theorem ends_eoP (kept : Kept u c s) (mem : s.mem = c.mem) :
    (vecMemcpy u).Ends .eoP s post := by
  have size := c.size
  have short : Cond.holds (s.value 40) (s.value s2) .gt = true ↔ c.n < 40 := by
    have argument : (s.reg s2).toNat = c.n := by rw [kept.size, ofNat_toNat (by omega)]
    have limit : (40#64).toNat < 2 ^ 63 := by decide
    have compared := slt_iff (show (s.reg s2).toNat < 2 ^ 63 by omega) limit
    rw [argument] at compared
    exact compared
  have flow : (vecMemcpy u).runList (code .eoP) s = _ := run_br ..
  by_cases few : c.n < 40
  · rw [if_pos (short.mpr few)] at flow
    exact .jump flow (ends_scalar done kept mem)
  · rw [if_neg (fun h => few (short.mp h))] at flow
    exact ends_alignment done .byte8 flow rfl (kept.start mem) (by omega)
      fun s' copying => ends_byte4 done copying (by omega)

end

/-! ## The whole call -/

/-- The memory after the prologue. -/
def saved (s : VeState) : Memory :=
  let fpSaved := storeWord s.mem (s.addr 0x0 sp) (s.reg fp).toNat 8
  let lrSaved := storeWord fpSaved (s.addr 0x8 sp) (s.reg lr).toNat 8
  let gotSaved := storeWord lrSaved (s.addr 0x18 sp) (s.reg got).toNat 8
  storeWord gotSaved (s.addr 0x20 sp) (s.reg plt).toNat 8

/-- The stack save area of the function. -/
def SaveArea (s : VeState) (x : Nat) : Prop :=
  ∃ disp ∈ [0x0, 0x8, 0x18, 0x20], s.addr disp sp ≤ x ∧ x < s.addr disp sp + 8

/-- The arguments of `__libsysve_vec_memcpy(dest, src, n)` are as memcpy expects them, and no
vector length has been set yet. -/
structure ValidCall (start : VeState) : Prop where
  size : (start.reg s2).toNat < 2 ^ 63
  destFits : (start.reg s0).toNat + (start.reg s2).toNat ≤ 2 ^ 64
  srcFits : (start.reg s1).toNat + (start.reg s2).toNat ≤ 2 ^ 64
  apart : (start.reg s0).toNat + (start.reg s2).toNat ≤ (start.reg s1).toNat ∨
    (start.reg s1).toNat + (start.reg s2).toNat ≤ (start.reg s0).toNat
  fresh : start.setVl = []

/-- What memcpy promises.  A source byte can only differ from the one at the start when the
source lies in the save area. -/
structure Copied (u : VectorUnit) (start final : VeState) : Prop where
  bytes : ∀ i, i < (start.reg s2).toNat →
    final.mem ((start.reg s0).toNat + i) = final.mem ((start.reg s1).toNat + i)
  source : ∀ i, i < (start.reg s2).toNat → ¬SaveArea start ((start.reg s1).toNat + i) →
    final.mem ((start.reg s1).toNat + i) = start.mem ((start.reg s1).toNat + i)
  unchanged : ∀ x, x < (start.reg s0).toNat ∨ (start.reg s0).toNat + (start.reg s2).toNat ≤ x →
    ¬SaveArea start x → final.mem x = start.mem x
  lengths : ∀ vl ∈ final.setVl, 1 ≤ vl ∧ vl ≤ u.mvl
  returned : final.reg s0 = start.reg s0

theorem saved_outside {start : VeState} {x : Nat} (outside : ¬SaveArea start x) :
    saved start x = start.mem x := by
  have slot : ∀ disp ∈ [0x0, 0x8, 0x18, 0x20],
      x < start.addr disp sp ∨ start.addr disp sp + 8 ≤ x := by
    intro disp member
    by_contra inside
    exact outside ⟨disp, member, by omega, by omega⟩
  rw [saved, storeWord_outside _ _ (slot 0x20 (by decide)),
    storeWord_outside _ _ (slot 0x18 (by decide)), storeWord_outside _ _ (slot 0x8 (by decide)),
    storeWord_outside _ _ (slot 0x0 (by decide))]

def ValidCall.copyCall {start : VeState} (valid : ValidCall start) : CopyCall where
  dest := start.reg s0
  src := start.reg s1
  frame := start.reg sp
  n := (start.reg s2).toNat
  mem := saved start
  size := valid.size
  destFits := valid.destFits
  srcFits := valid.srcFits
  apart := valid.apart

theorem Copying.copied {start : VeState} (valid : ValidCall start)
    (copying : Copying u valid.copyCall valid.copyCall.n s) {final : VeState}
    (mem : final.mem = s.mem) (lengths : final.setVl = s.setVl)
    (returned : final.reg s0 = s.reg s0) : Copied u start final := by
  have apart := valid.apart
  have written : final.mem = copyRange (saved start) (start.reg s0).toNat (start.reg s1).toNat
      (start.reg s2).toNat := mem.trans copying.mem
  have untouched : ∀ x, x < (start.reg s0).toNat ∨
      (start.reg s0).toNat + (start.reg s2).toNat ≤ x → final.mem x = saved start x :=
    fun x outside => by rw [written]; exact overlay_outside _ _ outside
  exact
    { bytes := fun i lt => by
        have source := untouched ((start.reg s1).toNat + i) (by omega)
        rw [source, written]
        exact overlay_inside _ _ _ lt
      source := fun i lt outside => by
        rw [untouched _ (by omega), saved_outside outside]
      unchanged := fun x other outside => by
        rw [untouched x other, saved_outside outside]
      lengths := fun vl member => copying.kept.lengths vl (lengths ▸ member)
      returned := returned.trans copying.kept.dest }

/-- The vector copy is memcpy. -/
theorem vecMemcpy_copies (u : VectorUnit) {start : VeState} (valid : ValidCall start) :
    (vecMemcpy u).Ends .entry start (Copied u start) := by
  have done : ∀ s, Copying u valid.copyCall valid.copyCall.n s →
      (vecMemcpy u).Ends .epilogue s (Copied u start) := fun s copying =>
    .ret rfl (copying.copied valid rfl rfl rfl)
  let entered := (start.setMem (saved start)).setReg fp (0 ||| start.reg sp)
  have kept : Kept u valid.copyCall entered :=
    { dest := rfl
      src := rfl
      size := ((BitVec.ofNat_toNat ..).trans (BitVec.setWidth_eq _)).symm
      frame := BitVec.zero_or
      lengths := by
        have none : entered.setVl = [] := valid.fresh
        rw [none]
        exact fun vl member => absurd member List.not_mem_nil }
  have flow : (vecMemcpy u).runList (code .entry) start = .next entered := rfl
  exact .fall flow rfl (ends_eoP done kept rfl)

/-- Both addresses are 4 modulo 8: four bytes are copied first, then a vector of 256 elements, a
vector of 6 elements and one byte. -/
def callOf2101 : VeState where
  reg
    | s0 => 0x1004
    | s1 => 0x2004
    | s2 => 2101
    | sp => 0x8000
    | _ => 0
  mem a := a.toUInt8
  vl := 0
  v63 _ := 0
  setVl := []

theorem vecMemcpy_copies_2101 :
    ValidCall callOf2101 ∧
      (vecMemcpy ⟨256, by decide, by decide⟩).Ends .entry callOf2101
        (Copied ⟨256, by decide, by decide⟩ callOf2101) := by
  have valid : ValidCall callOf2101 :=
    ⟨by decide, by decide, by decide, .inl (by decide), rfl⟩
  exact ⟨valid, vecMemcpy_copies _ valid⟩

end Libsysve.VecMemcpy
