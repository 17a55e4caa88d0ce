import Libsysve.VecMemcpy.Copying

/-!
# The vector copy is memcpy

Every label of libsysve_vec_memcpy.S is reached with some number of bytes copied, and from
there the copy ends with all of them copied.  The blocks for elements of 8 and of 4 bytes
differ in sizes and labels only.
-/

set_option autoImplicit false

namespace Libsysve.VecMemcpy

open Libsysve.ByteMemory Libsysve.Blocks Libsysve.Word64
open SReg

namespace Width

def pre : Width → Label
  | .byte4 => .pre4
  | .byte8 => .pre8

def vector : Width → Label
  | .byte4 => .vector4
  | .byte8 => .vector8

def loop : Width → Label
  | .byte4 => .loop4
  | .byte8 => .loop8

def rem1 : Width → Label
  | .byte4 => .rem4_1
  | .byte8 => .rem8_1

def rem2 : Width → Label
  | .byte4 => .rem4_2
  | .byte8 => .rem8_2

def post : Width → Label
  | .byte4 => .post4
  | .byte8 => .post8

/-- `(61)0` and `(62)0`. -/
def mask (w : Width) : Operand := mask0 (64 - w.shift)

theorem row_fits (w : Width) (u : VectorUnit) : w.bytes * u.mvl < 2 ^ 63 := by
  have fits := u.fits
  have le : w.bytes ≤ 8 := by cases w <;> decide
  exact lt_of_le_of_lt (Nat.mul_le_mul_right u.mvl le) fits

theorem and_mask (w : Width) (s : VeState) (x : BitVec 64) :
    (x &&& s.value w.mask).toNat = x.toNat % w.bytes := by
  have mask : s.value w.mask = .ofNat 64 (2 ^ w.shift - 1) := by cases w <;> rfl
  have low := and_low x (j := w.shift) (by cases w <;> decide)
  rw [mask, low, w.bytes_eq]

end Width

variable {u : VectorUnit} {c : CopyCall} {k : Nat} {s : VeState} {post : VeState → Prop}

theorem run_br (cond : Cond) (y z : Operand) (target : Label) (rest : List (VeInstr Label))
    (s : VeState) :
    (vecMemcpy u).runList (.br cond y z target :: rest) s =
      if cond.holds (s.value y) (s.value z) then .jump target s
      else (vecMemcpy u).runList rest s := by
  by_cases taken : cond.holds (s.value y) (s.value z) = true
  · have goes : (vecMemcpy u).exec (.br cond y z target) s = .jump target s := if_pos taken
    rw [Program.runList, goes, if_pos taken]
  · have goes : (vecMemcpy u).exec (.br cond y z target) s = .next s := if_neg taken
    rw [Program.runList_cons goes, if_neg taken]

theorem run_breq (r : SReg) (target : Label) (rest : List (VeInstr Label)) (s : VeState) :
    (vecMemcpy u).runList (.br .eq r 0 target :: rest) s =
      if (s.reg r).toNat = 0 then .jump target s else (vecMemcpy u).runList rest s := by
  have zero : Cond.holds (s.reg r) (.ofNat 64 0) .eq = true ↔ (s.reg r).toNat = 0 := by
    rw [Cond.holds, beq_iff_eq, ← BitVec.toNat_inj]
    rfl
  rw [run_br]
  exact if_congr zero rfl rfl

theorem run_brne_reg (r r' : SReg) (target : Label) (rest : List (VeInstr Label)) (s : VeState) :
    (vecMemcpy u).runList (.br .ne r r' target :: rest) s =
      if (s.reg r).toNat = (s.reg r').toNat then (vecMemcpy u).runList rest s
      else .jump target s := by
  have differ : Cond.holds (s.reg r) (s.reg r') .ne = true ↔
      ¬(s.reg r).toNat = (s.reg r').toNat := by
    rw [Cond.holds, bne_iff_ne, ne_eq, ← BitVec.toNat_inj]
  rw [run_br]
  exact (if_congr differ rfl rfl).trans (ite_not ..)

theorem run_brne (r : SReg) (target : Label) (rest : List (VeInstr Label)) (s : VeState) :
    (vecMemcpy u).runList (.br .ne r 0 target :: rest) s =
      if (s.reg r).toNat = 0 then (vecMemcpy u).runList rest s else .jump target s := by
  have zero : Cond.holds (s.reg r) (.ofNat 64 0) .ne = true ↔ ¬(s.reg r).toNat = 0 := by
    rw [Cond.holds, bne_iff_ne, ne_eq, ← BitVec.toNat_inj]
    rfl
  rw [run_br]
  exact (if_congr zero rfl rfl).trans (ite_not ..)

/-! ## The last bytes -/

theorem Copying.left_toNat (copying : Copying u c k s) : (s.reg s61).toNat = c.n - k := by
  have size := c.size
  rw [copying.left]
  exact ofNat_toNat (by omega)

section

variable (w : Width) (done : ∀ s, Copying u c c.n s → (vecMemcpy u).Ends .epilogue s post)
include done

theorem ends_post (copying : Copying u c k s) (lt : k < c.n) :
    (vecMemcpy u).Ends w.post s post := by
  have block : code w.post = [.ld1b s53 s62, .st1b s53 s63, .addu s62 1 s62, .addu s63 1 s63,
      .subu s61 s61 (mask0 63), .br .gt s61 0 w.post, .brAlways .epilogue] := by
    cases w <;> rfl
  have body : ∀ s, (∃ k, Copying u c k s ∧ k < c.n) →
      (∀ s', (∃ k, Copying u c k s' ∧ k < c.n) → (s'.reg s61).toNat < (s.reg s61).toNat →
        (vecMemcpy u).Ends w.post s' post) → (vecMemcpy u).Ends w.post s post := by
    rintro s ⟨k, copying, lt⟩ again
    obtain ⟨s', flow, copied⟩ := copying.copyByte lt (.inr rfl)
      [.br .gt s61 0 w.post, .brAlways .epilogue]
    have left := copied.left_toNat
    have before := copying.left_toNat
    have size := c.size
    have positive : Cond.holds (s'.value s61) (s'.value 0) .gt = true ↔ k + 1 < c.n := by
      have zero : (0#64).toNat < 2 ^ 63 := by decide
      have compared := slt_iff zero (show (s'.reg s61).toNat < 2 ^ 63 by omega)
      refine compared.trans ?_
      rw [left]
      simp only [BitVec.toNat_ofNat]
      omega
    rw [run_br] at flow
    by_cases more : k + 1 < c.n
    · rw [if_pos (positive.mpr more)] at flow
      exact .jump ((congrArg (fun l => (vecMemcpy u).runList l s) block).trans flow)
        (again s' ⟨k + 1, copied, more⟩ (by omega))
    · rw [if_neg (fun h => more (positive.mp h))] at flow
      have all : k + 1 = c.n := by omega
      exact .jump ((congrArg (fun l => (vecMemcpy u).runList l s) block).trans flow)
        (done s' (all ▸ copied))
  exact Program.Ends.loop (fun s => (s.reg s61).toNat) body s ⟨k, copying, lt⟩

theorem ends_rem2 (copying : Copying u c k s) (few : c.n - k < w.bytes) :
    (vecMemcpy u).Ends w.rem2 s post := by
  have block : code w.rem2 = [.and s58 s61 w.mask, .br .eq s58 0 .epilogue] := by
    cases w <;> rfl
  have follows : after w.rem2 = some w.post := by cases w <;> rfl
  let s' := s.setReg s58 (s.reg s61 &&& s.value w.mask)
  have copied : Copying u c k s' := copying.setReg rfl _
  have le := copied.le
  have bytes : (s'.reg s58).toNat = c.n - k := by
    have masked : (s'.reg s58).toNat = (s.reg s61).toNat % w.bytes := w.and_mask s _
    rw [masked, copying.left_toNat, Nat.mod_eq_of_lt few]
  have flow : (vecMemcpy u).runList (code w.rem2) s =
      (vecMemcpy u).runList [.br .eq s58 0 .epilogue] s' :=
    congrArg (fun l => (vecMemcpy u).runList l s) block
  rw [run_breq, bytes] at flow
  by_cases all : k = c.n
  · rw [if_pos (by omega)] at flow
    exact .jump flow (done s' (all ▸ copied))
  · rw [if_neg (by omega)] at flow
    exact .fall flow follows (ends_post w done copied (by omega))

/-! ## Vectors -/

theorem ends_rem1 (copying : Copying u c k s) (aligned : Aligned w c k)
    (few : c.n - k < w.bytes * u.mvl) : (vecMemcpy u).Ends w.rem1 s post := by
  have block : code w.rem1 = [.sra s58 s61 w.shift, .br .eq s58 0 w.rem2, .lvl s58, w.load,
      w.store, .sla s58 s58 w.shift, .addu s63 s63 s58, .addu s62 s62 s58, .subu s61 s61 s58] := by
    cases w <;> rfl
  have follows : after w.rem1 = some w.rem2 := by cases w <;> rfl
  have size := c.size
  have pos := w.bytes_pos
  let s₁ := s.setReg s58 ((s.reg s61).sshiftRight w.shift)
  have at₁ : Copying u c k s₁ := copying.setReg rfl _
  have counted : s₁.reg s58 = .ofNat 64 ((c.n - k) / w.bytes) := by
    have shifted : s₁.reg s58 = (s.reg s61).sshiftRight w.shift := rfl
    rw [shifted, copying.left, sshiftRight_ofNat _ (by omega), w.bytes_eq]
  have countLt : (c.n - k) / w.bytes < u.mvl := Nat.div_lt_of_lt_mul few
  have count : (s₁.reg s58).toNat = (c.n - k) / w.bytes := by
    have fits := u.fits
    rw [counted, ofNat_toNat (by omega)]
  have shifts : (vecMemcpy u).exec (.sra s58 s61 w.shift) s = .next s₁ := rfl
  have flow : (vecMemcpy u).runList (code w.rem1) s = _ :=
    congrArg (fun l => (vecMemcpy u).runList l s) block
  rw [Program.runList_cons shifts, run_breq, count] at flow
  by_cases none : (c.n - k) / w.bytes = 0
  · rw [if_pos none] at flow
    exact .jump flow (ends_rem2 w done at₁ ((Nat.div_eq_zero_iff_lt pos).mp none))
  · let s₂ := s₁.setLength (s₁.reg s58).toNat
    have at₂ : Copying u c k s₂ := at₁.setLength (by omega) (by omega)
    have sets : (vecMemcpy u).exec (.lvl s58) s₁ = .next s₂ := if_pos (by omega)
    have whole : w.bytes * ((c.n - k) / w.bytes) ≤ c.n - k := Nat.mul_div_le _ _
    have some : w.bytes ≤ w.bytes * ((c.n - k) / w.bytes) :=
      Nat.le_mul_of_pos_right _ (by omega)
    obtain ⟨s₃, copies, regs, -, lengths, mem⟩ := run_vector (u := u) w
      (at₂.addrP (by omega)) (at₂.addrQ (by omega)) aligned.p aligned.q
      [.sla s58 s58 w.shift, .addu s63 s63 s58, .addu s62 s62 s58, .subu s61 s61 s58]
    rw [if_neg none, Program.runList_cons sets, copies] at flow
    have amount : s₂.reg s58 <<< w.shift = .ofNat 64 (w.bytes * ((c.n - k) / w.bytes)) := by
      have same : s₂.reg s58 = s₁.reg s58 := rfl
      rw [same, counted, shiftLeft_ofNat, w.bytes_eq, Nat.mul_comm]
    have vl : s₂.vl = (c.n - k) / w.bytes := count
    rw [vl] at mem
    have kept := at₂.kept.congr regs lengths
    refine .fall flow follows (ends_rem2 w done (k := k + w.bytes * ((c.n - k) / w.bytes))
      (at₂.advance (by omega) ?_ ?_ ?_ ?_ mem) ?_)
    · exact (((kept.setReg rfl _).setReg rfl _).setReg rfl _).setReg rfl _
    · simp [VeState.setReg_reg, amount, regs]
    · simp [VeState.setReg_reg, amount, regs]
    · simp [VeState.setReg_reg, amount, regs]
    · have rest := Nat.mod_add_div (c.n - k) w.bytes
      have small := Nat.mod_lt (c.n - k) pos
      omega

structure Looping (u : VectorUnit) (c : CopyCall) (w : Width) (k : Nat) (s : VeState) :
    Prop where
  copying : Copying u c k s
  aligned : Aligned w c k
  row : s.reg s56 = .ofNat 64 (w.bytes * u.mvl)
  vl : s.vl = u.mvl
  more : w.bytes * u.mvl ≤ c.n - k

omit done in
/-- One vector of the loop; the blocks step the pointers in different orders. -/
theorem Looping.copyRow (looping : Looping u c w k s) :
    ∃ s', (vecMemcpy u).runList (code w.loop) s =
        (vecMemcpy u).runList [.br .ge s61 s56 w.loop] s' ∧
      Copying u c (k + w.bytes * u.mvl) s' ∧ s'.reg s56 = s.reg s56 ∧ s'.vl = s.vl := by
  have row := Nat.mul_pos w.bytes_pos u.pos
  have more := looping.more
  let order : List (VeInstr Label) :=
    match w with
    | .byte8 => [.addu s63 s63 s56, .addu s62 s62 s56]
    | .byte4 => [.addu s62 s62 s56, .addu s63 s63 s56]
  have block : code w.loop = w.load :: w.store :: .subu s61 s61 s56 :: order ++
      [.br .ge s61 s56 w.loop] := by
    cases w <;> rfl
  obtain ⟨s₁, copies, regs, vl, lengths, mem⟩ := run_vector (u := u) w
    (looping.copying.addrP (by omega)) (looping.copying.addrQ (by omega)) looping.aligned.p
    looping.aligned.q (.subu s61 s61 s56 :: order ++ [.br .ge s61 s56 w.loop])
  have kept := looping.copying.kept.congr regs lengths
  rw [looping.vl] at mem
  have flow : (vecMemcpy u).runList (code w.loop) s = _ :=
    (congrArg (fun l => (vecMemcpy u).runList l s) block).trans copies
  cases w with
  | byte8 =>
    refine ⟨_, flow, looping.copying.advance (by omega) ?_ ?_ ?_ ?_ mem, ?_, vl⟩
    · exact ((kept.setReg rfl _).setReg rfl _).setReg rfl _
    all_goals simp [VeState.setReg_reg, regs, looping.row]
  | byte4 =>
    refine ⟨_, flow, looping.copying.advance (by omega) ?_ ?_ ?_ ?_ mem, ?_, vl⟩
    · exact ((kept.setReg rfl _).setReg rfl _).setReg rfl _
    all_goals simp [VeState.setReg_reg, regs, looping.row]

theorem ends_loop (looping : Looping u c w k s) : (vecMemcpy u).Ends w.loop s post := by
  have row := Nat.mul_pos w.bytes_pos u.pos
  have fits := w.row_fits u
  have body : ∀ s, (∃ k, Looping u c w k s) →
      (∀ s', (∃ k, Looping u c w k s') → (s'.reg s61).toNat < (s.reg s61).toNat →
        (vecMemcpy u).Ends w.loop s' post) → (vecMemcpy u).Ends w.loop s post := by
    rintro s ⟨k, looping⟩ again
    have more := looping.more
    have size := c.size
    obtain ⟨s', flow, copied, step, vl⟩ := looping.copyRow
    have before := looping.copying.left_toNat
    have left := copied.left_toNat
    have step : s'.reg s56 = .ofNat 64 (w.bytes * u.mvl) := step.trans looping.row
    have rowNat : (s'.reg s56).toNat = w.bytes * u.mvl := by rw [step, ofNat_toNat (by omega)]
    have enough : Cond.holds (s'.value s61) (s'.value s56) .ge = true ↔
        w.bytes * u.mvl ≤ c.n - (k + w.bytes * u.mvl) := by
      have compared := sle_iff (show (s'.reg s56).toNat < 2 ^ 63 by omega)
        (show (s'.reg s61).toNat < 2 ^ 63 by omega)
      rw [rowNat, left] at compared
      exact compared
    rw [run_br] at flow
    by_cases continues : w.bytes * u.mvl ≤ c.n - (k + w.bytes * u.mvl)
    · rw [if_pos (enough.mpr continues)] at flow
      have next : Looping u c w (k + w.bytes * u.mvl) s' :=
        ⟨copied, looping.aligned.more u.mvl, step, vl.trans looping.vl, continues⟩
      exact .jump flow (again s' ⟨_, next⟩ (by omega))
    · rw [if_neg (fun h => continues (enough.mp h))] at flow
      have follows : after w.loop = some w.rem1 := by cases w <;> rfl
      exact .fall flow follows
        (ends_rem1 w done copied (looping.aligned.more u.mvl) (by omega))
  exact Program.Ends.loop (fun s => (s.reg s61).toNat) body s ⟨k, looping⟩

theorem ends_vector (copying : Copying u c k s) (aligned : Aligned w c k) :
    (vecMemcpy u).Ends w.vector s post := by
  have block : code w.vector = [.smvl s57, .sla s56 s57 w.shift, .br .lt s61 s56 w.rem1,
      .lvl s57] := by
    cases w <;> rfl
  have follows : after w.vector = some w.loop := by cases w <;> rfl
  have fits := w.row_fits u
  have mvlFits := u.fits
  have size := c.size
  let s₁ := (s.setReg s57 (.ofNat 64 u.mvl)).setReg s56 (BitVec.ofNat 64 u.mvl <<< w.shift)
  have at₁ : Copying u c k s₁ := (copying.setReg rfl _).setReg rfl _
  have mvl : (s₁.reg s57).toNat = u.mvl := ofNat_toNat (by omega)
  have row : s₁.reg s56 = .ofNat 64 (w.bytes * u.mvl) := by
    have shifted : s₁.reg s56 = BitVec.ofNat 64 u.mvl <<< w.shift := rfl
    rw [shifted, shiftLeft_ofNat, w.bytes_eq, Nat.mul_comm]
  have rowNat : (s₁.reg s56).toNat = w.bytes * u.mvl := by rw [row, ofNat_toNat (by omega)]
  have left := at₁.left_toNat
  have few : Cond.holds (s₁.value s61) (s₁.value s56) .lt = true ↔ c.n - k < w.bytes * u.mvl := by
    have compared := slt_iff (show (s₁.reg s61).toNat < 2 ^ 63 by omega)
      (show (s₁.reg s56).toNat < 2 ^ 63 by omega)
    rw [rowNat, left] at compared
    exact compared
  have flow : (vecMemcpy u).runList (code w.vector) s = (vecMemcpy u).runList
      [.br .lt s61 s56 w.rem1, .lvl s57] s₁ :=
    congrArg (fun l => (vecMemcpy u).runList l s) block
  rw [run_br] at flow
  by_cases short : c.n - k < w.bytes * u.mvl
  · rw [if_pos (few.mpr short)] at flow
    exact .jump flow (ends_rem1 w done at₁ aligned short)
  · have pos := u.pos
    have sets : (vecMemcpy u).exec (.lvl s57) s₁ = .next (s₁.setLength (s₁.reg s57).toNat) :=
      if_pos (by omega)
    rw [if_neg (fun h => short (few.mp h)), Program.runList_cons sets] at flow
    exact .fall flow follows (ends_loop w done
      ⟨at₁.setLength (by omega) (by omega), aligned, row, mvl, by omega⟩)

/-! ## The first bytes -/

/-- Bytes are copied up to the next vector element of the destination, where the source is at
one as well. -/
theorem ends_pre (same : c.dest.toNat % w.bytes = c.src.toNat % w.bytes) (long : 8 ≤ c.n)
    (copying : Copying u c k s) (before : k < (c.dest.toNat + k) % w.bytes) :
    (vecMemcpy u).Ends w.pre s post := by
  have block : code w.pre = [.ld1b s60 s62, .st1b s60 s63, .addu s62 1 s62, .addu s63 1 s63,
      .subu s61 s61 (mask0 63), .and s59 s63 w.mask, .br .ne s59 0 w.pre] := by
    cases w <;> rfl
  have follows : after w.pre = some w.vector := by cases w <;> rfl
  have body : ∀ s, (∃ k, Copying u c k s ∧ k < (c.dest.toNat + k) % w.bytes) →
      (∀ s', (∃ k, Copying u c k s' ∧ k < (c.dest.toNat + k) % w.bytes) →
        (s'.reg s61).toNat < (s.reg s61).toNat → (vecMemcpy u).Ends w.pre s' post) →
      (vecMemcpy u).Ends w.pre s post := by
    rintro s ⟨k, copying, before⟩ again
    have bound := Nat.mod_lt (c.dest.toNat + k) w.bytes_pos
    have bytes : w.bytes ≤ 8 := by cases w <;> decide
    have fits := c.destFits
    obtain ⟨s₁, copies, copied⟩ := copying.copyByte (by omega) (.inl rfl)
      [.and s59 s63 w.mask, .br .ne s59 0 w.pre]
    let s₂ := s₁.setReg s59 (s₁.reg s63 &&& s₁.value w.mask)
    have at₂ : Copying u c (k + 1) s₂ := copied.setReg rfl _
    have offset : (s₂.reg s59).toNat = (c.dest.toNat + (k + 1)) % w.bytes := by
      have masked : (s₂.reg s59).toNat = (s₁.reg s63).toNat % w.bytes := w.and_mask s₁ _
      rw [masked, copied.p, add_toNat (by omega)]
    have flow : (vecMemcpy u).runList (code w.pre) s =
        (vecMemcpy u).runList [.br .ne s59 0 w.pre] s₂ :=
      (congrArg (fun l => (vecMemcpy u).runList l s) block).trans copies
    rw [run_brne, offset] at flow
    have left := at₂.left_toNat
    have leftBefore := copying.left_toNat
    have next := Nat.mod_add_mod (c.dest.toNat + k) w.bytes 1
    by_cases there : (c.dest.toNat + (k + 1)) % w.bytes = 0
    · rw [if_pos there] at flow
      have source : (c.src.toNat + (k + 1)) % w.bytes = 0 := by
        rw [← Nat.mod_add_mod, ← same, Nat.mod_add_mod, there]
      exact .fall flow follows (ends_vector w done at₂ ⟨there, source⟩)
    · rw [if_neg there] at flow
      have further : k + 1 < (c.dest.toNat + (k + 1)) % w.bytes := by
        rw [← Nat.add_assoc, ← next] at there ⊢
        have small : (c.dest.toNat + k) % w.bytes + 1 < w.bytes := by
          refine lt_of_le_of_ne bound fun all => there ?_
          rw [all, Nat.mod_self]
        rw [Nat.mod_eq_of_lt small]
        omega
      exact .jump flow (again s₂ ⟨k + 1, at₂, further⟩ (by omega))
  exact Program.Ends.loop (fun s => (s.reg s61).toNat) body s ⟨k, copying, before⟩

end

end Libsysve.VecMemcpy
