import Libsysve.VecMemcpy.Instr

/-!
# libsysve_vec_memcpy.S

`__libsysve_vec_memcpy(dest, src, n)`, block by block under the labels of the source.
-/

set_option autoImplicit false

namespace Libsysve.VecMemcpy

open Libsysve.ByteMemory Libsysve.Blocks
open SReg

/-- `entry` is `__libsysve_vec_memcpy`, the others are `.L_EoP` to `.L_epilogue`. -/
inductive Label where
  | entry | eoP | pre8 | vector8 | loop8 | rem8_1 | rem8_2 | post8
  | byte4 | pre4 | vector4 | loop4 | rem4_1 | rem4_2 | post4
  | scalar | scalarLoop | epilogue
deriving DecidableEq

def code : Label → List (VeInstr Label)
  | .entry =>
    [.st fp 0x0 sp, .st lr 0x8 sp, .st got 0x18 sp, .st plt 0x20 sp, .or fp 0 sp]
  | .eoP =>
    [.br .gt 40 s2 .scalar,
      .or s63 0 s0, .or s62 0 s1, .or s61 0 s2,
      .and s55 s0 (mask0 61), .and s54 s1 (mask0 61),
      .br .ne s55 s54 .byte4,
      .br .eq s55 0 .vector8]
  | .pre8 =>
    [.ld1b s60 s62, .st1b s60 s63, .addu s62 1 s62, .addu s63 1 s63, .subu s61 s61 (mask0 63),
      .and s59 s63 (mask0 61),
      .br .ne s59 0 .pre8]
  | .vector8 =>
    [.smvl s57, .sla s56 s57 3, .br .lt s61 s56 .rem8_1, .lvl s57]
  | .loop8 =>
    [.vld 8 s62, .vst 8 s63, .subu s61 s61 s56, .addu s63 s63 s56, .addu s62 s62 s56,
      .br .ge s61 s56 .loop8]
  | .rem8_1 =>
    [.sra s58 s61 3, .br .eq s58 0 .rem8_2, .lvl s58, .vld 8 s62, .vst 8 s63, .sla s58 s58 3,
      .addu s63 s63 s58, .addu s62 s62 s58, .subu s61 s61 s58]
  | .rem8_2 =>
    [.and s58 s61 (mask0 61), .br .eq s58 0 .epilogue]
  | .post8 =>
    [.ld1b s53 s62, .st1b s53 s63, .addu s62 1 s62, .addu s63 1 s63, .subu s61 s61 (mask0 63),
      .br .gt s61 0 .post8, .brAlways .epilogue]
  | .byte4 =>
    [.and s55 s0 (mask0 62), .and s54 s1 (mask0 62),
      .br .ne s55 s54 .scalar,
      .br .eq s55 0 .vector4]
  | .pre4 =>
    [.ld1b s60 s62, .st1b s60 s63, .addu s62 1 s62, .addu s63 1 s63, .subu s61 s61 (mask0 63),
      .and s59 s63 (mask0 62),
      .br .ne s59 0 .pre4]
  | .vector4 =>
    [.smvl s57, .sla s56 s57 2, .br .lt s61 s56 .rem4_1, .lvl s57]
  | .loop4 =>
    [.vldl 4 s62, .vstl 4 s63, .subu s61 s61 s56, .addu s62 s62 s56, .addu s63 s63 s56,
      .br .ge s61 s56 .loop4]
  | .rem4_1 =>
    [.sra s58 s61 2, .br .eq s58 0 .rem4_2, .lvl s58, .vldl 4 s62, .vstl 4 s63, .sla s58 s58 2,
      .addu s63 s63 s58, .addu s62 s62 s58, .subu s61 s61 s58]
  | .rem4_2 =>
    [.and s58 s61 (mask0 62), .br .eq s58 0 .epilogue]
  | .post4 =>
    [.ld1b s53 s62, .st1b s53 s63, .addu s62 1 s62, .addu s63 1 s63, .subu s61 s61 (mask0 63),
      .br .gt s61 0 .post4, .brAlways .epilogue]
  | .scalar =>
    [.or s63 0 s0, .or s62 0 s1, .or s61 0 s2, .and s59 s61 (mask1 61),
      .br .eq s59 0 .rem8_2]
  | .scalarLoop =>
    [.ld s58 0 s62, .st s58 0 s63, .addu s62 8 s62, .addu s63 8 s63,
      .adds s61 (.imm (-8)) s61,
      .and s59 s61 (mask1 61), .br .ne s59 0 .scalarLoop,
      .and s59 s61 (mask0 61), .br .ne s59 0 .post8]
  | .epilogue =>
    [.or sp 0 fp, .ld got 0x18 sp, .ld plt 0x20 sp, .ld lr 0x8 sp, .ld fp 0x0 sp, .bLr]

def after : Label → Option Label
  | .entry => some .eoP
  | .eoP => some .pre8
  | .pre8 => some .vector8
  | .vector8 => some .loop8
  | .loop8 => some .rem8_1
  | .rem8_1 => some .rem8_2
  | .rem8_2 => some .post8
  | .post8 => some .byte4
  | .byte4 => some .pre4
  | .pre4 => some .vector4
  | .vector4 => some .loop4
  | .loop4 => some .rem4_1
  | .rem4_1 => some .rem4_2
  | .rem4_2 => some .post4
  | .post4 => some .scalar
  | .scalar => some .scalarLoop
  | .scalarLoop => some .epilogue
  | .epilogue => none

def vecMemcpy (u : VectorUnit) : Program Label (VeInstr Label) VeState where
  code := code
  after := after
  exec := exec u

end Libsysve.VecMemcpy
