import Libsysve.AccIo.AccCall
import Libsysve.AccIo.Rounds
import Libsysve.Library.FlagBits

/-!
# Which chunk system calls carry the second-call mark

The mark is set in round 1 of the loops.  The read loops issue the chunk system call of
round `i` in round `i`, so their first call goes without it.  The write loops issue no call
before round 2: with two chunks or more the first call carries it already.
-/

set_option autoImplicit false

namespace Libsysve.AccIo

open Libsysve.ForLoop Libsysve.FlagBits

/-- The flags are bits that the VH addresses of the halves leave free. -/
structure FlagsFree (env : Env) (res : AccIoResources) : Prop where
  apart : Apart env.veAcceleratedIoFlag env.veSecondSysCallFlag
  second : env.veSecondSysCallFlag ≠ 0
  address : ∀ j : Half, Apart (res.vhBuff + parasSize * j)
    (env.veAcceleratedIoFlag ||| env.veSecondSysCallFlag)

/-- The buffer address of the `k`-th chunk system call: that of the half of chunk `k`, with
the flag of accelerated I/O, and with the second-call flag unless it is the first call. -/
structure MarkedCall (env : Env) (res : AccIoResources) (k : Nat) (c : ChunkCall) : Prop where
  half : c.half = half k
  buffer : c.addr.ldiff (env.veAcceleratedIoFlag ||| env.veSecondSysCallFlag) =
    res.vhBuff + parasSize * (AccIo.half k : Nat)
  accelerated : c.addr &&& env.veAcceleratedIoFlag = env.veAcceleratedIoFlag
  second : c.addr &&& env.veSecondSysCallFlag = if k = 0 then 0 else env.veSecondSysCallFlag

/-- Every chunk system call carries the flags it should. -/
def SecondMark (env : Env) (res : AccIoResources) (log : List IoEvent) : Prop :=
  ∀ k c, (chunkCalls log)[k]? = some c → MarkedCall env res k c

/-! ## The addresses -/

section
variable {env : Env} {res : AccIoResources}

theorem FlagsFree.info (free : FlagsFree env res) (j : Half) :
    (res.info env).vhBuffAndFlag j =
      (res.vhBuff + parasSize * j) ||| env.veAcceleratedIoFlag := by
  have base : Apart (res.vhBuff + parasSize * (0 : Half))
      (env.veAcceleratedIoFlag ||| env.veSecondSysCallFlag) := free.address 0
  rw [Fin.val_zero, Nat.mul_zero, Nat.add_zero] at base
  exact or_add (apart_or.mp base).1 (apart_or.mp (free.address j)).1

theorem FlagsFree.first (free : FlagsFree env res) {c : ChunkCall} (isHalf : c.half = half 0)
    (addr : c.addr = ((res.info env).atChunk env 0).vhBuffAndFlag (half 0)) :
    MarkedCall env res 0 c := by
  obtain ⟨noFirst, noSecond⟩ := apart_or.mp (free.address (half 0))
  have flagged : c.addr = (res.vhBuff + parasSize * (half 0 : Nat)) |||
      env.veAcceleratedIoFlag := addr.trans (free.info (half 0))
  have clear : c.addr &&& env.veSecondSysCallFlag = 0 := by
    rw [flagged, Nat.and_or_distrib_right, free.apart, noSecond]
    rfl
  have bits : Apart c.addr env.veSecondSysCallFlag := clear
  refine ⟨isHalf, ?_, ?_, clear⟩
  · have same : c.addr.ldiff (env.veAcceleratedIoFlag ||| env.veSecondSysCallFlag) =
        c.addr.ldiff env.veAcceleratedIoFlag := by
      apply Nat.eq_of_testBit_eq
      intro i
      have notBoth := bits.testBit i
      rw [Nat.testBit_ldiff, Nat.testBit_ldiff, Nat.testBit_or]
      cases inAddress : c.addr.testBit i <;> cases inFlag : env.veSecondSysCallFlag.testBit i <;>
        simp_all
    rw [same, flagged]
    exact ldiff_or noFirst
  · rw [flagged]
    exact or_and_self _ _

theorem FlagsFree.marked (free : FlagsFree env res) (j : Half) :
    ((res.info env).markSecond env).vhBuffAndFlag j = (res.vhBuff + parasSize * j) |||
      (env.veAcceleratedIoFlag ||| env.veSecondSysCallFlag) := by
  rw [← Nat.or_assoc, ← free.info j]
  rfl

theorem FlagsFree.second_set (free : FlagsFree env res) {c : ChunkCall} {j : Half}
    (addr : c.addr = ((res.info env).markSecond env).vhBuffAndFlag j) :
    c.addr &&& env.veSecondSysCallFlag = env.veSecondSysCallFlag := by
  rw [addr, free.marked j, ← Nat.or_assoc]
  exact or_and_self _ _

theorem FlagsFree.later (free : FlagsFree env res) {c : ChunkCall} {k : Nat} (pos : k ≠ 0)
    (isHalf : c.half = half k)
    (addr : c.addr = ((res.info env).markSecond env).vhBuffAndFlag (half k)) :
    MarkedCall env res k c := by
  refine ⟨isHalf, ?_, ?_, ?_⟩
  · rw [addr, free.marked]
    exact ldiff_or (free.address (half k))
  · rw [addr, free.marked, Nat.or_comm env.veAcceleratedIoFlag, ← Nat.or_assoc]
    exact or_and_self _ _
  · rw [if_neg pos]
    exact free.second_set addr

theorem FlagsFree.not_first (free : FlagsFree env res) {c : ChunkCall} {j : Half}
    (addr : c.addr = ((res.info env).markSecond env).vhBuffAndFlag j) :
    ¬MarkedCall env res 0 c := by
  intro mark
  have clear := mark.second
  rw [free.second_set addr, if_pos rfl] at clear
  exact free.second clear

end

/-! ## The calls of a transfer -/

/-- The `n` chunk system calls of a log, the `k`-th on the half of chunk `k` with the
addresses `io k`. -/
structure CallsWith (io : Nat → AccIoInfo) (n : Nat) (log : List IoEvent) : Prop where
  length : (chunkCalls log).length = n
  call : ∀ k c, (chunkCalls log)[k]? = some c →
    c.half = half k ∧ c.addr = (io k).vhBuffAndFlag (half k)

namespace CallsWith

variable {io : Nat → AccIoInfo} {n : Nat} {log later : List IoEvent}

theorem of_none {w : World} (fresh : w.Fresh) (io : Nat → AccIoInfo) : CallsWith io 0 w.log := by
  have log : w.log = [] := fresh.2.1
  rw [log]
  exact ⟨rfl, fun k c found => by simp at found⟩

theorem of_eq (h : CallsWith io n log) (same : chunkCalls later = chunkCalls log) :
    CallsWith io n later := by
  refine ⟨?_, ?_⟩
  · rw [same]
    exact h.length
  · rw [same]
    exact h.call

theorem snoc (h : CallsWith io n log) {c : ChunkCall}
    (added : chunkCalls later = chunkCalls log ++ [c]) (isHalf : c.half = half n)
    (addr : c.addr = (io n).vhBuffAndFlag (half n)) : CallsWith io (n + 1) later := by
  refine ⟨?_, ?_⟩
  · rw [added, List.length_append, h.length]
    rfl
  · intro k c' found
    rw [added] at found
    rcases Nat.lt_or_ge k (chunkCalls log).length with before | behind
    · rw [List.getElem?_append_left before] at found
      exact h.call k c' found
    · rw [List.getElem?_append_right behind, List.getElem?_singleton] at found
      split at found
      · have here : k = n := by
          have len := h.length
          omega
        obtain rfl := Option.some.inj found
        rw [here]
        exact ⟨isHalf, addr⟩
      · exact absurd found (by simp)

theorem mono_io {io' : Nat → AccIoInfo} (h : CallsWith io n log)
    (same : ∀ k, k < n → io k = io' k) : CallsWith io' n log := by
  refine ⟨h.length, ?_⟩
  intro k c found
  have inside : k < n := by
    rw [← h.length]
    exact (List.getElem?_eq_some_iff.mp found).1
  rw [← same k inside]
  exact h.call k c found

end CallsWith

section Effects

variable {Cursor : Type} (env : Env) (call : IoCall Cursor) (s : IoState Cursor)

@[simp] theorem chunkCalls_wait (j : Half) :
    chunkCalls (s.wait env j).2.world.log = chunkCalls s.world.log := by
  show chunkCalls (s.world.veDmaWait env j).2.log = _
  rw [World.veDmaWait_log, chunkCalls_snoc]
  exact List.append_nil _

@[simp] theorem chunkCalls_post (dir : DmaDir) (j : Half) (data : Int) :
    chunkCalls (s.post env dir j data).2.world.log = chunkCalls s.world.log := by
  show chunkCalls (s.world.veDmaPost env s.io dir j data).2.log = _
  rw [World.veDmaPost_log, chunkCalls_snoc]
  exact List.append_nil _

@[simp] theorem chunkCalls_deliver (plan : CopyPlan Cursor) (j : Half) :
    chunkCalls (s.deliver plan j).world.log = chunkCalls s.world.log := by
  show chunkCalls (s.world.log ++ [_]) = _
  rw [chunkCalls_snoc]
  exact List.append_nil _

@[simp] theorem chunkCalls_fill (plan : CopyPlan Cursor) (j : Half) :
    chunkCalls (s.fill plan j).2.world.log = chunkCalls s.world.log := by
  show chunkCalls (s.world.log ++ [_]) = _
  rw [chunkCalls_snoc]
  exact List.append_nil _

theorem chunkCalls_readSysCall (j : Half) :
    ∃ c, chunkCalls (s.readSysCall env call j).world.log = chunkCalls s.world.log ++ [c] ∧
      c.half = j ∧ c.addr = s.io.vhBuffAndFlag j := by
  have log : ∃ c, (s.readSysCall env call j).world.log = s.world.log ++ [.sysCall c] ∧
      c.half = j ∧ c.addr = s.io.vhBuffAndFlag j := ⟨_, rfl, rfl, rfl⟩
  obtain ⟨c, added, isHalf, addr⟩ := log
  refine ⟨c, ?_, isHalf, addr⟩
  rw [added, chunkCalls_snoc]

theorem chunkCalls_writeSysCall (j : Half) (size : Int) :
    ∃ c, chunkCalls (s.writeSysCall env call j size).2.world.log =
        chunkCalls s.world.log ++ [c] ∧
      c.half = j ∧ c.addr = s.io.vhBuffAndFlag j := by
  have log : ∃ c, (s.writeSysCall env call j size).2.world.log =
      s.world.log ++ [.sysCall c] ∧ c.half = j ∧ c.addr = s.io.vhBuffAndFlag j :=
    ⟨_, rfl, rfl, rfl⟩
  obtain ⟨c, added, isHalf, addr⟩ := log
  refine ⟨c, ?_, isHalf, addr⟩
  rw [added, chunkCalls_snoc]

theorem prepare_io {io : AccIoInfo} {i : Nat} {s : IoState Cursor}
    (before : s.io = io.atChunk env (i - 1)) :
    (s.prepare env call i).io = io.atChunk env i := by
  have marked : (if i = 1 then { s with io := s.io.markSecond env } else s).io =
      io.atChunk env i := by
    by_cases second : i = 1
    · simp [second, before, AccIoInfo.atChunk]
    · rw [if_neg second, before]
      unfold AccIoInfo.atChunk
      by_cases zero : i = 0
      · simp [zero]
      · rw [if_neg (by omega), if_neg zero]
  rw [← marked]
  simp only [IoState.prepare]
  split <;> rfl

end Effects

/-! ## Reads -/

section Reads

variable {Cursor : Type} {env : Env} {call : IoCall Cursor} {io : AccIoInfo} {i : Nat}
variable {s : IoState Cursor}

/-- A read before round `i`: round `k` has issued the call of chunk `k`. -/
structure ReadTurn (env : Env) (io : AccIoInfo) (i : Nat) (s : IoState Cursor) : Prop where
  addresses : s.io = io.atChunk env (i - 1)
  calls : CallsWith (io.atChunk env) i s.world.log

def ReadOver (env : Env) (io : AccIoInfo) (s : IoState Cursor) : Prop :=
  ∃ n, CallsWith (io.atChunk env) n s.world.log

theorem readIssue_turn (addresses : s.io = io.atChunk env i)
    (calls : CallsWith (io.atChunk env) i s.world.log) :
    (readIssue env call i s).Sat (ReadTurn env io (i + 1)) (ReadOver env io) := by
  obtain ⟨c, added, isHalf, addr⟩ := chunkCalls_readSysCall env call s (half i)
  rw [addresses] at addr
  have asked := calls.snoc added isHalf addr
  have posted := asked.of_eq (chunkCalls_post env (s.readSysCall env call (half i)) .vhToVe
    (half i) ((s.readSysCall env call (half i)).halfSize (half i)))
  apply readIssue_rule rfl rfl
  · intro _
    refine ⟨i + 1, ?_⟩
    show CallsWith _ _ (((s.readSysCall env call (half i)).firstError (i = 0)).world.log)
    rw [IoState.firstError_world]
    exact asked
  · intro _
    exact ⟨i + 1, asked⟩
  · intro _ _ _
    exact ⟨i + 1, posted⟩
  · intro _ _ _ _
    exact ⟨i + 1, posted⟩
  · intro _ _ _
    exact ⟨addresses, posted⟩

theorem ReadTurn.readBody (turn : ReadTurn env io i s) :
    (readBody env call i s).Sat (ReadTurn env io (i + 1)) (ReadOver env io) := by
  have addresses := prepare_io env call turn.addresses
  have calls : CallsWith (io.atChunk env) i (s.prepare env call i).world.log := by
    rw [IoState.prepare_world]
    exact turn.calls
  have waited := calls.of_eq (chunkCalls_wait env (s.prepare env call i) (half i))
  apply readBody_rule rfl rfl
  · intro _
    exact readIssue_turn addresses calls
  · intro _ _
    exact ⟨i, waited⟩
  · intro _ _
    exact readIssue_turn addresses (waited.of_eq (chunkCalls_deliver _ _ _))

theorem ReadOver.readDrainStep (done : ReadOver env io s) (index : Half) :
    ReadOver env io (readDrainStep env call index s) := by
  obtain ⟨n, calls⟩ := done
  apply readDrainStep_rule
  · intro _
    exact ⟨n, calls⟩
  · intro k _ _
    exact ⟨n, calls.of_eq (chunkCalls_wait env s (half k))⟩
  · intro k _ _ _
    exact ⟨n, calls.of_eq (chunkCalls_wait env s (half k))⟩
  · intro k _ _ _
    have waited := calls.of_eq (chunkCalls_wait env s (half k))
    exact ⟨n, waited.of_eq (chunkCalls_deliver _ _ _)⟩

variable (env call io) in
theorem readTransfer_calls {w : World} (fresh : w.Fresh) (cursor : Cursor) (ofs : Int) :
    ReadOver env io (readTransfer env call (.start w io cursor ofs)) := by
  have start : ReadTurn env io 0 (IoState.start w io cursor ofs) := ⟨rfl, .of_none fresh _⟩
  have looped : ReadOver env io
      (forLoop (readBody env call) call.chunkNum 0 (.start w io cursor ofs)) :=
    forLoop_rule (fun i s _ (turn : ReadTurn env io i s) => turn.readBody)
      (fun s turn => ⟨call.chunkNum, turn.calls⟩) call.chunkNum 0 _ (Nat.zero_add _) start
  exact (looped.readDrainStep _).readDrainStep _

end Reads

/-! ## Writes -/

section Writes

variable {Cursor : Type} {env : Env} {call : IoCall Cursor} {io : AccIoInfo} {i : Nat}
variable {s : IoState Cursor}

/-- The DMA of one of the first two chunks is refused, or that of the first one fails.  Then a
write of two chunks or more issues no chunk system call. -/
def FirstChunkLost (env : Env) : Prop :=
  env.postOk 0 = false ∨ env.postOk 1 = false ∨ 1 ≤ env.waitCode 0

structure WriteTurn (env : Env) (io : AccIoInfo) (i : Nat) (s : IoState Cursor) : Prop where
  addresses : s.io = io.atChunk env (i - 1)
  calls : CallsWith (fun _ => io.markSecond env) (i - 2) s.world.log
  dataErr : s.dataErr = false
  paced : Paced env i s

structure WriteMid (env : Env) (io : AccIoInfo) (i n : Nat) (s : IoState Cursor) : Prop where
  addresses : s.io = io.atChunk env i
  calls : CallsWith (fun _ => io.markSecond env) n s.world.log
  dataErr : s.dataErr = false
  paced : PacedMid env i s

/-- A write of `num` chunks that issues no chunk system call any more. -/
structure WriteStopped (env : Env) (io : AccIoInfo) (num : Nat) (s : IoState Cursor) :
    Prop where
  dataErr : s.dataErr = true
  calls : ∃ n, CallsWith (fun _ => io.markSecond env) n s.world.log ∧ n ≤ num - 2 ∧
    (n = 0 ↔ FirstChunkLost env)

theorem not_lost {n : Nat} (two : 2 ≤ n) (posts : ∀ k, k < n → env.postOk k = true)
    (wait : env.waitCode 0 = 0) : ¬FirstChunkLost env := by
  rintro (first | second | failed)
  · rw [posts 0 (by omega)] at first
    exact absurd first (by decide)
  · rw [posts 1 (by omega)] at second
    exact absurd second (by decide)
  · omega

theorem WriteMid.writeIssue (mid : WriteMid env io i (i + 1 - 2) s) (inside : i < call.chunkNum) :
    (writeIssue env call i s).Sat (WriteTurn env io (i + 1))
      (WriteStopped env io call.chunkNum) := by
  have filled := mid.calls.of_eq (chunkCalls_fill s call.plan (half i))
  have posted := filled.of_eq (chunkCalls_post env (s.fill call.plan (half i)).2 .veToVh
    (half i) (s.fill call.plan (half i)).2.transferSize)
  have paced : PacedMid env i (s.fill call.plan (half i)).2 := mid.paced.of_eq rfl rfl rfl
  apply writeIssue_rule rfl rfl
  · intro refused
    rw [paced.postCount] at refused
    refine ⟨rfl, i + 1 - 2, posted, by omega, ?_⟩
    constructor
    · intro none
      have early : i = 0 ∨ i = 1 := by omega
      rcases early with rfl | rfl
      · exact .inl refused
      · exact .inr (.inl refused)
    · intro lost
      by_contra some
      exact not_lost (show 2 ≤ i by omega) paced.posts (paced.waits 0 (by omega)) lost
  · intro accepted
    exact ⟨mid.addresses, posted, mid.dataErr, paced.record accepted
      (IoState.recordWrite_self ..) (fun j other => IoState.recordWrite_other _ _ _ other) rfl rfl⟩

theorem WriteMid.accept {n : Nat} (mid : WriteMid env io i n s) (ret : Int) :
    WriteMid env io i n (s.accept ret) :=
  ⟨mid.addresses, mid.calls, mid.dataErr, mid.paced.of_eq rfl rfl rfl⟩

theorem WriteMid.writeSysCall (mid : WriteMid env io i (i - 2) s) (two : 2 ≤ i) (size : Int) :
    WriteMid env io i (i + 1 - 2) (s.writeSysCall env call (half i) size).2 := by
  obtain ⟨c, added, isHalf, addr⟩ := chunkCalls_writeSysCall env call s (half i) size
  have marked : s.io = io.markSecond env := by
    rw [mid.addresses, AccIoInfo.atChunk, if_neg (by omega)]
  rw [marked] at addr
  rw [← half_sub_two two] at isHalf addr
  have next : i + 1 - 2 = i - 2 + 1 := by omega
  refine ⟨mid.addresses, ?_, mid.dataErr, mid.paced.of_eq rfl rfl rfl⟩
  rw [next]
  exact mid.calls.snoc added isHalf addr

theorem WriteMid.stopped (mid : WriteMid env io i (i + 1 - 2) s) (two : 2 ≤ i)
    (inside : i < call.chunkNum) {s' : IoState Cursor} (dataErr : s'.dataErr = true)
    (log : s'.world.log = s.world.log) : WriteStopped env io call.chunkNum s' := by
  refine ⟨dataErr, i + 1 - 2, by rw [log]; exact mid.calls, by omega, ?_⟩
  constructor
  · intro none
    omega
  · intro lost
    exact absurd lost (not_lost two mid.paced.posts (mid.paced.waits 0 (by omega)))

theorem WriteMid.writeFlush (mid : WriteMid env io i (i - 2) s) (two : 2 ≤ i)
    (inside : i < call.chunkNum) :
    (writeFlush env call i s).Sat (WriteTurn env io (i + 1))
      (WriteStopped env io call.chunkNum) := by
  have asked : WriteMid env io i (i + 1 - 2)
      (s.writeSysCall env call (half i) parasSize).2 := mid.writeSysCall two parasSize
  apply writeFlush_rule rfl rfl
  · intro _
    refine asked.stopped two inside rfl ?_
    show ((s.writeSysCall env call (half i) parasSize).2.firstError _).world.log = _
    rw [IoState.firstError_world]
  · intro _
    exact asked.stopped two inside rfl rfl
  · intro _ _
    exact asked.stopped two inside rfl rfl
  · intro _ _
    exact (asked.accept _).writeIssue inside

theorem WriteTurn.writeBody (turn : WriteTurn env io i s) (inside : i < call.chunkNum) :
    (writeBody env call i s).Sat (WriteTurn env io (i + 1))
      (WriteStopped env io call.chunkNum) := by
  have addresses := prepare_io env call turn.addresses
  have paced : Paced env i (s.prepare env call i) := turn.paced.prepare
  have dataErr : (s.prepare env call i).dataErr = false := by
    obtain ⟨io', size, frame⟩ := s.prepare_frame env call i
    rw [frame]
    exact turn.dataErr
  have calls : CallsWith (fun _ => io.markSecond env) (i - 2) (s.prepare env call i).world.log := by
    rw [IoState.prepare_world]
    exact turn.calls
  have waited := calls.of_eq (chunkCalls_wait env (s.prepare env call i) (half i))
  apply writeBody_rule rfl rfl
  · intro first
    have none : i + 1 - 2 = i - 2 := by
      simp only [buffNparas] at first
      omega
    rw [← none] at calls
    exact WriteMid.writeIssue ⟨addresses, calls, dataErr, paced.first first⟩ inside
  · intro second bad
    simp only [buffNparas] at second
    rw [paced.waitCount] at bad
    refine ⟨rfl, i - 2, waited, by omega, ?_⟩
    constructor
    · intro none
      rw [none] at bad
      exact .inr (.inr bad)
    · intro lost
      by_contra some
      exact not_lost second paced.posts (paced.waits 0 (by omega)) lost
  · intro second fine
    exact WriteMid.writeFlush ⟨addresses, waited, dataErr, paced.wait second fine⟩ second inside

theorem WriteStopped.writeDrainStep {num : Nat} (stopped : WriteStopped env io num s)
    (index : Half) : WriteStopped env io num (writeDrainStep env call index s) := by
  obtain ⟨dataErr, n, calls, le, lost⟩ := stopped
  apply writeDrainStep_rule
  · intro _
    exact ⟨dataErr, n, calls, le, lost⟩
  · intro k _ _
    exact ⟨rfl, n, calls.of_eq (chunkCalls_wait env s (half k)), le, lost⟩
  · intro k _ _ _
    exact ⟨dataErr, n, calls.of_eq (chunkCalls_wait env s (half k)), le, lost⟩
  · intro k _ _ fine
    rw [dataErr] at fine
    exact absurd fine (by decide)

inductive DrainCall (env : Env) (n : Nat) (s s' : IoState Cursor) : Prop where
  | none (dataErr : s'.dataErr = true) (same : chunkCalls s'.world.log = chunkCalls s.world.log)
      (failed : s.dataErr = false → 1 ≤ env.waitCode s.world.waitCount)
  | issued (fine : env.waitCode s.world.waitCount = 0) (before : s.dataErr = false) (c : ChunkCall)
      (added : chunkCalls s'.world.log = chunkCalls s.world.log ++ [c]) (isHalf : c.half = half n)
      (addr : c.addr = s.io.vhBuffAndFlag (half n))

structure DrainStep (env : Env) (n : Nat) (s s' : IoState Cursor) : Prop where
  io : s'.io = s.io
  posted : s'.posted = s.posted
  call : DrainCall env n s s'

theorem writeDrainStep_found {index : Half} {n : Nat} (found : s.posted index = some n) :
    DrainStep env n s (writeDrainStep env call index s) := by
  have same := chunkCalls_wait env s (half n)
  apply writeDrainStep_rule
  · intro none
    rw [none] at found
    exact absurd found (by simp)
  · intro k here bad
    obtain rfl := Option.some.inj (found.symm.trans here)
    exact ⟨rfl, rfl, .none rfl same fun _ => bad⟩
  · intro k here _ err
    obtain rfl := Option.some.inj (found.symm.trans here)
    refine ⟨rfl, rfl, .none err same fun fine => ?_⟩
    rw [err] at fine
    exact absurd fine (by decide)
  · intro k here fine before
    obtain rfl := Option.some.inj (found.symm.trans here)
    obtain ⟨c, added, isHalf, addr⟩ := chunkCalls_writeSysCall env call (s.wait env (half n)).2
      (half n) (s.halfSize (half n))
    rw [same] at added
    apply writeDrainCall_rule rfl rfl rfl
    · intro _
      refine ⟨IoState.firstError_io _ _, IoState.firstError_posted _ _,
        .issued fine before c ?_ isHalf addr⟩
      show chunkCalls ((IoState.firstError _ _).world.log) = _
      rw [IoState.firstError_world]
      exact added
    · intro _
      exact ⟨rfl, rfl, .issued fine before c added isHalf addr⟩
    · intro _ _
      exact ⟨rfl, rfl, .issued fine before c added isHalf addr⟩
    · intro _ _
      exact ⟨rfl, rfl, .issued fine before c added isHalf addr⟩

structure WriteOver (env : Env) (io : AccIoInfo) (num : Nat) (s : IoState Cursor) : Prop where
  calls : ∃ n, CallsWith (fun _ => io.atChunk env (num - 1)) n s.world.log ∧ n ≤ num ∧
    (2 ≤ num → (n = 0 ↔ FirstChunkLost env))

theorem WriteStopped.isOver {num : Nat} (stopped : WriteStopped env io num s) :
    WriteOver env io num s := by
  obtain ⟨_, n, calls, le, lost⟩ := stopped
  refine ⟨n, calls.mono_io ?_, by omega, fun _ => lost⟩
  intro k inside
  rw [AccIoInfo.atChunk, if_neg (by omega)]

theorem WriteTurn.drain_zero (turn : WriteTurn env io 0 s) :
    WriteOver env io 0 (writeDrain env call s) := by
  obtain ⟨here, there⟩ := turn.paced.free (by omega)
  have nothing : ∀ j, s.posted j = none := by
    intro j
    rcases half_cases 0 j with rfl | rfl
    · exact here
    · exact there rfl
  have same : writeDrain env call s = s := by
    unfold writeDrain
    dsimp only
    rw [writeDrainStep_none (nothing _), writeDrainStep_none (nothing _)]
  rw [same]
  exact ⟨0, turn.calls.mono_io (by omega), by omega, by omega⟩

theorem WriteTurn.drain_one (turn : WriteTurn env io 1 s) :
    WriteOver env io 1 (writeDrain env call s) := by
  obtain ⟨addresses, calls, _, paced⟩ := turn
  have zero : s.posted (half 0) = some 0 := paced.posted 0 (by omega) (by omega)
  have one : s.posted (half 1) = none := (paced.free (le_refl 1)).1
  have min : veFindMinPosted s.posted = half 0 := veFindMinPosted_eq zero (.inl one)
  have step : DrainStep env 0 s (writeDrainStep env call (half 0) s) :=
    writeDrainStep_found zero
  obtain ⟨_, kept, outcome⟩ := step
  have second : writeDrain env call s = writeDrainStep env call (half 0) s := by
    have nothing : (writeDrainStep env call (half 0) s).posted (half 1) = none := by
      rw [kept]
      exact one
    rw [writeDrain_eq min]
    exact writeDrainStep_none nothing
  rw [second]
  cases outcome with
  | none _ same _ =>
    refine ⟨0, ?_, by omega, by omega⟩
    exact (calls.of_eq same).mono_io (by omega)
  | issued _ _ c added isHalf addr =>
    refine ⟨1, ?_, le_refl 1, by omega⟩
    have begun : CallsWith (fun _ => io.atChunk env 0) 0 s.world.log := calls.mono_io (by omega)
    rw [addresses] at addr
    exact begun.snoc added isHalf addr

theorem WriteTurn.drain_two {num : Nat} (two : 2 ≤ num) (turn : WriteTurn env io num s) :
    WriteOver env io num (writeDrain env call s) := by
  obtain ⟨addresses, calls, dataErr, ⟨posted, _, _, waitCount, posts, waits⟩⟩ := turn
  obtain ⟨n, rfl⟩ := Nat.exists_eq_add_of_le' two
  have older : s.posted (half n) = some n := posted n (by omega) (by omega)
  have newer : s.posted (half (n + 1)) = some (n + 1) := posted (n + 1) (by omega) (by omega)
  have min : veFindMinPosted s.posted = half n := veFindMinPosted_eq older (.inr newer)
  have step : DrainStep env n s (writeDrainStep env call (half n) s) :=
    writeDrainStep_found older
  obtain ⟨keptIo, keptPosted, outcome⟩ := step
  have last : (writeDrainStep env call (half n) s).posted (half (n + 1)) = some (n + 1) := by
    rw [keptPosted]
    exact newer
  have step' : DrainStep env (n + 1) (writeDrainStep env call (half n) s)
      (writeDrainStep env call (half (n + 1)) (writeDrainStep env call (half n) s)) :=
    writeDrainStep_found last
  have outcome' := step'.call
  rw [writeDrain_eq min]
  generalize writeDrainStep env call (half n) s = s' at keptIo outcome outcome' ⊢
  generalize writeDrainStep env call (half (n + 1)) s' = s'' at outcome' ⊢
  have waited : s.world.waitCount = n := waitCount
  have marked : io.atChunk env (n + 1) = io.markSecond env := by
    rw [AccIoInfo.atChunk, if_neg (by omega)]
  have begun : CallsWith (fun _ => io.atChunk env (n + 1)) n s.world.log := by
    rw [marked]
    exact calls
  cases outcome with
  | none err same failed =>
    -- the wait has failed: no call is issued any more
    have bad := failed dataErr
    rw [waited] at bad
    cases outcome' with
    | issued _ before _ _ _ _ =>
      rw [err] at before
      exact absurd before (by decide)
    | none _ same' _ =>
      refine ⟨n, begun.of_eq (same'.trans same), by omega, fun _ => ?_⟩
      constructor
      · intro zero
        rw [zero] at bad
        exact .inr (.inr bad)
      · intro lost
        by_contra some
        exact not_lost (show 2 ≤ n + 2 by omega) posts (waits 0 (by omega)) lost
  | issued fine _ c added isHalf addr =>
    rw [waited] at fine
    have kept : ¬FirstChunkLost env := by
      refine not_lost (show 2 ≤ n + 2 by omega) posts ?_
      rcases Nat.eq_zero_or_pos n with zero | pos
      · rw [zero] at fine
        exact fine
      · exact waits 0 (by omega)
    rw [addresses] at addr
    have first := begun.snoc added isHalf addr
    cases outcome' with
    | none _ same' _ =>
      refine ⟨n + 1, first.of_eq same', by omega, fun _ => ?_⟩
      exact iff_of_false (by omega) kept
    | issued _ _ c' added' isHalf' addr' =>
      rw [keptIo, addresses] at addr'
      refine ⟨n + 2, first.snoc added' isHalf' addr', le_refl _, fun _ => ?_⟩
      exact iff_of_false (by omega) kept

theorem WriteTurn.drain {num : Nat} (turn : WriteTurn env io num s) :
    WriteOver env io num (writeDrain env call s) := by
  rcases Nat.lt_or_ge num 2 with few | two
  · have cases : num = 0 ∨ num = 1 := by omega
    rcases cases with rfl | rfl
    · exact turn.drain_zero
    · exact turn.drain_one
  · exact turn.drain_two two

variable (env call io) in
theorem writeTransfer_calls {w : World} (fresh : w.Fresh) (cursor : Cursor) (ofs : Int) :
    WriteOver env io call.chunkNum (writeTransfer env call (.start w io cursor ofs)) := by
  have start : WriteTurn env io 0 (IoState.start w io cursor ofs) :=
    ⟨rfl, .of_none fresh _, rfl, .start fresh io cursor ofs⟩
  have step : ∀ i s, i < call.chunkNum → WriteTurn env io i s → (writeBody env call i s).Sat
      (WriteTurn env io (i + 1)) (WriteStopped env io call.chunkNum) := by
    intro i s inside turn
    exact turn.writeBody inside
  rcases forLoop_ends step start with turn | stopped
  · exact turn.drain
  · exact ((stopped.writeDrainStep _).writeDrainStep _).isOver

end Writes

/-! ## The mark -/

section
variable {env : Env} {res : AccIoResources}

theorem CallsWith.secondMark {n : Nat} {log : List IoEvent}
    (calls : CallsWith ((res.info env).atChunk env) n log) (free : FlagsFree env res) :
    SecondMark env res log := by
  intro k c found
  obtain ⟨isHalf, addr⟩ := calls.call k c found
  by_cases first : k = 0
  · subst first
    exact free.first isHalf addr
  · rw [AccIoInfo.atChunk, if_neg first] at addr
    exact free.later first isHalf addr

theorem WriteOver.secondMark_iff {Cursor : Type} {num : Nat} {s : IoState Cursor}
    (done : WriteOver env (res.info env) num s) (free : FlagsFree env res) :
    SecondMark env res s.world.log ↔ num ≤ 1 ∨ FirstChunkLost env := by
  obtain ⟨n, calls, le, lost⟩ := done
  rcases Nat.lt_or_ge num 2 with few | two
  · -- one call at most, with the addresses it was given
    refine iff_of_true ?_ (.inl (by omega))
    apply (calls.mono_io _).secondMark free
    intro k inside
    have first : k = 0 := by omega
    have last : num - 1 = 0 := by omega
    rw [first, last]
  · have marked : ∀ k c, (chunkCalls s.world.log)[k]? = some c → c.half = half k ∧
        c.addr = ((res.info env).markSecond env).vhBuffAndFlag (half k) := by
      intro k c found
      have here := calls.call k c found
      rwa [AccIoInfo.atChunk, if_neg (by omega)] at here
    have none : n = 0 ↔ SecondMark env res s.world.log := by
      constructor
      · intro zero k c found
        have short := (List.getElem?_eq_some_iff.mp found).1
        have length := calls.length
        omega
      · intro mark
        by_contra some
        have length := calls.length
        have begun : 0 < (chunkCalls s.world.log).length := by omega
        have found := List.getElem?_eq_getElem begun
        exact free.not_first (marked 0 _ found).2 (mark 0 _ found)
    rw [← none, lost two]
    constructor
    · intro first
      exact .inr first
    · rintro (few | first)
      · omega
      · exact first

end

theorem finish_secondMark {env : Env} {res : AccIoResources} {Cursor : Type}
    (s : IoState Cursor) :
    SecondMark env res s.finish.world.log ↔ SecondMark env res s.world.log := by
  rw [finish_log]

namespace AccCall

def isRead : AccCall → Bool
  | .readPread _ _ => true
  | .readvPreadv _ => true
  | .writePwrite _ _ => false
  | .writevPwritev _ => false

def chunks : AccCall → Nat
  | .readPread _ count => chunkNumOfCount count
  | .readvPreadv iov => chunkNumOfTotal (totalSize iov)
  | .writePwrite _ count => chunkNumOfCount count
  | .writevPwritev iov => chunkNumOfTotal (totalSize iov)

/-- The mark is right in every read, and in a write only if it has one chunk or if it issues
no chunk system call because a DMA of its first chunks fails. -/
theorem run_second_mark_iff (env : Env) (res : AccIoResources) (num : SyscallNum) (fd ofs : Int)
    {w : World} {c : AccCall} (valid : c.Valid) (free : FlagsFree env res) (fresh : w.Fresh) :
    SecondMark env res (c.run env (res.info env) num fd ofs w).world.log ↔
      c.isRead = true ∨ c.chunks ≤ 1 ∨ FirstChunkLost env := by
  cases c with
  | readPread buf count =>
    obtain ⟨nonnull, pos⟩ := valid
    rw [run, veAcceleratedIoReadPread_success env _ num fd ofs w pos nonnull, finish_secondMark]
    obtain ⟨n, calls⟩ := readTransfer_calls env (bufferCall num fd count) (res.info env) fresh
      buf ofs
    exact iff_of_true (calls.secondMark free) (.inl rfl)
  | readvPreadv iov =>
    rw [run, veAcceleratedIoReadvPreadv_success env _ num fd ofs w valid, finish_secondMark]
    obtain ⟨n, calls⟩ := readTransfer_calls env (iovCall (readSyscallType num) fd iov)
      (res.info env) fresh (⟨0, 0⟩ : IovCursor) ofs
    exact iff_of_true (calls.secondMark free) (.inl rfl)
  | writePwrite buf count =>
    obtain ⟨nonnull, pos⟩ := valid
    rw [run, veAcceleratedIoWritePwrite_success env _ num fd ofs w pos nonnull,
      finish_secondMark]
    have done := writeTransfer_calls env (bufferCall num fd count) (res.info env) fresh buf ofs
    rw [done.secondMark_iff free]
    simp [isRead, chunks, bufferCall]
  | writevPwritev iov =>
    rw [run, veAcceleratedIoWritevPwritev_success env _ num fd ofs w valid, finish_secondMark]
    have done := writeTransfer_calls env (iovCall (writeSyscallType num) fd iov) (res.info env)
      fresh (⟨0, 0⟩ : IovCursor) ofs
    rw [done.secondMark_iff free]
    simp [isRead, chunks, iovCall]

theorem steady_flagsFree : FlagsFree (.steady parasSize) .sample := by
  refine ⟨by decide, by decide, ?_⟩
  intro j
  rcases half_cases 0 j with rfl | rfl
  · decide
  · decide

theorem run_second_mark_two :
    SecondMark (.steady parasSize) .sample ((AccCall.writePwrite 4096 (parasSize + 1)).run
        (.steady parasSize) (AccIoResources.sample.info (.steady parasSize)) .write 7 0
        .blank).world.log ↔
      (AccCall.writePwrite 4096 (parasSize + 1)).isRead = true ∨
        (AccCall.writePwrite 4096 (parasSize + 1)).chunks ≤ 1 ∨
        FirstChunkLost (.steady parasSize) :=
  run_second_mark_iff (.steady parasSize) .sample .write 7 0
    (show (AccCall.writePwrite 4096 (parasSize + 1)).Valid from ⟨by decide, by decide⟩)
    steady_flagsFree World.blank_fresh

/-- The first call of a write of two chunks carries the second-call flag. -/
theorem run_second_mark_first : ¬SecondMark (.steady parasSize) .sample
    ((AccCall.writePwrite 4096 (parasSize + 1)).run (.steady parasSize)
      (AccIoResources.sample.info (.steady parasSize)) .write 7 0 .blank).world.log := by
  have first : ((chunkCalls ((AccCall.writePwrite 4096 (parasSize + 1)).run (.steady parasSize)
      (AccIoResources.sample.info (.steady parasSize)) .write 7 0 .blank).world.log)[0]?.map
        fun c => c.addr &&& (Env.steady parasSize).veSecondSysCallFlag) = some 2 := by
    decide +kernel
  intro mark
  obtain ⟨c, found, set⟩ := Option.map_eq_some_iff.mp first
  have clear := (mark 0 c found).second
  rw [set] at clear
  exact absurd clear (by decide)

end AccCall

end Libsysve.AccIo
