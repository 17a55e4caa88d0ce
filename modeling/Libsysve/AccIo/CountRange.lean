import Libsysve.AccIo.Read
import Libsysve.AccIo.Write

/-!
# Which counts are covered by the chunks

The index of the chunk loops is an `int`, and the number of chunks is rounded up in 64 bits.
The loops request all bytes of a count up to `maxTotal`.  Beyond it the index overflows, and
for the largest counts the rounding wraps and there is no chunk at all.
-/

set_option autoImplicit false

namespace Libsysve.AccIo

open Libsysve.ForLoop

def intMax : Nat := 2 ^ 31 - 1

section
variable {Cursor : Type}

/-- `readTransfer`, without a result when the index overflows. -/
def readChunks (env : Env) (call : IoCall Cursor) (s : IoState Cursor) :
    Option (IoState Cursor) :=
  (forLoopUpTo intMax (readBody env call) call.chunkNum 0 s).map (readDrain env call)

def writeChunks (env : Env) (call : IoCall Cursor) (s : IoState Cursor) :
    Option (IoState Cursor) :=
  (forLoopUpTo intMax (writeBody env call) call.chunkNum 0 s).map (writeDrain env call)

theorem readChunks_eq {env : Env} {call : IoCall Cursor} {s : IoState Cursor}
    (small : call.chunkNum ≤ intMax) : readChunks env call s = some (readTransfer env call s) := by
  rw [readChunks, forLoopUpTo_eq (by omega)]
  rfl

theorem writeChunks_eq {env : Env} {call : IoCall Cursor} {s : IoState Cursor}
    (small : call.chunkNum ≤ intMax) :
    writeChunks env call s = some (writeTransfer env call s) := by
  rw [writeChunks, forLoopUpTo_eq (by omega)]
  rfl

end

/-- Every chunk system call moves all it is asked for, and every DMA succeeds. -/
structure AllSucceed (env : Env) : Prop where
  sys : ∀ k (size : Int), 0 ≤ size → size ≤ parasSize → (env.sys k).ret size = size
  posts : ∀ k, env.postOk k = true
  waits : ∀ k, env.waitCode k = 0

/-- There is a result, and its chunk system calls ask for `count` bytes. -/
def AsksFor (count : Nat) (result : Option (IoState Nat)) : Prop :=
  ∃ s, result = some s ∧
    (∀ c ∈ chunkCalls s.world.log, 1 ≤ c.size ∧ c.size ≤ parasSize) ∧
    ((chunkCalls s.world.log).map ChunkCall.size).sum = count

/-! ## Counts that are covered -/

theorem sum_chunkSize (total : Nat) {n : Nat} (le : n ≤ chunkNum total) :
    ((List.range n).map fun k => (chunkSize total k : Int)).sum = min total (parasSize * n) := by
  induction n with
  | zero => simp
  | succ n ih =>
    rw [List.range_succ, List.map_append, List.sum_append, ih (by omega)]
    simp only [List.map_cons, List.map_nil, List.sum_cons, List.sum_nil, chunkSize, chunkNum,
      parasSize_eq] at *
    omega

theorem AllSucceed.chunkRet {env : Env} (succeed : AllSucceed env) (total k : Nat) :
    chunkRet env total k = chunkSize total k := by
  have le := chunkSize_le total k
  exact succeed.sys k _ (by omega) (by omega)

theorem AllSucceed.complete {env : Env} {total n : Nat} (succeed : AllSucceed env)
    (complete : Complete env total n) : n = chunkNum total := by
  rcases complete.last with all | ⟨_, short⟩
  · exact all
  · rw [succeed.chunkRet] at short
    omega

theorem IssuedCalls.asksFor {env : Env} {count n : Nat} {chunkCall : Nat → ChunkCall}
    {s : IoState Nat} (issued : IssuedCalls env count chunkCall n s.world.log)
    (all : n = chunkNum count) : AsksFor count (some s) := by
  refine ⟨s, rfl, fun c member => ?_, ?_⟩
  · rw [issued.calls, List.mem_map] at member
    obtain ⟨k, inside, rfl⟩ := member
    have pos := chunkSize_pos (all ▸ List.mem_range.mp inside)
    have le := chunkSize_le count k
    rw [issued.size]
    omega
  · rw [issued.calls, List.map_map]
    have sizes : ChunkCall.size ∘ chunkCall = fun k => (chunkSize count k : Int) :=
      funext issued.size
    rw [sizes, sum_chunkSize count (le_of_eq all), all]
    simp only [chunkNum, parasSize_eq]
    omega

theorem IssuedCalls.Returns.complete {env : Env} {total n : Nat} {ret : Int}
    (returns : IssuedCalls.Returns env total n ret) (succeed : AllSucceed env) :
    n = chunkNum total := by
  rcases returns with ⟨complete, _⟩ | ⟨_, failed, _⟩
  · exact succeed.complete complete
  · rw [succeed.chunkRet] at failed
    omega

theorem chunkNumOfCount_le {count : Nat} (le : count ≤ maxTotal) :
    chunkNumOfCount count ≤ intMax := by
  rw [chunkNumOfCount_eq le]
  simp only [chunkNum, intMax, maxTotal_eq, parasSize_eq] at *
  omega

theorem readChunks_asksFor {env : Env} (succeed : AllSucceed env) (num : SyscallNum) (fd : Int)
    (buf : Nat) {count : Nat} (ofs : Int) (io : AccIoInfo) {w : World} (pos : 0 < count)
    (le : count ≤ maxTotal) (fresh : w.Fresh) :
    AsksFor count (readChunks env (bufferCall num fd count) (.start w io buf ofs)) := by
  obtain ⟨n, m, final⟩ := bufferReadJob_spec env num fd buf count ofs io w le pos fresh
  obtain ⟨returns, _⟩ := final.dma_ok succeed.posts succeed.waits
  rw [readChunks_eq (chunkNumOfCount_le le)]
  exact final.base.issuedCalls.asksFor (returns.complete succeed)

theorem writeChunks_asksFor {env : Env} (succeed : AllSucceed env) (num : SyscallNum) (fd : Int)
    (buf : Nat) {count : Nat} (ofs : Int) (io : AccIoInfo) {w : World} (pos : 0 < count)
    (le : count ≤ maxTotal) (fresh : w.Fresh) :
    AsksFor count (writeChunks env (bufferCall num fd count) (.start w io buf ofs)) := by
  obtain ⟨n, final⟩ := bufferWriteJob_spec env num fd buf count ofs io w le pos fresh
  obtain ⟨_, returns⟩ := final.dma_ok pos succeed.posts succeed.waits
  rw [writeChunks_eq (chunkNumOfCount_le le)]
  exact final.base.issuedCalls.asksFor (returns.complete succeed)

/-! ## Counts that are not -/

section
variable {Cursor : Type} {env : Env} {call : IoCall Cursor} {i : Nat} {s : IoState Cursor}

def FullChunks (call : IoCall Cursor) (i : Nat) (s : IoState Cursor) : Prop :=
  i < call.chunkNum → s.transferSize = parasSize

def SizedChunk (call : IoCall Cursor) (i : Nat) : Prop :=
  i = call.chunkNum - 1 → 1 ≤ int64 (call.total - parasSize * i) ∧
    int64 (call.total - parasSize * i) ≤ parasSize

variable (env) in
theorem FullChunks.prepare (full : FullChunks call i s) (inside : i < call.chunkNum)
    (sized : SizedChunk call i) :
    1 ≤ (s.prepare env call i).transferSize ∧ (s.prepare env call i).transferSize ≤ parasSize ∧
      (i + 1 < call.chunkNum → (s.prepare env call i).transferSize = parasSize) := by
  have size := full inside
  have marked : (if i = 1 then { s with io := s.io.markSecond env } else s).transferSize =
      parasSize := by
    split <;> exact size
  simp only [IoState.prepare, parasSize_eq] at *
  by_cases last : i = call.chunkNum - 1
  · rw [if_pos last, marked]
    obtain ⟨low, high⟩ := sized last
    exact ⟨low, high, by omega⟩
  · rw [if_neg last, marked]
    omega

variable (call i) in
theorem readIssue_next (succeed : AllSucceed env) (low : 1 ≤ s.transferSize)
    (high : s.transferSize ≤ parasSize) :
    ∃ s', readIssue env call i s = .next s' ∧ s'.transferSize = s.transferSize := by
  have size : (s.readSysCall env call (half i)).halfSize (half i) = s.transferSize := by
    simp only [IoState.readSysCall, World.readChunk_fst, Function.update_self]
    exact succeed.sys _ _ (by omega) high
  have accepted : ((s.readSysCall env call (half i)).post env .vhToVe (half i)
      s.transferSize).1 = true := succeed.posts _
  let recorded := ((s.readSysCall env call (half i)).post env .vhToVe (half i)
    s.transferSize).2.recordRead i
  have whole : ¬recorded.transferSize > recorded.halfSize (half i) := by
    have kept : recorded.halfSize (half i) = s.transferSize := size
    rw [kept]
    exact lt_irrefl _
  refine ⟨recorded, ?_, rfl⟩
  unfold readIssue
  simp only [size]
  rw [if_neg (by omega), if_neg (by omega), if_neg (by rw [accepted]; decide), if_neg whole]

theorem FullChunks.readBody (full : FullChunks call i s) (succeed : AllSucceed env)
    (inside : i < call.chunkNum) (sized : SizedChunk call i) :
    ∃ s', readBody env call i s = .next s' ∧ FullChunks call (i + 1) s' := by
  obtain ⟨low, high, more⟩ := full.prepare env inside sized
  unfold AccIo.readBody
  by_cases second : buffNparas ≤ i
  · simp only [if_pos second]
    have done : ¬((s.prepare env call i).wait env (half i)).1 ≥ 1 := by
      simp only [IoState.wait, World.veDmaWait_fst, succeed.waits]
      decide
    rw [if_neg done]
    obtain ⟨s', goesOn, kept⟩ := readIssue_next call i
      (s := (((s.prepare env call i).wait env (half i)).2.deliver call.plan (half i)))
      succeed low high
    exact ⟨s', goesOn, fun later => kept.trans (more later)⟩
  · simp only [if_neg second]
    obtain ⟨s', goesOn, kept⟩ := readIssue_next call i succeed low high
    exact ⟨s', goesOn, fun later => kept.trans (more later)⟩

variable (call i) in
theorem writeIssue_next (succeed : AllSucceed env) :
    ∃ s', writeIssue env call i s = .next s' ∧ s'.transferSize = s.transferSize := by
  let filled := (s.fill call.plan (half i)).2
  have accepted : ¬(filled.post env .veToVh (half i) filled.transferSize).1 = false := by
    have ok : (filled.post env .veToVh (half i) filled.transferSize).1 = true := succeed.posts _
    rw [ok]
    decide
  refine ⟨(filled.post env .veToVh (half i) filled.transferSize).2.recordWrite i
    (filled.transferSize - (s.fill call.plan (half i)).1), ?_, rfl⟩
  unfold writeIssue
  exact if_neg accepted

variable (call i) in
theorem writeFlush_next (succeed : AllSucceed env) :
    ∃ s', writeFlush env call i s = .next s' ∧ s'.transferSize = s.transferSize := by
  have size : (s.writeSysCall env call (half i) parasSize).1 = parasSize :=
    succeed.sys _ _ (by omega) (le_refl _)
  let accepted := (s.writeSysCall env call (half i) parasSize).2.accept parasSize
  obtain ⟨s', goesOn, kept⟩ := writeIssue_next call i (s := accepted) succeed
  refine ⟨s', ?_, kept⟩
  unfold writeFlush
  simp only [size]
  rw [if_neg (by decide), if_neg (by decide), if_neg (lt_irrefl _)]
  exact goesOn

theorem FullChunks.writeBody (full : FullChunks call i s) (succeed : AllSucceed env)
    (inside : i < call.chunkNum) (sized : SizedChunk call i) :
    ∃ s', writeBody env call i s = .next s' ∧ FullChunks call (i + 1) s' := by
  obtain ⟨_, _, more⟩ := full.prepare env inside sized
  unfold AccIo.writeBody
  by_cases second : buffNparas ≤ i
  · simp only [if_pos second]
    have done : ¬((s.prepare env call i).wait env (half i)).1 ≥ 1 := by
      simp only [IoState.wait, World.veDmaWait_fst, succeed.waits]
      decide
    rw [if_neg done]
    obtain ⟨s', goesOn, kept⟩ := writeFlush_next call i
      (s := ((s.prepare env call i).wait env (half i)).2) succeed
    exact ⟨s', goesOn, fun later => kept.trans (more later)⟩
  · simp only [if_neg second]
    obtain ⟨s', goesOn, kept⟩ := writeIssue_next call i
      (s := s.prepare env call i) succeed
    exact ⟨s', goesOn, fun later => kept.trans (more later)⟩

end

theorem sizedChunk_buffer {num : SyscallNum} {fd : Int} {count : Nat}
    (exact : (bufferCall num fd count).chunkNum = chunkNum count) (word : count < 2 ^ 64)
    (i : Nat) (inside : i < (bufferCall num fd count).chunkNum) :
    SizedChunk (bufferCall num fd count) i := by
  intro last
  have rest : int64 ((count : Int) - parasSize * i) = count - parasSize * i := by
    rw [exact] at inside last
    refine int64_eq_self ?_ ?_
    all_goals simp only [chunkNum, parasSize_eq] at *
    all_goals omega
  change 1 ≤ int64 ((count : Int) - parasSize * i) ∧ int64 ((count : Int) - parasSize * i) ≤ _
  rw [rest]
  rw [exact] at inside last
  simp only [chunkNum, parasSize_eq] at *
  omega

theorem chunkNumOfCount_large {count : Nat} (large : maxTotal < count)
    (noWrap : count ≤ 2 ^ 64 - parasSize) :
    chunkNumOfCount count = chunkNum count ∧ intMax < chunkNumOfCount count := by
  simp only [chunkNumOfCount, chunkNum, intMax, maxTotal_eq, parasSize_eq] at *
  omega

theorem chunkNumOfCount_wraps {count : Nat} (wraps : 2 ^ 64 - parasSize < count)
    (word : count < 2 ^ 64) : chunkNumOfCount count = 0 := by
  simp only [chunkNumOfCount, parasSize_eq] at *
  omega

section
variable {env : Env} {num : SyscallNum} {fd : Int} {buf count : Nat} {ofs : Int} {io : AccIoInfo}
  {w : World}

theorem readChunks_overflow (succeed : AllSucceed env) (large : maxTotal < count)
    (noWrap : count ≤ 2 ^ 64 - parasSize) :
    readChunks env (bufferCall num fd count) (.start w io buf ofs) = none := by
  obtain ⟨exact, more⟩ := chunkNumOfCount_large large noWrap
  have word : count < 2 ^ 64 := by
    rw [parasSize_eq] at noWrap
    omega
  have step : ∀ i s, i ≤ intMax → FullChunks (bufferCall num fd count) i s →
      ∃ s', readBody env (bufferCall num fd count) i s = .next s' ∧
        FullChunks (bufferCall num fd count) (i + 1) s' := fun i s inside full =>
    full.readBody succeed (lt_of_le_of_lt inside more)
      (sizedChunk_buffer exact word i (lt_of_le_of_lt inside more))
  rw [readChunks, forLoopUpTo_none step (Nat.zero_le _) (by rwa [Nat.zero_add]) (fun _ => rfl)]
  rfl

theorem writeChunks_overflow (succeed : AllSucceed env) (large : maxTotal < count)
    (noWrap : count ≤ 2 ^ 64 - parasSize) :
    writeChunks env (bufferCall num fd count) (.start w io buf ofs) = none := by
  obtain ⟨exact, more⟩ := chunkNumOfCount_large large noWrap
  have word : count < 2 ^ 64 := by
    rw [parasSize_eq] at noWrap
    omega
  have step : ∀ i s, i ≤ intMax → FullChunks (bufferCall num fd count) i s →
      ∃ s', writeBody env (bufferCall num fd count) i s = .next s' ∧
        FullChunks (bufferCall num fd count) (i + 1) s' := fun i s inside full =>
    full.writeBody succeed (lt_of_le_of_lt inside more)
      (sizedChunk_buffer exact word i (lt_of_le_of_lt inside more))
  rw [writeChunks, forLoopUpTo_none step (Nat.zero_le _) (by rwa [Nat.zero_add]) (fun _ => rfl)]
  rfl

theorem not_asksFor_start (fresh : w.Fresh) (pos : 0 < count) :
    ¬AsksFor count (some (.start w io buf ofs)) := by
  rintro ⟨s, same, _, sum⟩
  obtain rfl := Option.some.inj same
  have log : (IoState.start w io buf ofs).world.log = [] := fresh.2.1
  rw [log, chunkCalls_nil] at sum
  simp only [List.map_nil, List.sum_nil] at sum
  omega

theorem not_asksFor_none : ¬AsksFor count none := by
  rintro ⟨s, some, _⟩
  exact absurd some (by simp)

theorem readChunks_le (succeed : AllSucceed env) (fresh : w.Fresh) (pos : 0 < count)
    (word : count < 2 ^ 64)
    (asks : AsksFor count (readChunks env (bufferCall num fd count) (.start w io buf ofs))) :
    count ≤ maxTotal := by
  by_contra large
  by_cases noWrap : count ≤ 2 ^ 64 - parasSize
  · rw [readChunks_overflow succeed (by omega) noWrap] at asks
    exact not_asksFor_none asks
  · have none : (bufferCall num fd count).chunkNum = 0 :=
      chunkNumOfCount_wraps (by omega) word
    rw [readChunks, none] at asks
    exact not_asksFor_start fresh pos asks

theorem writeChunks_le (succeed : AllSucceed env) (fresh : w.Fresh) (pos : 0 < count)
    (word : count < 2 ^ 64)
    (asks : AsksFor count (writeChunks env (bufferCall num fd count) (.start w io buf ofs))) :
    count ≤ maxTotal := by
  by_contra large
  by_cases noWrap : count ≤ 2 ^ 64 - parasSize
  · rw [writeChunks_overflow succeed (by omega) noWrap] at asks
    exact not_asksFor_none asks
  · have none : (bufferCall num fd count).chunkNum = 0 :=
      chunkNumOfCount_wraps (by omega) word
    rw [writeChunks, none] at asks
    exact not_asksFor_start fresh pos asks

end

/-- Where everything succeeds, the read and the write loop ask for all bytes of a count exactly
up to `maxTotal`. -/
theorem chunks_cover_iff (env : Env) (num : SyscallNum) (fd : Int) (buf count : Nat) (ofs : Int)
    (io : AccIoInfo) (w : World) (succeed : AllSucceed env) (fresh : w.Fresh) (pos : 0 < count)
    (word : count < 2 ^ 64) :
    (AsksFor count (readChunks env (bufferCall num fd count) (.start w io buf ofs)) ↔
      count ≤ maxTotal) ∧
    (AsksFor count (writeChunks env (bufferCall num fd count) (.start w io buf ofs)) ↔
      count ≤ maxTotal) :=
  ⟨⟨readChunks_le succeed fresh pos word,
      fun le => readChunks_asksFor succeed num fd buf ofs io pos le fresh⟩,
    writeChunks_le succeed fresh pos word,
    fun le => writeChunks_asksFor succeed num fd buf ofs io pos le fresh⟩

theorem steady_succeeds : AllSucceed (.steady parasSize) where
  sys _ _ _ high := min_eq_right high
  posts _ := rfl
  waits _ := rfl

theorem chunks_cover_iff_two :
    (AsksFor (parasSize + 1) (readChunks (.steady parasSize)
        (bufferCall .read 7 (parasSize + 1))
        (.start .blank (AccIoResources.sample.info (.steady parasSize)) 4096 0)) ↔
      parasSize + 1 ≤ maxTotal) ∧
    (AsksFor (parasSize + 1) (writeChunks (.steady parasSize)
        (bufferCall .read 7 (parasSize + 1))
        (.start .blank (AccIoResources.sample.info (.steady parasSize)) 4096 0)) ↔
      parasSize + 1 ≤ maxTotal) :=
  chunks_cover_iff (.steady parasSize) .read 7 4096 (parasSize + 1) 0 _ .blank steady_succeeds
    World.blank_fresh (by decide) (by decide)

/-- With the largest count nothing is read. -/
theorem chunks_miss_largest :
    ¬ ∀ env num fd buf count ofs io w, AllSucceed env → World.Fresh w → 0 < count →
      count < 2 ^ 64 →
        AsksFor count (readChunks env (bufferCall num fd count) (.start w io buf ofs)) := by
  intro always
  have asks := always (.steady parasSize) .read 7 4096 (2 ^ 64 - 1) 0
    (AccIoResources.sample.info (.steady parasSize)) .blank steady_succeeds World.blank_fresh
    (by decide) (by decide)
  have none : (bufferCall .read 7 (2 ^ 64 - 1)).chunkNum = 0 := by decide
  rw [readChunks, none] at asks
  exact not_asksFor_start World.blank_fresh (by decide) asks

end Libsysve.AccIo
