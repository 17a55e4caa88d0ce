import Libsysve.AccIo.Errno

/-!
# errno after a read

The state before round `i` of a read in which nothing has gone wrong (`ReadRound`), what a
round can stop with (`ReadStop`), and what the drain loop makes of it.
-/

set_option autoImplicit false

namespace Libsysve.AccIo

open Libsysve.ForLoop

section
variable {Cursor : Type} {env : Env} {call : IoCall Cursor} {total i n : Nat} {errno : Int}
variable {s : IoState Cursor}

/-- A read whose chunk `k`, not the first, fails unseen. -/
def ReadHides (env : Env) (num : Nat) : Prop := ∃ k, HiddenAt env num k k

def ReadFails (env : Env) (total num : Nat) : Prop := Fails env num (ReadMade env total)

structure ReadRound (env : Env) (call : IoCall Cursor) (total : Nat) (errno : Int) (i : Nat)
    (s : IoState Cursor) : Prop where
  inFull : InFull env total errno i s
  paced : Paced env i s
  sizes : ∀ j, 0 ≤ s.halfSize j
  size : i < call.chunkNum → s.transferSize = parasSize

/-- The requests of a read that has stopped are those of the chunks before `n`. -/
structure ReadCount (env : Env) (total num n : Nat) : Prop where
  began : 0 < num → (env.sys 0).failed = false
  made : ∀ k, k < n → k < num ∧ ReadMade env total k
  upTo : ∀ j, j < num → ReadMade env total j → j < n

theorem ReadCount.lost {num k : Nat} (count : ReadCount env total num n) (before : k < n)
    (bad : env.postOk k = false ∨ 1 ≤ env.waitCode k) : ReadFails env total num :=
  .inr ⟨k, (count.made k before).1, (count.made k before).2, bad⟩

inductive ReadStop (env : Env) (total num : Nat) (errno : Int) (s : IoState Cursor) : Prop where
  | quiet (quiet : Quiet errno s) (dataErr : s.dataErr = false)
      (sizes : ∀ j k, s.posted j = some k → 0 ≤ s.halfSize (half k))
      (visible : ¬ReadHides env num) (m n : Nat) (flight : ChunksInFlight env m n s)
      (count : ReadCount env total num n)
  | first (first : FirstError env s) (free : ∀ j, s.posted j = none)
      (visible : ¬ReadHides env num) (lost : ReadFails env total num)
  | dma (dma : s.Abandoned) (visible : ¬ReadHides env num) (lost : ReadFails env total num)
  | pending (quiet : Quiet 0 s) (dataErr : s.dataErr = false) (n : Nat)
      (size : 0 ≤ s.halfSize (half n)) (posted : s.posted (half n) = some n)
      (free : s.posted (half (n + 1)) = none)
      (decides : env.waitCode s.world.waitCount = 0 ↔ ReadHides env num)
      (lost : 1 ≤ env.waitCode s.world.waitCount → ReadFails env total num)

theorem Quiet.deliver (quiet : Quiet errno s) (plan : CopyPlan Cursor) {j : Half}
    (size : 0 ≤ s.halfSize j) : Quiet errno (s.deliver plan j) := by
  refine quiet.of_eq rfl rfl ?_
  show s.exitResult ≤ s.exitResult + s.halfSize j
  omega

theorem readMade_of_full (sized : SizedUpTo call total)
    (full : ∀ k, k < n → (env.sys k).ret (chunkSize total k) = chunkSize total k) {k : Nat}
    (before : k < n) (inside : k ≤ intMax) (lt : k < call.chunkNum) : ReadMade env total k := by
  refine ⟨fun k' earlier => full k' (by omega), ?_⟩
  have pos := sized.pos k inside lt
  rw [full k before]
  omega

/-! ## The loop -/

/-- Round `i` behind its chunk system call, whose answer is in `read_out_size`. -/
structure ReadAsked (env : Env) (total : Nat) (errno : Int) (i : Nat) (s : IoState Cursor) :
    Prop where
  asked : Asked env total errno i (s.halfSize (half i)) s
  mid : PacedMid env i s
  others : ∀ j, j ≠ half i → 0 ≤ s.halfSize j
  size : s.transferSize = chunkSize total i

theorem InFull.readSysCall (inFull : InFull env total errno i s) (mid : PacedMid env i s)
    (sizes : ∀ j, 0 ≤ s.halfSize j) (size : s.transferSize = chunkSize total i) :
    ReadAsked env total errno i (s.readSysCall env call (half i)) where
  asked := by
    obtain ⟨c, logs, ret⟩ := IoState.readSysCall_logs env call (half i) s
    have isRet : c.ret = (env.sys s.world.sysCount).ret s.transferSize := by
      rw [ret]
      exact Function.update_self ..
    rw [← ret]
    exact inFull.asked logs size isRet rfl rfl rfl rfl rfl
  mid := mid.of_eq rfl rfl rfl
  others := by
    intro j other
    have same : (s.readSysCall env call (half i)).halfSize j = s.halfSize j :=
      Function.update_of_ne other ..
    rw [same]
    exact sizes j
  size := size

namespace ReadAsked

variable (read : ReadAsked env total errno i s)
include read

theorem sizes (ok : s.halfSize (half i) ≠ -1) (j : Half) : 0 ≤ s.halfSize j := by
  by_cases same : j = half i
  · rw [same]
    exact read.asked.nonneg ok
  · exact read.others j same

theorem made_before (sized : SizedUpTo call total) (inside : i ≤ intMax)
    (lt : i < call.chunkNum) {k : Nat} (before : k < i) :
    k < call.chunkNum ∧ ReadMade env total k :=
  ⟨by omega, readMade_of_full sized read.asked.full before (by omega) (by omega)⟩

theorem made_here (positive : 0 < s.halfSize (half i)) : ReadMade env total i :=
  ⟨read.asked.full, read.asked.answer ▸ positive⟩

theorem made_upTo (short : s.halfSize (half i) < chunkSize total i) {j : Nat}
    (made : ReadMade env total j) : j < i + 1 := by
  by_contra behind
  have full := made.1 i (by omega)
  rw [← read.asked.answer] at full
  omega

theorem count_nothing (sized : SizedUpTo call total) (inside : i ≤ intMax)
    (lt : i < call.chunkNum) (zero : s.halfSize (half i) = 0) :
    ReadCount env total call.chunkNum i where
  began _ := read.asked.fine_of_answer (by omega) (by omega)
  made k before := read.made_before sized inside lt before
  upTo j _ made := by
    have pos := sized.pos i inside lt
    have le := read.made_upTo (by omega) made
    rcases Nat.lt_succ_iff_lt_or_eq.mp le with before | rfl
    · exact before
    · have positive := made.2
      rw [← read.asked.answer] at positive
      omega

theorem count_short (sized : SizedUpTo call total) (inside : i ≤ intMax)
    (lt : i < call.chunkNum) (positive : 0 < s.halfSize (half i))
    (short : s.halfSize (half i) < chunkSize total i) :
    ReadCount env total call.chunkNum (i + 1) where
  began _ := read.asked.fine_of_answer (by omega) (by omega)
  made k before := by
    rcases Nat.lt_succ_iff_lt_or_eq.mp before with earlier | rfl
    · exact read.made_before sized inside lt earlier
    · exact ⟨lt, read.made_here positive⟩
  upTo _ _ made := read.made_upTo short made

theorem stop_failed (sized : SizedUpTo call total) (inside : i ≤ intMax)
    (lt : i < call.chunkNum) (minus : s.halfSize (half i) = -1) :
    ReadStop env total call.chunkNum errno
      (((s.firstError (i = 0)).clearErrno).unpost (half i)) := by
  obtain ⟨e, failed⟩ := read.asked.failed minus
  rcases Nat.eq_zero_or_pos i with rfl | pos
  · have first := read.asked.firstError rfl minus
    refine .first ⟨first.call, first.head, rfl⟩ ?_ (visible_of_first failed)
      (.inl ⟨lt, by rw [failed]; rfl⟩)
    intro j
    rcases half_cases 0 j with rfl | rfl
    · exact IoState.unpost_self _ _
    · rw [IoState.unpost_other _ (half_succ_ne 0)]
      exact read.mid.free rfl
  · -- the chunk before it is in flight
    have same : s.firstError (i = 0) = s := by
      rw [decide_eq_false (by omega)]
      rfl
    obtain ⟨n, rfl⟩ := Nat.exists_eq_add_of_le' pos
    rw [same]
    refine .pending (read.asked.cleared.of_eq rfl rfl (le_refl _)) read.asked.dataErr n
      (read.others _ (half_ne_succ n)) ?_ (IoState.unpost_self _ _) ?_ ?_
    · rw [IoState.unpost_other _ (half_ne_succ n)]
      exact read.mid.posted n rfl
    · have count : s.world.waitCount = n := read.mid.waitCount
      show env.waitCode s.world.waitCount = 0 ↔ _
      rw [count]
      exact hides_iff (fun k => k) sized inside pos lt failed read.asked.full
        (fun k le _ => le) read.mid.posts rfl (fun k before => read.mid.waits k (by omega))
    · intro bad
      have count : s.world.waitCount = n := read.mid.waitCount
      change 1 ≤ env.waitCode s.world.waitCount at bad
      rw [count] at bad
      obtain ⟨earlier, made⟩ := read.made_before sized inside lt (Nat.lt_succ_self n)
      exact .inr ⟨n, earlier, made, .inr bad⟩

theorem stop_refused {posted : IoState Cursor} {data : Int} (lt : i < call.chunkNum)
    (ok : s.halfSize (half i) ≠ -1) (some : s.halfSize (half i) ≠ 0)
    (refused : env.postOk s.world.postCount = false)
    (isPosted : posted = (s.post env .vhToVe (half i) data).2) :
    ReadStop env total call.chunkNum errno (posted.skipOfs.dmaError.unpost (half i)) := by
  refine .dma ⟨?_, rfl, rfl, rfl⟩ ?_ ?_
  · rw [isPosted]
    show dmaFailed (s.world.veDmaPost env s.io .vhToVe (half i) data).2.log = true
    rw [World.veDmaPost_log, dmaFailed_snoc, refused]
    exact Bool.or_true _
  · rw [read.mid.postCount] at refused
    apply visible_of (i := i + 1)
    · intro k upTo _
      exact read.asked.fine_of_answer ok upTo
    · intro k behind hidden
      rw [hidden.posts i behind] at refused
      exact absurd refused (by decide)
  · rw [read.mid.postCount] at refused
    have nonneg := read.asked.nonneg ok
    exact .inr ⟨i, lt, read.made_here (by omega), .inl refused⟩

theorem recorded (accepted : env.postOk s.world.postCount = true) {data : Int} :
    Paced env (i + 1) ((s.post env .vhToVe (half i) data).2.recordRead i) :=
  read.mid.record accepted (IoState.recordRead_self _ _)
    (fun _ other => IoState.recordRead_other _ _ other) rfl rfl

theorem next_round (sized : SizedUpTo call total) (inside : i ≤ intMax)
    (ok : s.halfSize (half i) ≠ -1) (accepted : env.postOk s.world.postCount = true)
    (full : (chunkSize total i : Int) ≤ s.halfSize (half i)) {data : Int} :
    ReadRound env call total errno (i + 1)
      ((s.post env .vhToVe (half i) data).2.recordRead i) where
  inFull := read.asked.next full ((read.asked.quiet ok).of_eq rfl rfl (le_refl _)) rfl rfl
  paced := read.recorded accepted
  sizes := read.sizes ok
  size := by
    intro more
    show s.transferSize = parasSize
    rw [read.size, sized.full i inside more]

end ReadAsked

theorem readIssue_errno (sized : SizedUpTo call total) (inside : i ≤ intMax)
    (lt : i < call.chunkNum) (inFull : InFull env total errno i s) (mid : PacedMid env i s)
    (sizes : ∀ j, 0 ≤ s.halfSize j) (size : s.transferSize = chunkSize total i) :
    (readIssue env call i s).Sat (ReadRound env call total errno (i + 1))
      (ReadStop env total call.chunkNum errno) := by
  have read : ReadAsked env total errno i (s.readSysCall env call (half i)) :=
    inFull.readSysCall mid sizes size
  have pos := sized.pos i inside lt
  apply readIssue_rule rfl rfl
  · intro minus
    exact read.stop_failed sized inside lt minus
  · intro zero
    have ok : (s.readSysCall env call (half i)).halfSize (half i) ≠ -1 := by
      rw [zero]
      decide
    exact .quiet ((read.asked.quiet ok).of_eq rfl rfl (le_refl _)) read.asked.dataErr
      (fun j k _ => read.sizes ok (half k))
      (read.asked.visible_of_short sized inside ok (by omega)) (i - 1) i read.mid.inFlight
      (read.count_nothing sized inside lt zero)
  · intro ok some refused
    exact read.stop_refused lt ok some refused rfl
  · intro ok some accepted short
    rw [read.size] at short
    have nonneg := read.asked.nonneg ok
    exact .quiet ((read.asked.quiet ok).of_eq rfl rfl (le_refl _)) read.asked.dataErr
      (fun j k _ => read.sizes ok (half k)) (read.asked.visible_of_short sized inside ok short)
      (i + 1 - 2) (i + 1) (read.recorded accepted).inFlight
      (read.count_short sized inside lt (by omega) short)
  · intro ok accepted full
    rw [read.size] at full
    exact read.next_round sized inside ok accepted full

theorem ReadRound.readBody (round : ReadRound env call total errno i s)
    (sized : SizedUpTo call total) (inside : i ≤ intMax) (lt : i < call.chunkNum) :
    (readBody env call i s).Sat (ReadRound env call total errno (i + 1))
      (ReadStop env total call.chunkNum errno) := by
  have paced : Paced env i (s.prepare env call i) := round.paced.prepare
  have size : (s.prepare env call i).transferSize = chunkSize total i :=
    prepare_size sized inside lt (round.size lt)
  have inFull : InFull env total errno i (s.prepare env call i) := round.inFull.prepare i
  have sizes : ∀ j, 0 ≤ (s.prepare env call i).halfSize j := by
    obtain ⟨io, n, frame⟩ := s.prepare_frame env call i
    rw [frame]
    exact round.sizes
  apply readBody_rule rfl rfl
  · intro early
    exact readIssue_errno sized inside lt inFull (paced.first early) sizes size
  · intro second bad
    simp only [buffNparas] at second
    have dma := abandoned_of_wait (half i) bad
    rw [paced.waitCount] at bad
    refine .dma ⟨dma.failed, rfl, rfl, rfl⟩ ?_ ?_
    · apply visible_of (i := i)
      · intro k before _
        exact not_failed_of_full (inFull.full k before)
      · intro k behind hidden
        have fine := hidden.waits (i - 2) (by omega)
        omega
    · exact .inr ⟨i - 2, by omega,
        readMade_of_full sized inFull.full (by omega) (by omega) (by omega), .inr bad⟩
  · intro second fine
    have waited : InFull env total errno i ((s.prepare env call i).wait env (half i)).2 :=
      inFull.wait (half i)
    have quiet := waited.quiet.deliver call.plan (sizes (half i))
    have delivered := waited.of_eq quiet waited.dataErr rfl (chunkCalls_deliver _ _ _)
    have mid : PacedMid env i (((s.prepare env call i).wait env (half i)).2.deliver call.plan
        (half i)) := (paced.wait second fine).of_eq rfl rfl rfl
    exact readIssue_errno sized inside lt delivered mid sizes size

/-! ## The drain loop -/

theorem readDrainStep_abandoned (abandoned : s.Abandoned) (index : Half) :
    (readDrainStep env call index s).Abandoned := by
  apply readDrainStep_rule
  · intro _
    exact abandoned
  · intro k _ bad
    exact abandoned_of_wait _ bad
  · intro k _ _ _
    exact abandoned.wait env (half k)
  · intro k _ _ fine
    rw [abandoned.dataErr] at fine
    exact absurd fine (by decide)

inductive DrainRound (env : Env) (errno : Int) (index : Half) (s s' : IoState Cursor) : Prop where
  | free (none : s.posted index = none) (same : s' = s)
  | fine (code : env.waitCode s.world.waitCount = 0) (quiet : Quiet errno s')
      (dataErr : s'.dataErr = false) (halfSize : s'.halfSize = s.halfSize)
      (posted : s'.posted = s.posted)
      (waitCount : s'.world.waitCount = s.world.waitCount + 1)
  | dma (code : 1 ≤ env.waitCode s.world.waitCount) (dma : s'.Abandoned)
      (posted : s'.posted = s.posted)

theorem readDrainStep_round {index : Half} (quiet : Quiet errno s) (dataErr : s.dataErr = false)
    (size : ∀ k, s.posted index = some k → 0 ≤ s.halfSize (half k)) :
    DrainRound env errno index s (readDrainStep env call index s) := by
  apply readDrainStep_rule
  · intro none
    exact .free none rfl
  · intro k _ bad
    exact .dma bad (abandoned_of_wait _ bad) rfl
  · intro k _ _ err
    rw [dataErr] at err
    exact absurd err (by decide)
  · intro k posted code _
    have waited : Quiet errno (s.wait env (half k)).2 := quiet.wait (half k)
    exact .fine code (waited.deliver call.plan (size k posted)) dataErr rfl rfl rfl

/-- The drain loop of a read in which nothing has gone wrong: the waits decide. -/
inductive Drained (env : Env) (errno : Int) (n : Nat) (s : IoState Cursor) : Prop where
  | fine (quiet : Quiet errno s) (codes : ∀ k, k < n → env.waitCode k = 0)
  | dma (dma : s.Abandoned) (k : Nat) (before : k < n) (bad : 1 ≤ env.waitCode k)

theorem drainStep_last {index : Half} (quiet : Quiet errno s) (dataErr : s.dataErr = false)
    (posted : s.posted index = some n) (size : 0 ≤ s.halfSize (half n))
    (waitCount : s.world.waitCount = n) (waits : ∀ k, k < n → env.waitCode k = 0) :
    Drained env errno (n + 1) (readDrainStep env call index s) := by
  have round : DrainRound env errno index s (readDrainStep env call index s) := by
    apply readDrainStep_round quiet dataErr
    intro k here
    obtain rfl := Option.some.inj (posted.symm.trans here)
    exact size
  cases round with
  | free none _ =>
    rw [posted] at none
    exact absurd none (by simp)
  | fine code after _ _ _ _ =>
    refine .fine after fun k before => ?_
    rcases Nat.lt_succ_iff_lt_or_eq.mp before with earlier | rfl
    · exact waits k earlier
    · rwa [waitCount] at code
  | dma code failed _ => exact .dma failed n (Nat.lt_succ_self n) (waitCount ▸ code)

theorem ChunksInFlight.readDrain {m : Nat} (flight : ChunksInFlight env m n s)
    (quiet : Quiet errno s)
    (dataErr : s.dataErr = false)
    (sizes : ∀ j k, s.posted j = some k → 0 ≤ s.halfSize (half k)) :
    Drained env errno n (readDrain env call s) := by
  obtain ⟨le, few⟩ := flight.few
  have cases : n = m ∨ n = m + 1 ∨ n = m + 2 := by omega
  rcases cases with rfl | rfl | rfl
  · have nothing : ∀ j, s.posted j = none := by
      intro j
      rcases half_cases n j with rfl | rfl
      · exact flight.free (by omega)
      · exact flight.other rfl
    have same : AccIo.readDrain env call s = s := by
      unfold AccIo.readDrain
      dsimp only
      rw [readDrainStep_none (nothing _), readDrainStep_none (nothing _)]
    rw [same]
    exact .fine quiet flight.waits
  · have posted := flight.posted m (le_refl m) (by omega)
    have free := flight.free (by omega)
    rw [readDrain_eq (veFindMinPosted_eq posted (.inl free))]
    have last : Drained env errno (m + 1) (readDrainStep env call (half m) s) :=
      drainStep_last quiet dataErr posted (sizes _ _ posted) flight.waitCount flight.waits
    have nothing : (readDrainStep env call (half m) s).posted (half (m + 1)) = none := by
      rw [readDrainStep_posted]
      exact free
    rw [readDrainStep_none nothing]
    exact last
  · have older := flight.posted m (le_refl m) (by omega)
    have newer := flight.posted (m + 1) (by omega) (by omega)
    rw [readDrain_eq (veFindMinPosted_eq older (.inr newer))]
    have round : DrainRound env errno (half m) s (readDrainStep env call (half m) s) :=
      readDrainStep_round quiet dataErr (sizes _)
    cases round with
    | free none _ =>
      rw [older] at none
      exact absurd none (by simp)
    | fine code after err halfSize posted waitCount =>
      rw [flight.waitCount] at code waitCount
      refine drainStep_last after err (posted ▸ newer) ?_ waitCount fun k before => ?_
      · rw [halfSize]
        exact sizes _ _ newer
      · rcases Nat.lt_succ_iff_lt_or_eq.mp before with earlier | rfl
        · exact flight.waits k earlier
        · exact code
    | dma code failed _ =>
      rw [flight.waitCount] at code
      exact .dma (readDrainStep_abandoned failed _) m (by omega) code

theorem ReadStop.drain {num : Nat} (stop : ReadStop env total num errno s) :
    ErrnoEnd env errno (ReadHides env num) (ReadFails env total num) (readDrain env call s) := by
  cases stop with
  | quiet quiet dataErr sizes visible m n flight count =>
    have drained : Drained env errno n (AccIo.readDrain env call s) :=
      flight.readDrain quiet dataErr sizes
    cases drained with
    | fine after codes =>
      exact .quiet after visible (not_fails count.began count.upTo flight.posts codes)
    | dma failed k before bad => exact .dma failed visible (count.lost before (.inr bad))
  | first first free visible lost =>
    have same : readDrain env call s = s := by
      unfold readDrain
      dsimp only
      rw [readDrainStep_none (free _), readDrainStep_none (free _)]
    rw [same]
    exact .first first visible lost
  | dma dma visible lost =>
    exact .dma (readDrainStep_abandoned (readDrainStep_abandoned dma _) _) visible lost
  | pending quiet dataErr n size posted free decides lost =>
    rw [readDrain_eq (veFindMinPosted_eq posted (.inl free))]
    have round : DrainRound env 0 (half n) s (readDrainStep env call (half n) s) := by
      apply readDrainStep_round quiet dataErr
      intro k here
      obtain rfl := Option.some.inj (posted.symm.trans here)
      exact size
    cases round with
    | free none _ =>
      rw [posted] at none
      exact absurd none (by simp)
    | fine code after _ _ kept _ =>
      have nothing : (readDrainStep env call (half n) s).posted (half (n + 1)) = none := by
        rw [kept]
        exact free
      rw [readDrainStep_none nothing]
      exact .cleared after (decides.mp code)
    | dma code failed _ =>
      refine .dma (readDrainStep_abandoned failed _) (fun isHidden => ?_) (lost code)
      have fine := decides.mpr isHidden
      omega

variable (env call) in
theorem readChunks_errno (sized : SizedUpTo call total) {w : World} (fresh : w.Fresh)
    (io : AccIoInfo) (cursor : Cursor) (ofs : Int) {s : IoState Cursor}
    (result : readChunks env call (.start w io cursor ofs) = some s) :
    ErrnoEnd env w.errno (ReadHides env call.chunkNum) (ReadFails env total call.chunkNum) s := by
  have start : ReadRound env call total w.errno 0 (IoState.start w io cursor ofs) :=
    ⟨.start fresh io cursor ofs, .start fresh io cursor ofs, fun _ => le_refl 0, fun _ => rfl⟩
  obtain ⟨looped, ended, rfl⟩ := Option.map_eq_some_iff.mp result
  have step : ∀ i s, i < call.chunkNum → i ≤ intMax → ReadRound env call total w.errno i s →
      (readBody env call i s).Sat (ReadRound env call total w.errno (i + 1))
        (ReadStop env total call.chunkNum w.errno) := by
    intro i s lt inside round
    exact round.readBody sized inside lt
  rcases forLoopUpTo_ends step call.chunkNum 0 _ looped (Nat.zero_add _) (Nat.zero_le _) start
    ended with ⟨inside, round⟩ | stop
  · have visible : ¬ReadHides env call.chunkNum := by
      apply visible_of (i := call.chunkNum)
      · intro k before _
        exact not_failed_of_full (round.inFull.full k before)
      · intro k behind hidden
        have inside := hidden.inside
        omega
    have count : ReadCount env total call.chunkNum call.chunkNum :=
      { began := fun some => not_failed_of_full (round.inFull.full 0 some)
        made := fun k before =>
          ⟨before, readMade_of_full sized round.inFull.full before (by omega) before⟩
        upTo := fun _ before _ => before }
    exact ReadStop.drain (.quiet round.inFull.quiet round.inFull.dataErr
      (fun j k _ => round.sizes (half k)) visible _ _ round.paced.inFlight count)
  · exact stop.drain

end

end Libsysve.AccIo
