import Libsysve.AccIo.AccCall

/-!
# What DMA requests do to the result of a call

The requests and waits of a call are all it has to do with the DMA engine.  A wait uses a
handle that an accepted request has set, and when the chunk system calls report no error a
call returns `-1` with EIO exactly if a request was refused or a wait returned an exception.
This holds for all counts and lengths.
-/

set_option autoImplicit false

namespace Libsysve.AccIo

open Libsysve.ForLoop

/-- A `ve_dma_post` or a `ve_dma_wait` on `vedma_handle[j]`, with the values passed. -/
inductive DmaUse where
  | post (j : Half) (dst src : BitVec 64) (size : BitVec 32) (ok : Bool)
  | wait (j : Half) (code : Int)
deriving DecidableEq

def DmaUse.fails : DmaUse → Bool
  | .post _ _ _ _ ok => !ok
  | .wait _ code => decide (1 ≤ code)

def IoEvent.dmaUse : IoEvent → Option DmaUse
  | .dmaPost j dst src _ size ok =>
    some (.post j (.ofNat 64 dst) (.ofNat 64 src) (.ofInt 32 size) ok)
  | .dmaWait j code => some (.wait j code)
  | _ => none

def dmaUses (log : List IoEvent) : List DmaUse := log.filterMap IoEvent.dmaUse

/-- Which handles have been set by an accepted request; only these are waited for. -/
def handleMonitor : Monitor (Half → Bool) DmaUse where
  start := fun _ => false
  after o
    | .post j _ _ _ true => Function.update o j true
    | _ => o
  allowed o
    | .post _ _ _ _ _ => True
    | .wait j _ => o j = true

theorem handleMonitor_after {o : Half → Bool} {j : Half} (set : o j = true) (e : DmaUse) :
    handleMonitor.after o e j = true := by
  cases e with
  | wait k code => exact set
  | post k dst src size ok =>
    cases ok with
    | false => exact set
    | true =>
      by_cases same : j = k
      · rw [same]
        exact Function.update_self ..
      · exact (Function.update_of_ne same ..).trans set

theorem dmaUses_snoc (log : List IoEvent) (e : IoEvent) :
    dmaUses (log ++ [e]) = dmaUses log ++ e.dmaUse.toList := by
  simp only [dmaUses, List.filterMap_append, List.filterMap_cons, List.filterMap_nil]
  cases e.dmaUse <;> rfl

theorem dmaFailed_eq (log : List IoEvent) : dmaFailed log = (dmaUses log).any DmaUse.fails := by
  induction log with
  | nil => rfl
  | cons e log ih =>
    have here : e.dmaFails = e.dmaUse.any DmaUse.fails := by
      cases e <;> simp [IoEvent.dmaFails, IoEvent.dmaUse, DmaUse.fails]
    simp only [dmaFailed, List.any_cons, dmaUses, List.filterMap_cons] at ih ⊢
    rw [ih, here]
    cases e.dmaUse <;> simp

def HandleSet (log : List IoEvent) (j : Half) : Prop :=
  handleMonitor.stateAfter (dmaUses log) j = true

def WaitsOnSet (log : List IoEvent) : Prop := handleMonitor.Safe (dmaUses log)

theorem HandleSet.snoc {log : List IoEvent} {j : Half} (set : HandleSet log j) (e : IoEvent) :
    HandleSet (log ++ [e]) j := by
  rw [HandleSet, dmaUses_snoc]
  cases use : e.dmaUse with
  | none =>
    rw [Option.toList_none, List.append_nil]
    exact set
  | some u =>
    rw [Option.toList_some, Monitor.stateAfter_snoc]
    exact handleMonitor_after set u

theorem WaitsOnSet.snoc {log : List IoEvent} (safe : WaitsOnSet log) {e : IoEvent}
    (allowed : ∀ j code, e = .dmaWait j code → HandleSet log j) : WaitsOnSet (log ++ [e]) := by
  rw [WaitsOnSet, dmaUses_snoc]
  cases e with
  | dmaWait j code =>
    exact (handleMonitor.safe_snoc _ _).mpr ⟨safe, allowed j code rfl⟩
  | dmaPost j dst src data size ok =>
    exact (handleMonitor.safe_snoc _ _).mpr ⟨safe, trivial⟩
  | sysCall c => simpa [IoEvent.dmaUse, WaitsOnSet] using safe
  | copy j size reqs => simpa [IoEvent.dmaUse, WaitsOnSet] using safe
  | plain num fd => simpa [IoEvent.dmaUse, WaitsOnSet] using safe

theorem handleSet_post (log : List IoEvent) (j : Half) (dst src : Nat) (data size : Int) :
    HandleSet (log ++ [.dmaPost j dst src data size true]) j := by
  rw [HandleSet, dmaUses_snoc]
  simp only [IoEvent.dmaUse, Option.toList_some, Monitor.stateAfter_snoc]
  exact Function.update_self ..

/-! ## The state of a transfer -/

def NoCallError (log : List IoEvent) : Prop := ∀ c ∈ chunkCalls log, 0 ≤ c.ret

theorem NoCallError.before {log : List IoEvent} {e : IoEvent}
    (h : NoCallError (log ++ [e])) : NoCallError log := by
  intro c member
  refine h c ?_
  rw [chunkCalls_snoc]
  exact List.mem_append_left _ member

theorem NoCallError.last {log : List IoEvent} {c : ChunkCall}
    (h : NoCallError (log ++ [.sysCall c])) : 0 ≤ c.ret := by
  refine h c ?_
  rw [chunkCalls_snoc]
  exact List.mem_append_right _ (List.mem_singleton_self c)

section
variable {Cursor : Type}

namespace IoState

/-- `posted` names chunks whose handle is set. -/
structure Tracked (s : IoState Cursor) : Prop where
  waits : WaitsOnSet s.world.log
  posted : ∀ j k, s.posted j = some k → HandleSet s.world.log (half k)

/-- No DMA has failed, and what is counted in `exit_result` is what system calls returned. -/
structure Counting (s : IoState Cursor) : Prop where
  noFail : dmaFailed s.world.log = false
  exit : NoCallError s.world.log → 0 ≤ s.exitResult

structure Abandoned (s : IoState Cursor) : Prop where
  failed : dmaFailed s.world.log = true
  exit : s.exitResult = -1
  errno : s.errnoBak = eio
  dataErr : s.dataErr = true

def ReadSizes (s : IoState Cursor) : Prop := NoCallError s.world.log → ∀ j, 0 ≤ s.halfSize j

structure Going (i : Nat) (s : IoState Cursor) : Prop where
  tracked : s.Tracked
  counting : s.Counting
  earlier : ∀ k, k < i → HandleSet s.world.log (half k)

structure Ended (s : IoState Cursor) : Prop where
  tracked : s.Tracked
  outcome : s.Counting ∨ s.Abandoned

variable {s : IoState Cursor} {i : Nat} {j : Half}

theorem Tracked.unpost (tracked : s.Tracked) (j : Half) : (s.unpost j).Tracked where
  waits := tracked.waits
  posted := by
    intro j' k here
    by_cases same : j' = j
    · rw [same, s.unpost_self] at here
      exact absurd here (by simp)
    · rw [s.unpost_other same] at here
      exact tracked.posted j' k here

theorem Going.ended (going : Going i s) : Ended s := ⟨going.tracked, .inl going.counting⟩

theorem Ended.unpost (ended : Ended s) (j : Half) : Ended (s.unpost j) where
  tracked := ended.tracked.unpost j
  outcome := by
    rcases ended.outcome with counting | abandoned
    · exact .inl ⟨counting.noFail, counting.exit⟩
    · exact .inr ⟨abandoned.failed, abandoned.exit, abandoned.errno, abandoned.dataErr⟩

/-! ### The effects -/

/-- `s'` has one more event, which is not a wait, and posts the same chunks. -/
structure Logs (e : IoEvent) (s s' : IoState Cursor) : Prop where
  log : s'.world.log = s.world.log ++ [e]
  posted : s'.posted = s.posted

theorem Tracked.logs {s' : IoState Cursor} {e : IoEvent} (tracked : s.Tracked)
    (logs : Logs e s s')
    (allowed : ∀ j code, e = .dmaWait j code → HandleSet s.world.log j) : s'.Tracked where
  waits := by
    rw [logs.log]
    exact tracked.waits.snoc allowed
  posted := by
    intro j k here
    rw [logs.posted] at here
    rw [logs.log]
    exact (tracked.posted j k here).snoc e

theorem Counting.logs {s' : IoState Cursor} {e : IoEvent} (counting : s.Counting)
    (logs : Logs e s s') (fine : e.dmaFails = false)
    (exit : NoCallError s'.world.log → 0 ≤ s.exitResult → 0 ≤ s'.exitResult) :
    s'.Counting where
  noFail := by rw [logs.log, dmaFailed_snoc, counting.noFail, fine, Bool.or_false]
  exit := by
    intro noError
    refine exit noError (counting.exit ?_)
    rw [logs.log] at noError
    exact noError.before

theorem Going.logs {s' : IoState Cursor} {e : IoEvent} (going : Going i s)
    (logs : Logs e s s') (allowed : ∀ j code, e = .dmaWait j code → HandleSet s.world.log j)
    (fine : e.dmaFails = false)
    (exit : NoCallError s'.world.log → 0 ≤ s.exitResult → 0 ≤ s'.exitResult) :
    Going i s' where
  tracked := going.tracked.logs logs allowed
  counting := going.counting.logs logs fine exit
  earlier := by
    intro k lt
    rw [logs.log]
    exact (going.earlier k lt).snoc e

variable (env : Env) (call : IoCall Cursor)

theorem wait_logs (j : Half) (s : IoState Cursor) :
    Logs (.dmaWait j (env.waitCode s.world.waitCount)) s (s.wait env j).2 :=
  ⟨World.veDmaWait_log env s.world j, rfl⟩

theorem Tracked.wait (tracked : s.Tracked) (set : HandleSet s.world.log j) :
    (s.wait env j).2.Tracked := by
  refine tracked.logs (wait_logs env j s) ?_
  rintro k code same
  obtain ⟨rfl, _⟩ := IoEvent.dmaWait.inj same
  exact set

theorem wait_fine {code : Nat} (j : Half) (fine : code = 0) :
    (IoEvent.dmaWait j code).dmaFails = false := by
  rw [fine]
  rfl

theorem Going.wait (going : Going i s) (set : HandleSet s.world.log j)
    (fine : env.waitCode s.world.waitCount = 0) : Going i (s.wait env j).2 := by
  refine going.logs (wait_logs env j s) ?_ (wait_fine j fine) fun _ exit => exit
  rintro k code same
  obtain ⟨rfl, _⟩ := IoEvent.dmaWait.inj same
  exact set

theorem Tracked.waitError (tracked : s.Tracked) (set : HandleSet s.world.log j)
    (bad : (s.wait env j).1 ≥ 1) : Ended (s.wait env j).2.dmaError := by
  have waited := tracked.wait env set
  refine ⟨⟨waited.waits, waited.posted⟩, .inr ⟨?_, rfl, rfl, rfl⟩⟩
  show dmaFailed (s.wait env j).2.world.log = true
  rw [(wait_logs env j s).log, dmaFailed_snoc]
  exact Bool.or_eq_true_iff.mpr (.inr (decide_eq_true bad))

theorem Going.postError (going : Going i s) {dir : DmaDir} {data : Int}
    (refused : (s.post env dir j data).1 = false) : Ended (s.post env dir j data).2.dmaError := by
  have logs : Logs _ s (s.post env dir j data).2 := ⟨rfl, rfl⟩
  have tracked := going.tracked.logs logs (fun _ _ same => by simp at same)
  refine ⟨⟨tracked.waits, tracked.posted⟩, .inr ⟨?_, rfl, rfl, rfl⟩⟩
  show dmaFailed (s.post env dir j data).2.world.log = true
  rw [logs.log, dmaFailed_snoc]
  refine Bool.or_eq_true_iff.mpr (.inr ?_)
  have answer : env.postOk s.world.postCount = false := refused
  simp [IoEvent.dmaFails, answer]

theorem Going.post (going : Going i s) {dir : DmaDir} {data : Int}
    (accepted : (s.post env dir (half i) data).1 = true) :
    Going (i + 1) (s.post env dir (half i) data).2 := by
  have answer : env.postOk s.world.postCount = true := accepted
  have logs : Logs (.dmaPost (half i) (s.io.dmaDst dir (half i)) (s.io.dmaSrc dir (half i)) data
      (getDmaSize data) true) s (s.post env dir (half i) data).2 := by
    refine ⟨?_, rfl⟩
    rw [← answer]
    rfl
  obtain ⟨tracked, counting, earlier⟩ :=
    going.logs logs (fun _ _ same => by simp at same) rfl fun _ exit => exit
  refine ⟨tracked, counting, fun k lt => ?_⟩
  rcases Nat.lt_succ_iff_lt_or_eq.mp lt with before | rfl
  · exact earlier k before
  · rw [logs.log]
    exact handleSet_post ..

theorem Going.posted_update (going : Going (i + 1) s) (j : Half) (k : Nat)
    (here : Function.update s.posted (half i) (some i) j = some k) :
    HandleSet s.world.log (half k) := by
  by_cases same : j = half i
  · rw [same, Function.update_self] at here
    obtain rfl := Option.some.inj here
    exact going.earlier i (Nat.lt_succ_self i)
  · rw [Function.update_of_ne same] at here
    exact going.tracked.posted j k here

theorem Ended.skipOfs (ended : Ended s.dmaError) : Ended s.skipOfs.dmaError where
  tracked := ⟨ended.tracked.waits, ended.tracked.posted⟩
  outcome := ended.outcome.imp (fun counting => ⟨counting.noFail, counting.exit⟩)
    fun abandoned => ⟨abandoned.failed, rfl, rfl, rfl⟩

theorem Going.callError (going : Going i s) (error : ¬NoCallError s.world.log) (first : Bool) :
    Going i (s.firstError first).clearErrno := by
  cases first
  · exact ⟨⟨going.tracked.waits, going.tracked.posted⟩,
      ⟨going.counting.noFail, fun noError => absurd noError error⟩, going.earlier⟩
  · exact ⟨⟨going.tracked.waits, going.tracked.posted⟩,
      ⟨going.counting.noFail, fun noError => absurd noError error⟩, going.earlier⟩

theorem Logs.callError {s' : IoState Cursor} {c : ChunkCall} (logs : Logs (.sysCall c) s s')
    (failed : c.ret = -1) : ¬NoCallError s'.world.log := by
  intro noError
  rw [logs.log] at noError
  have answer := noError.last
  omega

theorem Going.recordRead (going : Going (i + 1) s) : Going (i + 1) (s.recordRead i) where
  tracked := ⟨going.tracked.waits, going.posted_update⟩
  counting := ⟨going.counting.noFail, going.counting.exit⟩
  earlier := going.earlier

theorem Going.recordWrite (going : Going (i + 1) s) (size : Int) :
    Going (i + 1) (s.recordWrite i size) where
  tracked := ⟨going.tracked.waits, going.posted_update⟩
  counting := ⟨going.counting.noFail, going.counting.exit⟩
  earlier := going.earlier

theorem readSysCall_logs (j : Half) (s : IoState Cursor) :
    ∃ c, Logs (.sysCall c) s (s.readSysCall env call j) ∧
      c.ret = (s.readSysCall env call j).halfSize j :=
  ⟨_, ⟨rfl, rfl⟩, (Function.update_self (f := s.halfSize) ..).symm⟩

theorem Going.prepare (going : Going i s) (k : Nat) : Going i (s.prepare env call k) := by
  obtain ⟨io, size, same⟩ := prepare_frame env call k s
  rw [same]
  exact ⟨⟨going.tracked.waits, going.tracked.posted⟩,
    ⟨going.counting.noFail, going.counting.exit⟩, going.earlier⟩

theorem ReadSizes.prepare (sizes : s.ReadSizes) (k : Nat) :
    (s.prepare env call k).ReadSizes := by
  obtain ⟨io, size, same⟩ := prepare_frame env call k s
  rw [same]
  exact sizes

theorem ReadSizes.wait (sizes : s.ReadSizes) (j : Half) : (s.wait env j).2.ReadSizes := by
  intro noError
  rw [(wait_logs env j s).log] at noError
  exact sizes noError.before

theorem ReadSizes.post (sizes : s.ReadSizes) (dir : DmaDir) (j : Half) (data : Int) :
    (s.post env dir j data).2.ReadSizes := fun noError => sizes (NoCallError.before noError)

theorem ReadSizes.readSysCall (sizes : s.ReadSizes) (j : Half) :
    (s.readSysCall env call j).ReadSizes := by
  obtain ⟨c, logs, ret⟩ := readSysCall_logs env call j s
  intro noError k
  rw [logs.log] at noError
  by_cases same : k = j
  · rw [same, ← ret]
    exact noError.last
  · have other : (s.readSysCall env call j).halfSize k = s.halfSize k :=
      Function.update_of_ne same ..
    rw [other]
    exact sizes noError.before k

theorem Going.deliver (going : Going i s) (sizes : s.ReadSizes) (plan : CopyPlan Cursor)
    (j : Half) : Going i (s.deliver plan j) := by
  have logs : Logs (.copy j (s.halfSize j) (plan s.cursor (s.halfSize j)).2.1) s
      (s.deliver plan j) := ⟨rfl, rfl⟩
  refine going.logs logs (fun _ _ same => by simp at same) rfl ?_
  intro noError exit
  rw [logs.log] at noError
  have read := sizes noError.before j
  show 0 ≤ s.exitResult + s.halfSize j
  omega

theorem ReadSizes.deliver (sizes : s.ReadSizes) (plan : CopyPlan Cursor) (j : Half) :
    (s.deliver plan j).ReadSizes := by
  intro noError
  have log : (s.deliver plan j).world.log =
      s.world.log ++ [.copy j (s.halfSize j) (plan s.cursor (s.halfSize j)).2.1] := rfl
  rw [log] at noError
  exact sizes noError.before

/-! ### Reads -/

theorem Going.readIssue (going : Going i s) (sizes : s.ReadSizes) :
    (readIssue env call i s).Sat (fun s' => Going (i + 1) s' ∧ s'.ReadSizes)
      fun s' => Ended s' ∧ s'.ReadSizes := by
  obtain ⟨c, logs, ret⟩ := readSysCall_logs env call (half i) s
  have asked : Going i (s.readSysCall env call (half i)) :=
    going.logs logs (fun _ _ same => by simp at same) rfl fun _ exit => exit
  have sized := sizes.readSysCall env call (half i)
  have posted := sized.post env .vhToVe (half i)
    ((s.readSysCall env call (half i)).halfSize (half i))
  apply readIssue_rule rfl rfl
  · intro error
    refine ⟨(asked.callError (logs.callError (ret.trans error)) _).ended.unpost _, ?_⟩
    cases decide (i = 0) <;> exact sized
  · intro _
    exact ⟨asked.ended.unpost _, sized⟩
  · intro _ _ refused
    exact ⟨(asked.postError env refused).skipOfs.unpost _, posted⟩
  · intro _ _ accepted _
    exact ⟨(asked.post env accepted).recordRead.ended, posted⟩
  · intro _ accepted _
    exact ⟨(asked.post env accepted).recordRead, posted⟩

theorem Going.waitSet (going : Going i s) (second : buffNparas ≤ i) :
    HandleSet s.world.log (half i) := by
  obtain ⟨k, rfl⟩ := Nat.exists_eq_add_of_le' second
  have set := going.earlier k (by simp only [buffNparas]; omega)
  rwa [← half_add_two] at set

theorem Going.readBody (going : Going i s) (sizes : s.ReadSizes) :
    (readBody env call i s).Sat (fun s' => Going (i + 1) s' ∧ s'.ReadSizes)
      fun s' => Ended s' ∧ s'.ReadSizes := by
  have ready := going.prepare env call i
  have sized := sizes.prepare env call i
  have waited := sized.wait env (half i)
  apply readBody_rule rfl rfl
  · intro _
    exact ready.readIssue env call sized
  · intro second bad
    exact ⟨(ready.tracked.waitError env (ready.waitSet second) bad).unpost _, waited⟩
  · intro second fine
    exact ((ready.wait env (ready.waitSet second) fine).deliver waited call.plan
      (half i)).readIssue env call (waited.deliver call.plan (half i))

theorem Abandoned.wait (abandoned : s.Abandoned) (j : Half) : (s.wait env j).2.Abandoned where
  failed := by rw [(wait_logs env j s).log, dmaFailed_snoc, abandoned.failed, Bool.true_or]
  exit := abandoned.exit
  errno := abandoned.errno
  dataErr := abandoned.dataErr

theorem Ended.wait (ended : Ended s) (set : HandleSet s.world.log j)
    (fine : env.waitCode s.world.waitCount = 0) : Ended (s.wait env j).2 where
  tracked := ended.tracked.wait env set
  outcome := by
    rcases ended.outcome with counting | abandoned
    · exact .inl (counting.logs (wait_logs env j s) (wait_fine j fine) fun _ exit => exit)
    · exact .inr (abandoned.wait env j)

theorem Ended.going (ended : Ended s) (unhurt : s.dataErr = false) : Going 0 s := by
  rcases ended.outcome with counting | abandoned
  · exact ⟨ended.tracked, counting, by omega⟩
  · rw [abandoned.dataErr] at unhurt
    exact absurd unhurt (by simp)

theorem ReadSizes.readDrainStep (sizes : s.ReadSizes) (index : Half) :
    (readDrainStep env call index s).ReadSizes := by
  apply readDrainStep_rule
  · intro _
    exact sizes
  · intro k _ _
    exact sizes.wait env (half k)
  · intro k _ _ _
    exact sizes.wait env (half k)
  · intro k _ _ _
    exact (sizes.wait env (half k)).deliver call.plan (half k)

theorem Ended.readDrainStep (ended : Ended s) (sizes : s.ReadSizes) (index : Half) :
    Ended (readDrainStep env call index s) := by
  apply readDrainStep_rule
  · intro _
    exact ended
  · intro k posted bad
    exact ended.tracked.waitError env (ended.tracked.posted index k posted) bad
  · intro k posted fine _
    exact ended.wait env (ended.tracked.posted index k posted) fine
  · intro k posted fine unhurt
    have going := (ended.going unhurt).wait env (ended.tracked.posted index k posted) fine
    exact (going.deliver (sizes.wait env (half k)) call.plan (half k)).ended

theorem Ended.readDrain (ended : Ended s) (sizes : s.ReadSizes) :
    Ended (readDrain env call s) := by
  have first := ended.readDrainStep env call sizes (veFindMinPosted s.posted)
  exact first.readDrainStep env call (sizes.readDrainStep env call _) _

/-! ### Writes -/

theorem Going.writeIssue (going : Going i s) :
    (writeIssue env call i s).Sat (Going (i + 1)) Ended := by
  have filled : Going i (s.fill call.plan (half i)).2 := by
    have logs : Logs (.copy (half i) s.transferSize (call.plan s.cursor s.transferSize).2.1) s
        (s.fill call.plan (half i)).2 := ⟨rfl, rfl⟩
    exact going.logs logs (fun _ _ same => by simp at same) rfl fun _ exit => exit
  apply writeIssue_rule rfl rfl
  · intro refused
    exact (filled.postError env refused).unpost _
  · intro accepted
    exact (filled.post env accepted).recordWrite _

theorem writeSysCall_logs (j : Half) (size : Int) (s : IoState Cursor) :
    ∃ c, Logs (.sysCall c) s (s.writeSysCall env call j size).2 ∧
      c.ret = (s.writeSysCall env call j size).1 := ⟨_, ⟨rfl, rfl⟩, rfl⟩

theorem Going.setDataErr (going : Going i s) : Going i s.setDataErr where
  tracked := ⟨going.tracked.waits, going.tracked.posted⟩
  counting := ⟨going.counting.noFail, going.counting.exit⟩
  earlier := going.earlier

theorem Going.accept (going : Going i s) {ret : Int}
    (counts : NoCallError s.world.log → 0 ≤ ret) : Going i (s.accept ret) where
  tracked := ⟨going.tracked.waits, going.tracked.posted⟩
  counting :=
    { noFail := going.counting.noFail
      exit := fun noError => by
        have before := going.counting.exit noError
        have now := counts noError
        show 0 ≤ s.exitResult + ret
        omega }
  earlier := going.earlier

theorem Going.writeSysCall (going : Going i s) (j : Half) (size : Int) :
    Going i (s.writeSysCall env call j size).2 ∧
      (NoCallError (s.writeSysCall env call j size).2.world.log →
        0 ≤ (s.writeSysCall env call j size).1) := by
  obtain ⟨c, logs, ret⟩ := writeSysCall_logs env call j size s
  refine ⟨going.logs logs (fun _ _ same => by simp at same) rfl fun _ exit => exit, ?_⟩
  intro noError
  rw [logs.log] at noError
  exact ret ▸ noError.last

theorem not_noCallError {log : List IoEvent} {ret : Int} (counts : NoCallError log → 0 ≤ ret)
    (error : ret = -1) : ¬NoCallError log := by
  intro noError
  have nonneg := counts noError
  omega

theorem Going.writeFlush (going : Going i s) :
    (writeFlush env call i s).Sat (Going (i + 1)) Ended := by
  obtain ⟨asked, counts⟩ := going.writeSysCall env call (half i) parasSize
  apply writeFlush_rule rfl rfl
  · intro error
    exact (asked.callError (not_noCallError counts error) _).setDataErr.ended.unpost _
  · intro _
    exact asked.setDataErr.ended.unpost _
  · intro _ _
    exact (asked.accept counts).setDataErr.ended.unpost _
  · intro _ _
    exact (asked.accept counts).writeIssue env call

theorem Going.writeBody (going : Going i s) :
    (writeBody env call i s).Sat (Going (i + 1)) Ended := by
  have ready := going.prepare env call i
  apply writeBody_rule rfl rfl
  · intro _
    exact ready.writeIssue env call
  · intro second bad
    exact (ready.tracked.waitError env (ready.waitSet second) bad).unpost _
  · intro second fine
    exact (ready.wait env (ready.waitSet second) fine).writeFlush env call

theorem Ended.writeDrainStep (ended : Ended s) (index : Half) :
    Ended (writeDrainStep env call index s) := by
  apply writeDrainStep_rule
  · intro _
    exact ended
  · intro k posted bad
    exact ended.tracked.waitError env (ended.tracked.posted index k posted) bad
  · intro k posted fine _
    exact ended.wait env (ended.tracked.posted index k posted) fine
  · intro k posted fine unhurt
    have going := (ended.going unhurt).wait env (ended.tracked.posted index k posted) fine
    obtain ⟨asked, counts⟩ := going.writeSysCall env call (half k)
      ((s.wait env (half k)).2.halfSize (half k))
    apply writeDrainCall_rule rfl rfl rfl
    · intro error
      exact (asked.callError (not_noCallError counts error) _).setDataErr.ended
    · intro _
      exact asked.setDataErr.ended
    · intro _ _
      exact (asked.accept counts).setDataErr.ended
    · intro _ _
      exact (asked.accept counts).ended

theorem Ended.writeDrain (ended : Ended s) : Ended (writeDrain env call s) :=
  (ended.writeDrainStep env call _).writeDrainStep env call _

/-! ### Whole transfers -/

theorem going_start {w : World} (fresh : w.Fresh) (io : AccIoInfo) (cursor : Cursor)
    (ofs : Int) : Going 0 (.start w io cursor ofs) := by
  have log : (IoState.start w io cursor ofs).world.log = [] := fresh.2.1
  refine ⟨⟨?_, fun j k here => absurd here (by simp [start])⟩, ⟨?_, fun _ => le_refl 0⟩,
    by omega⟩
  · rw [log]
    exact handleMonitor.safe_nil
  · rw [log]
    rfl

theorem Going.readTransfer (going : Going 0 s) (sizes : s.ReadSizes) :
    Ended (readTransfer env call s) := by
  have looped := forLoop_rule
    (fun i s _ (inv : Going i s ∧ s.ReadSizes) => inv.1.readBody env call inv.2)
    (fun s inv => ⟨inv.1.ended, inv.2⟩) call.chunkNum 0 s (Nat.zero_add _) ⟨going, sizes⟩
  exact looped.1.readDrain env call looped.2

theorem Going.writeTransfer (going : Going 0 s) : Ended (writeTransfer env call s) := by
  have looped := forLoop_rule (fun i s _ (inv : Going i s) => inv.writeBody env call)
    (fun s inv => inv.ended) call.chunkNum 0 s (Nat.zero_add _) going
  exact looped.writeDrain env call

end IoState

end

/-! ## The result of a call -/

def ReturnsEio (r : IoResult) : Prop := r.ret = -1 ∧ r.world.errno = eio

/-- What the DMAs of a call have to do with its result. -/
structure DmaDecides (r : IoResult) : Prop where
  waits : WaitsOnSet r.world.log
  eio : NoCallError r.world.log → (ReturnsEio r ↔ dmaFailed r.world.log = true)

theorem IoState.Ended.dmaDecides {Cursor : Type} {s : IoState Cursor} (ended : Ended s) :
    DmaDecides s.finish where
  waits := by
    rw [finish_log]
    exact ended.tracked.waits
  eio := by
    rw [finish_log, ReturnsEio, finish_ret]
    intro noError
    rcases ended.outcome with counting | abandoned
    · have exit := counting.exit noError
      refine iff_of_false (fun h => ?_) (by simp [counting.noFail])
      omega
    · refine iff_of_true ⟨abandoned.exit, ?_⟩ abandoned.failed
      have bak : s.errnoBak ≠ 0 := by
        rw [abandoned.errno]
        decide
      rw [IoState.finish, if_pos bak]
      exact abandoned.errno

theorem AccCall.dmaDecides (env : Env) (io : AccIoInfo) (num : SyscallNum) (fd ofs : Int)
    {w : World} {c : AccCall} (valid : c.Valid) (fresh : w.Fresh) :
    DmaDecides (c.run env io num fd ofs w) := by
  cases c with
  | readPread buf count =>
    obtain ⟨nonnull, pos⟩ := valid
    rw [run, veAcceleratedIoReadPread_success env io num fd ofs w pos nonnull]
    have going := IoState.going_start fresh io buf ofs
    exact (going.readTransfer env _ fun _ _ => le_refl 0).dmaDecides
  | readvPreadv iov =>
    rw [run, veAcceleratedIoReadvPreadv_success env io num fd ofs w valid]
    have going := IoState.going_start fresh io (⟨0, 0⟩ : IovCursor) ofs
    exact (going.readTransfer env _ fun _ _ => le_refl 0).dmaDecides
  | writePwrite buf count =>
    obtain ⟨nonnull, pos⟩ := valid
    rw [run, veAcceleratedIoWritePwrite_success env io num fd ofs w pos nonnull]
    exact ((IoState.going_start fresh io buf ofs).writeTransfer env _).dmaDecides
  | writevPwritev iov =>
    rw [run, veAcceleratedIoWritevPwritev_success env io num fd ofs w valid]
    exact ((IoState.going_start fresh io (⟨0, 0⟩ : IovCursor) ofs).writeTransfer env _).dmaDecides

end Libsysve.AccIo
