import Libsysve.AccIo.ReadDrain
import Libsysve.AccIo.WriteDrain

/-!
# Two transfers in lockstep

Two transfers with the same system call numbers and sizes but different plans, user memories
and half-buffers go through the same control flow: `SameShape` relates their states in
everything but memory, cursor, data and copy requests.
-/

set_option autoImplicit false

namespace Libsysve.AccIo

open Libsysve.ByteMemory Libsysve.ForLoop

/-- The event without the data of a call and without the requests of a copy. -/
def IoEvent.shape : IoEvent → IoEvent
  | .sysCall c => .sysCall { c with bytes := [] }
  | .dmaPost j dst src data size ok => .dmaPost j dst src data size ok
  | .dmaWait j code => .dmaWait j code
  | .copy j size _ => .copy j size []
  | .plain num fd => .plain num fd

structure SameWorld (w w' : World) : Prop where
  errno : w.errno = w'.errno
  sysCount : w.sysCount = w'.sysCount
  postCount : w.postCount = w'.postCount
  waitCount : w.waitCount = w'.waitCount
  log : w.log.map IoEvent.shape = w'.log.map IoEvent.shape

structure SameCall {Cursor Cursor' : Type} (call : IoCall Cursor) (call' : IoCall Cursor') :
    Prop where
  num : call.num = call'.num
  fd : call.fd = call'.fd
  total : call.total = call'.total
  chunkNum : call.chunkNum = call'.chunkNum

structure SameShape {Cursor Cursor' : Type} (s : IoState Cursor) (s' : IoState Cursor') :
    Prop where
  world : SameWorld s.world s'.world
  io : s.io = s'.io
  ofs : s.ofs = s'.ofs
  transferSize : s.transferSize = s'.transferSize
  halfSize : s.halfSize = s'.halfSize
  posted : s.posted = s'.posted
  exitResult : s.exitResult = s'.exitResult
  errnoBak : s.errnoBak = s'.errnoBak
  dataErr : s.dataErr = s'.dataErr

namespace SameWorld

variable {w w' : World} (h : SameWorld w w') (env : Env) (io : AccIoInfo)
include h

theorem readChunk (num : SyscallNum) (fd : Int) (j : Half) (addr : Nat) (size ofs : Int) :
    (w.readChunk env num fd j addr size ofs).1 = (w'.readChunk env num fd j addr size ofs).1 ∧
    SameWorld (w.readChunk env num fd j addr size ofs).2
      (w'.readChunk env num fd j addr size ofs).2 := by
  refine ⟨?_, ?_, ?_, h.postCount, h.waitCount, ?_⟩
  · rw [World.readChunk_fst, World.readChunk_fst, h.sysCount]
  · rw [World.readChunk_errno, World.readChunk_errno, h.sysCount, h.errno]
  · rw [World.readChunk_sysCount, World.readChunk_sysCount, h.sysCount]
  · simp only [World.readChunk_log, List.map_append, h.log, h.sysCount]

theorem writeChunk (num : SyscallNum) (fd : Int) (j : Half) (addr : Nat) (size ofs : Int) :
    (w.writeChunk env num fd j addr size ofs).1 =
      (w'.writeChunk env num fd j addr size ofs).1 ∧
    SameWorld (w.writeChunk env num fd j addr size ofs).2
      (w'.writeChunk env num fd j addr size ofs).2 := by
  refine ⟨?_, ?_, ?_, h.postCount, h.waitCount, ?_⟩
  · rw [World.writeChunk_fst, World.writeChunk_fst, h.sysCount]
  · rw [World.writeChunk_errno, World.writeChunk_errno, h.sysCount, h.errno]
  · rw [World.writeChunk_sysCount, World.writeChunk_sysCount, h.sysCount]
  · simp only [World.writeChunk_log, List.map_append, h.log, h.sysCount, List.map_cons,
      List.map_nil, IoEvent.shape]

theorem veDmaPost (dir : DmaDir) (j : Half) (data : Int) :
    (w.veDmaPost env io dir j data).1 = (w'.veDmaPost env io dir j data).1 ∧
    SameWorld (w.veDmaPost env io dir j data).2 (w'.veDmaPost env io dir j data).2 := by
  refine ⟨?_, h.errno, h.sysCount, ?_, h.waitCount, ?_⟩
  · rw [World.veDmaPost_fst, World.veDmaPost_fst, h.postCount]
  · simp only [World.veDmaPost, h.postCount]
  · simp only [World.veDmaPost_log, List.map_append, h.log, h.postCount]

theorem veDmaWait (j : Half) :
    (w.veDmaWait env j).1 = (w'.veDmaWait env j).1 ∧
    SameWorld (w.veDmaWait env j).2 (w'.veDmaWait env j).2 := by
  refine ⟨?_, ?_, ?_, ?_, ?_, ?_⟩
  · rw [World.veDmaWait_fst, World.veDmaWait_fst, h.waitCount]
  · rw [World.veDmaWait_errno, World.veDmaWait_errno, h.errno]
  · rw [World.veDmaWait_sysCount, World.veDmaWait_sysCount, h.sysCount]
  · rw [World.veDmaWait_postCount, World.veDmaWait_postCount, h.postCount]
  · simp only [World.veDmaWait, h.waitCount]
  · simp only [World.veDmaWait_log, List.map_append, h.log, h.waitCount]

theorem copyOut (j : Half) (size : Int) (reqs reqs' : List CopyReq) :
    SameWorld (w.copyOut j size reqs) (w'.copyOut j size reqs') := by
  refine ⟨h.errno, h.sysCount, h.postCount, h.waitCount, ?_⟩
  simp only [World.copyOut, List.map_append, h.log, List.map_cons, List.map_nil, IoEvent.shape]

theorem copyIn (j : Half) (size : Int) (reqs reqs' : List CopyReq) :
    SameWorld (w.copyIn j size reqs) (w'.copyIn j size reqs') := by
  refine ⟨h.errno, h.sysCount, h.postCount, h.waitCount, ?_⟩
  simp only [World.copyIn, List.map_append, h.log, List.map_cons, List.map_nil, IoEvent.shape]

end SameWorld

namespace SameShape

variable {Cursor Cursor' : Type} {s : IoState Cursor} {s' : IoState Cursor'}
variable {call : IoCall Cursor} {call' : IoCall Cursor'} {env : Env}

theorem prepare (h : SameShape s s') (env : Env) (calls : SameCall call call') (i : Nat) :
    SameShape (s.prepare env call i) (s'.prepare env call' i) := by
  have marked : SameShape (if i = 1 then { s with io := s.io.markSecond env } else s)
      (if i = 1 then { s' with io := s'.io.markSecond env } else s') := by
    by_cases second : i = 1
    · rw [if_pos second, if_pos second]
      exact { h with io := congrArg (AccIoInfo.markSecond env) h.io }
    · rw [if_neg second, if_neg second]
      exact h
  unfold IoState.prepare
  rw [calls.chunkNum, calls.total]
  by_cases last : i = call'.chunkNum - 1
  · simp only [if_pos last]
    exact { marked with transferSize := by rw [marked.transferSize] }
  · simp only [if_neg last]
    exact marked

theorem unpost (h : SameShape s s') (j : Half) : SameShape (s.unpost j) (s'.unpost j) :=
  { h with posted := by rw [IoState.unpost, IoState.unpost, h.posted] }

theorem dmaError (h : SameShape s s') : SameShape s.dmaError s'.dmaError :=
  { h with exitResult := rfl, errnoBak := rfl, dataErr := rfl }

theorem firstError (h : SameShape s s') (first : Bool) :
    SameShape (s.firstError first) (s'.firstError first) := by
  cases first with
  | false => exact h
  | true => exact { h with exitResult := rfl, errnoBak := h.world.errno }

theorem clearErrno (h : SameShape s s') : SameShape s.clearErrno s'.clearErrno :=
  { h with world := { h.world with errno := rfl } }

theorem setDataErr (h : SameShape s s') : SameShape s.setDataErr s'.setDataErr :=
  { h with dataErr := rfl }

theorem wait (h : SameShape s s') (env : Env) (j : Half) :
    (s.wait env j).1 = (s'.wait env j).1 ∧ SameShape (s.wait env j).2 (s'.wait env j).2 := by
  have waited := h.world.veDmaWait env j
  exact ⟨waited.1, { h with world := waited.2 }⟩

theorem post (h : SameShape s s') (env : Env) (dir : DmaDir) (j : Half) {data data' : Int}
    (same : data = data') :
    (s.post env dir j data).1 = (s'.post env dir j data').1 ∧
      SameShape (s.post env dir j data).2 (s'.post env dir j data').2 := by
  subst same
  have posted := h.world.veDmaPost env s.io dir j data
  simp only [IoState.post, ← h.io]
  exact ⟨posted.1, { h with world := posted.2, io := rfl }⟩

theorem deliver (h : SameShape s s') (j : Half) :
    SameShape (s.deliver call.plan j) (s'.deliver call'.plan j) := by
  simp only [IoState.deliver, h.halfSize]
  exact { h with
    world := h.world.copyOut j _ _ _
    halfSize := rfl
    exitResult := by rw [h.exitResult] }

theorem fill (h : SameShape s s') (j : Half) :
    SameShape (s.fill call.plan j).2 (s'.fill call'.plan j).2 := by
  simp only [IoState.fill, h.transferSize]
  exact { h with world := h.world.copyIn j _ _ _, transferSize := rfl }

theorem readSysCall (h : SameShape s s') (env : Env) (calls : SameCall call call') (j : Half) :
    SameShape (s.readSysCall env call j) (s'.readSysCall env call' j) := by
  have issued := h.world.readChunk env call'.num call'.fd j (s'.io.vhBuffAndFlag j)
    s'.transferSize s'.ofs
  simp only [IoState.readSysCall, calls.num, calls.fd, h.io, h.transferSize, h.ofs]
  exact { h with
    world := issued.2
    io := rfl
    ofs := rfl
    transferSize := rfl
    halfSize := by rw [issued.1, h.halfSize] }

theorem writeSysCall (h : SameShape s s') (env : Env) (calls : SameCall call call') (j : Half)
    {size size' : Int} (same : size = size') :
    (s.writeSysCall env call j size).1 = (s'.writeSysCall env call' j size').1 ∧
      SameShape (s.writeSysCall env call j size).2 (s'.writeSysCall env call' j size').2 := by
  subst same
  have issued := h.world.writeChunk env call'.num call'.fd j (s'.io.vhBuffAndFlag j) size s'.ofs
  simp only [IoState.writeSysCall, calls.num, calls.fd, h.io, h.ofs]
  exact ⟨issued.1, { h with world := issued.2, io := rfl, ofs := rfl }⟩

theorem accept (h : SameShape s s') {size size' : Int} (same : size = size') :
    SameShape (s.accept size) (s'.accept size') := by
  subst same
  exact { h with
    exitResult := congrArg (· + size) h.exitResult
    ofs := congrArg (fun ofs => int64 (ofs + size)) h.ofs }

theorem skipOfs (h : SameShape s s') : SameShape s.skipOfs s'.skipOfs :=
  { h with ofs := by rw [IoState.skipOfs, IoState.skipOfs, h.ofs, h.transferSize] }

theorem recordRead (h : SameShape s s') (i : Nat) :
    SameShape (s.recordRead i) (s'.recordRead i) :=
  { h with
    ofs := by rw [IoState.recordRead, IoState.recordRead, h.ofs, h.halfSize]
    posted := by rw [IoState.recordRead, IoState.recordRead, h.posted] }

theorem recordWrite (h : SameShape s s') (i : Nat) {size size' : Int} (same : size = size') :
    SameShape (s.recordWrite i size) (s'.recordWrite i size') :=
  { h with
    posted := by rw [IoState.recordWrite, IoState.recordWrite, h.posted]
    halfSize := by rw [IoState.recordWrite, IoState.recordWrite, h.halfSize, same] }

/-! ## The read functions -/

theorem readIssue_eq (env : Env) (call : IoCall Cursor) (i : Nat) (s : IoState Cursor) :
    AccIo.readIssue env call i s =
      let t := s.readSysCall env call (half i)
      let p := t.post env .vhToVe (half i) (t.halfSize (half i))
      if t.halfSize (half i) = -1 then
        .brk (((t.firstError (i = 0)).clearErrno).unpost (half i))
      else if t.halfSize (half i) = 0 then .brk (t.unpost (half i))
      else if p.1 = false then .brk (p.2.skipOfs.dmaError.unpost (half i))
      else if (p.2.recordRead i).transferSize > (p.2.recordRead i).halfSize (half i) then
        .brk (p.2.recordRead i)
      else .next (p.2.recordRead i) := rfl

theorem readIssue (h : SameShape s s') (calls : SameCall call call') (i : Nat) :
    LoopCtl.Related SameShape SameShape (readIssue env call i s) (readIssue env call' i s') := by
  have issued := h.readSysCall env calls (half i)
  have size := congrFun issued.halfSize (half i)
  obtain ⟨ok, posted⟩ := issued.post env .vhToVe (half i) size
  have recorded := posted.recordRead i
  rw [readIssue_eq, readIssue_eq]
  refine LoopCtl.Related.ite (by rw [size]) (fun _ => ?_) (fun _ => ?_)
  · exact ((issued.firstError _).clearErrno).unpost _
  refine LoopCtl.Related.ite (by rw [size]) (fun _ => ?_) (fun _ => ?_)
  · exact issued.unpost _
  refine LoopCtl.Related.ite (by rw [ok]) (fun _ => ?_) (fun _ => ?_)
  · exact posted.skipOfs.dmaError.unpost _
  refine LoopCtl.Related.ite ?_ (fun _ => recorded) (fun _ => recorded)
  rw [recorded.transferSize, recorded.halfSize]

theorem readBody (h : SameShape s s') (calls : SameCall call call') (i : Nat) :
    LoopCtl.Related SameShape SameShape (readBody env call i s) (readBody env call' i s') := by
  have prepared := h.prepare env calls i
  obtain ⟨code, waited⟩ := prepared.wait env (half i)
  unfold AccIo.readBody
  refine LoopCtl.Related.ite Iff.rfl (fun _ => ?_) (fun _ => prepared.readIssue calls i)
  refine LoopCtl.Related.ite ?_ (fun _ => ?_) (fun _ => ?_)
  · exact iff_of_eq (congrArg (· ≥ 1) code)
  · exact waited.dmaError.unpost _
  · exact (waited.deliver (half i)).readIssue calls i

theorem ite {p q : Prop} [Decidable p] [Decidable q] {t : IoState Cursor}
    {t' : IoState Cursor'} (same : p ↔ q) (yes : q → SameShape s s') (no : ¬q → SameShape t t') :
    SameShape (if p then s else t) (if q then s' else t') := by
  by_cases holds : q
  · rw [if_pos holds, if_pos (same.mpr holds)]
    exact yes holds
  · rw [if_neg holds, if_neg (fun h => holds (same.mp h))]
    exact no holds

theorem drainWait (h : SameShape s s') (env : Env) (j : Half) : SameShape
    (if (s.wait env j).1 ≥ 1 then (s.wait env j).2.dmaError else (s.wait env j).2)
    (if (s'.wait env j).1 ≥ 1 then (s'.wait env j).2.dmaError else (s'.wait env j).2) := by
  obtain ⟨code, waited⟩ := h.wait env j
  exact ite (by rw [code]) (fun _ => waited.dmaError) (fun _ => waited)

theorem readDrainStep (h : SameShape s s') (index : Half) :
    SameShape (readDrainStep env call index s) (readDrainStep env call' index s') := by
  unfold AccIo.readDrainStep
  rw [h.posted]
  cases s'.posted index with
  | none => exact h
  | some i =>
    have waited := h.drainWait env (half i)
    exact ite (iff_of_eq (congrArg (· = true) waited.dataErr)) (fun _ => waited)
      (fun _ => waited.deliver (half i))

theorem readTransfer (h : SameShape s s') (calls : SameCall call call') :
    SameShape (readTransfer env call s) (readTransfer env call' s') := by
  have loop : SameShape (forLoop (AccIo.readBody env call) call.chunkNum 0 s)
      (forLoop (AccIo.readBody env call') call'.chunkNum 0 s') := by
    rw [calls.chunkNum]
    have bodies : ∀ i (s : IoState Cursor) (s' : IoState Cursor'), i < call'.chunkNum →
        SameShape s s' → LoopCtl.Related SameShape SameShape (AccIo.readBody env call i s)
          (AccIo.readBody env call' i s') := fun i _ _ _ h => h.readBody calls i
    exact forLoop_related bodies (fun _ _ h => h) _ 0 s s' (Nat.zero_add _) h
  unfold AccIo.readTransfer readDrain
  rw [loop.posted]
  exact (loop.readDrainStep _).readDrainStep _

/-! ## The write functions -/

theorem writeIssue_eq (env : Env) (call : IoCall Cursor) (i : Nat) (s : IoState Cursor) :
    AccIo.writeIssue env call i s =
      let f := s.fill call.plan (half i)
      let p := f.2.post env .veToVh (half i) f.2.transferSize
      if p.1 = false then .brk (p.2.dmaError.unpost (half i))
      else .next (p.2.recordWrite i (p.2.transferSize - f.1)) := rfl

theorem writeIssue (h : SameShape s s') (i : Nat)
    (left : (s.fill call.plan (half i)).1 = (s'.fill call'.plan (half i)).1) :
    LoopCtl.Related SameShape SameShape (writeIssue env call i s)
      (writeIssue env call' i s') := by
  have filled : SameShape (s.fill call.plan (half i)).2 (s'.fill call'.plan (half i)).2 :=
    h.fill (half i)
  obtain ⟨ok, posted⟩ := filled.post env .veToVh (half i) filled.transferSize
  rw [writeIssue_eq, writeIssue_eq]
  refine LoopCtl.Related.ite (by rw [ok]) (fun _ => ?_) (fun _ => ?_)
  · exact posted.dmaError.unpost _
  · exact posted.recordWrite i (by rw [posted.transferSize, left])

theorem writeFlush_eq (env : Env) (call : IoCall Cursor) (i : Nat) (s : IoState Cursor) :
    AccIo.writeFlush env call i s =
      let t := s.writeSysCall env call (half i) parasSize
      if t.1 = -1 then
        .brk (((t.2.firstError (t.2.posted (half i) = some 0)).clearErrno.setDataErr).unpost
          (half i))
      else if t.1 = 0 then .brk (t.2.setDataErr.unpost (half i))
      else if (parasSize : Int) > t.1 then .brk ((t.2.accept t.1).setDataErr.unpost (half i))
      else AccIo.writeIssue env call i (t.2.accept t.1) := rfl

theorem writeFlush (h : SameShape s s') (calls : SameCall call call') (i : Nat)
    (left : (s.fill call.plan (half i)).1 = (s'.fill call'.plan (half i)).1) :
    LoopCtl.Related SameShape SameShape (writeFlush env call i s)
      (writeFlush env call' i s') := by
  obtain ⟨size, called⟩ := h.writeSysCall env calls (half i) (rfl : (parasSize : Int) = _)
  rw [writeFlush_eq, writeFlush_eq]
  refine LoopCtl.Related.ite (by rw [size]) (fun _ => ?_) (fun _ => ?_)
  · simp only [called.posted]
    exact ((called.firstError _).clearErrno.setDataErr).unpost _
  refine LoopCtl.Related.ite (by rw [size]) (fun _ => ?_) (fun _ => ?_)
  · exact called.setDataErr.unpost _
  refine LoopCtl.Related.ite (by rw [size]) (fun _ => ?_) (fun _ => ?_)
  · exact (called.accept size).setDataErr.unpost _
  · exact (called.accept size).writeIssue i left

theorem writeBody (h : SameShape s s') (calls : SameCall call call') (i : Nat)
    (left : ((s.prepare env call i).fill call.plan (half i)).1 =
      ((s'.prepare env call' i).fill call'.plan (half i)).1) :
    LoopCtl.Related SameShape SameShape (writeBody env call i s) (writeBody env call' i s') := by
  have prepared := h.prepare env calls i
  obtain ⟨code, waited⟩ := prepared.wait env (half i)
  unfold AccIo.writeBody
  refine LoopCtl.Related.ite Iff.rfl (fun _ => ?_) (fun _ => prepared.writeIssue i left)
  refine LoopCtl.Related.ite ?_ (fun _ => ?_) (fun _ => ?_)
  · exact iff_of_eq (congrArg (· ≥ 1) code)
  · exact waited.dmaError.unpost _
  · exact waited.writeFlush calls i left

theorem writeDrainCall_eq (env : Env) (call : IoCall Cursor) (index : Half) (i : Nat)
    (s : IoState Cursor) (posted : s.posted index = some i) :
    AccIo.writeDrainStep env call index s =
      let u := if (s.wait env (half i)).1 ≥ 1 then (s.wait env (half i)).2.dmaError
        else (s.wait env (half i)).2
      let t := u.writeSysCall env call (half i) (u.halfSize (half i))
      if u.dataErr = true then u
      else if t.1 = -1 then (t.2.firstError (i = 0)).clearErrno.setDataErr
      else if t.1 = 0 then t.2.setDataErr
      else if (t.2.accept t.1).halfSize (half i) > t.1 then (t.2.accept t.1).setDataErr
      else t.2.accept t.1 := by
  unfold AccIo.writeDrainStep
  simp only [posted]

theorem writeDrainStep (h : SameShape s s') (calls : SameCall call call') (index : Half) :
    SameShape (writeDrainStep env call index s) (writeDrainStep env call' index s') := by
  have same := congrFun h.posted index
  cases posted : s'.posted index with
  | none =>
    rw [posted] at same
    have noRound : AccIo.writeDrainStep env call index s = s := by
      unfold AccIo.writeDrainStep
      rw [same]
    have noRound' : AccIo.writeDrainStep env call' index s' = s' := by
      unfold AccIo.writeDrainStep
      rw [posted]
    rw [noRound, noRound']
    exact h
  | some i =>
    rw [posted] at same
    have waited := h.drainWait env (half i)
    obtain ⟨size, called⟩ := waited.writeSysCall env calls (half i)
      (congrFun waited.halfSize (half i))
    have accepted := called.accept size
    rw [writeDrainCall_eq env call index i s same, writeDrainCall_eq env call' index i s' posted]
    refine ite (by rw [waited.dataErr]) (fun _ => waited) (fun _ => ?_)
    refine ite (by rw [size]) (fun _ => ?_) (fun _ => ?_)
    · exact (called.firstError _).clearErrno.setDataErr
    refine ite (by rw [size]) (fun _ => called.setDataErr) (fun _ => ?_)
    refine ite ?_ (fun _ => accepted.setDataErr) (fun _ => accepted)
    rw [accepted.halfSize, size]

theorem writeDrain (h : SameShape s s') (calls : SameCall call call') :
    SameShape (writeDrain env call s) (writeDrain env call' s') := by
  unfold AccIo.writeDrain
  rw [h.posted]
  exact (h.writeDrainStep calls _).writeDrainStep calls _

end SameShape

theorem WriteJob.Head.nothing_left {Cursor : Type} {job : WriteJob Cursor} {i : Nat}
    {s : IoState Cursor} (h : job.Head i s) (lt : i < chunkNum job.total) :
    ((s.prepare job.env job.call i).fill job.call.plan (half i)).1 = 0 := by
  rw [prepare_eq job.sized lt h.io (h.transferSize lt)]
  exact (job.cover.next (h.cursor lt) (chunkSize_pos lt) (chunk_end_le lt)).2

/-- Two write transfers in lockstep, from calls that have done nothing yet. -/
theorem WriteJob.writeTransfer_sameShape {Cursor Cursor' : Type} (job : WriteJob Cursor)
    (job' : WriteJob Cursor') (env : job'.env = job.env) (total : job'.total = job.total)
    (calls : SameCall job.call job'.call) {s : IoState Cursor} {s' : IoState Cursor'}
    (h : SameShape s s') (head : job.Head 0 s) (head' : job'.Head 0 s') :
    SameShape (writeTransfer job.env job.call s) (writeTransfer job.env job'.call s') := by
  have bodies : ∀ i s s', i < chunkNum job.total →
      (SameShape s s' ∧ job.Head i s ∧ job'.Head i s') →
        LoopCtl.Related
          (fun s s' => SameShape s s' ∧ job.Head (i + 1) s ∧ job'.Head (i + 1) s') SameShape
          (writeBody job.env job.call i s) (writeBody job.env job'.call i s') := by
    rintro i s s' lt ⟨same, head, head'⟩
    have lt' : i < chunkNum job'.total := by rwa [total]
    have left := head'.nothing_left lt'
    have body := head'.writeBody lt'
    rw [env] at left body
    exact (same.writeBody calls i ((head.nothing_left lt).trans left.symm)).and_sat
      (head.writeBody lt) body
  have loop : SameShape (forLoop (writeBody job.env job.call) job.call.chunkNum 0 s)
      (forLoop (writeBody job.env job'.call) job'.call.chunkNum 0 s') := by
    have count := job.sized.chunkNum_eq
    rw [← calls.chunkNum, count]
    exact forLoop_related bodies (fun _ _ h => h.1) _ 0 s s' (Nat.zero_add _) ⟨h, head, head'⟩
  exact loop.writeDrain calls

end Libsysve.AccIo
