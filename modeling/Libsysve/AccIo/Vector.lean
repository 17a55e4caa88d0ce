import Libsysve.AccIo.AccCall
import Libsysve.AccIo.Lockstep

/-!
# The vector functions against the contiguous ones

A vector call and the contiguous call with the same total run in lockstep.  What is left to
compare is memory: the segments, one after the other, hold what the contiguous buffer holds.
-/

set_option autoImplicit false

namespace Libsysve.AccIo

open Libsysve.ByteMemory Libsysve.ForLoop

/-! ## Segments -/

def Iovec.Holds (v : Iovec) (a : Nat) : Prop := v.iovBase ≤ a ∧ a < v.iovBase + v.iovLen

def SegmentsDisjoint (iov : List Iovec) : Prop :=
  iov.Pairwise fun v v' => ∀ a, v.Holds a → ¬v'.Holds a

def readSegments (user : Memory) (iov : List Iovec) : List UInt8 :=
  iov.flatMap fun v => readRange user v.iovBase v.iovLen

theorem readSegments_eq (user : Memory) (iov : List Iovec) :
    readSegments user iov = readRange (fun p => user (iovAddr iov p)) 0 (iovTotal iov) := by
  induction iov with
  | nil => rfl
  | cons v rest ih =>
    have here : readRange user v.iovBase v.iovLen =
        readRange (fun p => user (iovAddr (v :: rest) p)) 0 v.iovLen := by
      apply readRange_congr
      intro i lt
      rw [Nat.zero_add, iovAddr_first lt]
    have later : readSegments user rest =
        readRange (fun p => user (iovAddr (v :: rest) p)) (0 + v.iovLen) (iovTotal rest) := by
      rw [ih]
      apply readRange_congr
      intro i _
      rw [Nat.zero_add, Nat.zero_add, iovAddr_rest]
    rw [iovTotal_cons, readRange_add, ← here, ← later]
    rfl

theorem iovAddr_holds {iov : List Iovec} {p : Nat} (lt : p < iovTotal iov) :
    ∃ v, v ∈ iov ∧ v.Holds (iovAddr iov p) := by
  induction iov generalizing p with
  | nil => simp [iovTotal] at lt
  | cons v rest ih =>
    rw [iovTotal_cons] at lt
    by_cases first : p < v.iovLen
    · rw [iovAddr_first first]
      exact ⟨v, List.mem_cons_self, Nat.le_add_right _ _, by omega⟩
    · obtain ⟨q, rfl⟩ := Nat.exists_eq_add_of_le (Nat.le_of_not_lt first)
      obtain ⟨v', member, holds⟩ := ih (show q < iovTotal rest by omega)
      rw [iovAddr_rest]
      exact ⟨v', List.mem_cons_of_mem v member, holds⟩

theorem iovAddr_ne {iov : List Iovec} (disjoint : SegmentsDisjoint iov) {p q : Nat}
    (lt : p < q) (fits : q < iovTotal iov) : iovAddr iov p ≠ iovAddr iov q := by
  induction iov generalizing p q with
  | nil => simp [iovTotal] at fits
  | cons v rest ih =>
    obtain ⟨apart, others⟩ := List.pairwise_cons.mp disjoint
    rw [iovTotal_cons] at fits
    by_cases second : q < v.iovLen
    · rw [iovAddr_first second, iovAddr_first (by omega)]
      omega
    · obtain ⟨q', rfl⟩ := Nat.exists_eq_add_of_le (Nat.le_of_not_lt second)
      rw [iovAddr_rest]
      by_cases first : p < v.iovLen
      · rw [iovAddr_first first]
        obtain ⟨v', member, holds⟩ := iovAddr_holds (show q' < iovTotal rest by omega)
        intro same
        rw [← same] at holds
        exact apart v' member _ ⟨Nat.le_add_right _ _, by omega⟩ holds
      · obtain ⟨p', rfl⟩ := Nat.exists_eq_add_of_le (Nat.le_of_not_lt first)
        rw [iovAddr_rest]
        exact ih others (by omega) (by omega)

/-! ## What the shape of a log determines -/

def copySizes (log : List IoEvent) : Int :=
  (log.map fun
    | .copy _ size _ => size
    | _ => 0).sum

theorem copySizes_snoc (log : List IoEvent) (e : IoEvent) : copySizes (log ++ [e]) =
    copySizes log + (match e with | .copy _ size _ => size | _ => 0) := by
  simp [copySizes]

theorem copySizes_shape (log : List IoEvent) :
    copySizes (log.map IoEvent.shape) = copySizes log := by
  rw [copySizes, copySizes, List.map_map]
  congr 1
  apply List.map_congr_left
  intro e _
  cases e <;> rfl

theorem copiedBytes_eq_copySizes (log : List IoEvent) (safe : dmaMonitor.Safe log) :
    copiedBytes log = copySizes log := by
  induction log using List.reverseRecOn with
  | nil => rfl
  | append_singleton log e ih =>
    obtain ⟨before, allowed⟩ := (dmaMonitor.safe_snoc log e).mp safe
    rw [copiedBytes_snoc, copySizes_snoc, ih before]
    cases e with
    | copy j size reqs =>
      obtain ⟨_, inside⟩ := allowed
      simp only [inside.length]
    | _ => rfl

theorem chunkCalls_length_shape (log : List IoEvent) :
    (chunkCalls (log.map IoEvent.shape)).length = (chunkCalls log).length := by
  induction log with
  | nil => rfl
  | cons e log ih => cases e <;> simpa [chunkCalls, IoEvent.shape] using ih

theorem SameShape.calls_length {Cursor Cursor' : Type} {s : IoState Cursor}
    {s' : IoState Cursor'} (h : SameShape s s') :
    (chunkCalls s.world.log).length = (chunkCalls s'.world.log).length := by
  rw [← chunkCalls_length_shape, h.world.log, chunkCalls_length_shape]

theorem SameShape.copySizes {Cursor Cursor' : Type} {s : IoState Cursor}
    {s' : IoState Cursor'} (h : SameShape s s') :
    copySizes s.world.log = copySizes s'.world.log := by
  rw [← copySizes_shape, h.world.log, copySizes_shape]

theorem sameShape_start {Cursor Cursor' : Type} {w w' : World} (fresh : w.Fresh)
    (fresh' : w'.Fresh) (errno : w.errno = w'.errno) (io : AccIoInfo) (cursor : Cursor)
    (cursor' : Cursor') (ofs : Int) :
    SameShape (.start w io cursor ofs : IoState Cursor) (.start w' io cursor' ofs) := by
  obtain ⟨_, log, sysCount, postCount, waitCount⟩ := fresh
  obtain ⟨_, log', sysCount', postCount', waitCount'⟩ := fresh'
  have world : SameWorld w w' :=
    ⟨errno, by rw [sysCount, sysCount'], by rw [postCount, postCount'],
      by rw [waitCount, waitCount'], by rw [log, log']⟩
  exact ⟨world, rfl, rfl, rfl, rfl, rfl, rfl, rfl, rfl⟩

theorem iovCall_sameCall (num : SyscallNum) (fd : Int) {iov : List Iovec}
    (le : iovTotal iov ≤ maxTotal) :
    SameCall (iovCall num fd iov) (bufferCall num fd (iovTotal iov)) := by
  have vector := iovCall_sized num fd le
  have buffer := bufferCall_sized num fd le
  exact ⟨rfl, rfl, vector.total_eq.trans buffer.total_eq.symm,
    vector.chunkNum_eq.trans buffer.chunkNum_eq.symm⟩

/-! ## Scatter and contiguous read -/

/-- What the vector read does, compared with a contiguous read `c` into `buf`. -/
structure ScattersAs (iov : List Iovec) (buf : Nat) (w : World) (v c : IoResult) : Prop where
  calls : chunkCalls v.world.log = chunkCalls c.world.log
  ret : v.ret = c.ret
  data : readSegments v.world.user iov = readRange c.world.user buf (iovTotal iov)
  outside : ∀ a, (∀ seg, seg ∈ iov → ¬seg.Holds a) → v.world.user a = w.user a
  copies : ∀ j size reqs, IoEvent.copy j size reqs ∈ v.world.log →
    ∀ req, req ∈ reqs → 0 ≤ req.len

theorem copy_nonneg {log : List IoEvent} (safe : dmaMonitor.Safe log) {j : Half} {size : Int}
    {reqs : List CopyReq} (member : IoEvent.copy j size reqs ∈ log) :
    ∀ req, req ∈ reqs → 0 ≤ req.len := by
  obtain ⟨before, rest, split⟩ := List.append_of_mem member
  obtain ⟨_, inside⟩ := safe before _ rest split
  exact fun req here => (inside.inside req here).2.1

/-- A scattered prefix of a stream over the segments and over a buffer with the same content. -/
theorem readSegments_scatter {iov : List Iovec} (disjoint : SegmentsDisjoint iov)
    {user user' stream : Memory} {buf g : Nat} (le : g ≤ iovTotal iov)
    (content : readRange user' buf (iovTotal iov) = readSegments user iov) :
    readSegments (scatter user (iovAddr iov) stream g) iov =
      readRange (scatter user' (fun p => buf + p) stream g) buf (iovTotal iov) := by
  rw [readSegments_eq] at content ⊢
  rw [scatter_contiguous]
  apply readRange_congr
  intro p lt
  rw [Nat.zero_add]
  by_cases written : p < g
  · have vector : scatter user (iovAddr iov) stream g (iovAddr iov p) = stream p :=
      scatter_at written (fun j after before =>
        (iovAddr_ne disjoint after (by omega)).symm)
    rw [vector, overlay_inside user' buf stream written]
  · have vector : scatter user (iovAddr iov) stream g (iovAddr iov p) = user (iovAddr iov p) :=
      scatter_other (fun i before => iovAddr_ne disjoint (by omega) lt)
    have kept := byte_eq_of_readRange content lt
    rw [Nat.zero_add] at kept
    rw [vector, overlay_outside user' stream (by omega), kept]

theorem readv_scatters_read (env : Env) (io : AccIoInfo) (num : SyscallNum) (fd : Int)
    (iov : List Iovec) (ofs : Int) (w : World) (buf : Nat) (user : Memory)
    (pos : 0 < iovTotal iov) (small : iovTotal iov < 2 ^ 48) (disjoint : SegmentsDisjoint iov)
    (fresh : w.Fresh) (nonnull : buf ≠ 0)
    (content : readRange user buf (iovTotal iov) = readSegments w.user iov) :
    ScattersAs iov buf w
      (veAcceleratedIoReadvPreadv env (.success io) num fd (some iov) iov.length ofs w)
      (veAcceleratedIoReadPread env (.success io) (readSyscallType num) fd buf (iovTotal iov) ofs
        { w with user := user }) := by
  have le : iovTotal iov ≤ maxTotal := by
    rw [maxTotal_eq]
    omega
  have segments : iov ≠ [] := by
    rintro rfl
    simp [iovTotal] at pos
  have fresh' : World.Fresh { w with user := user } := fresh
  obtain ⟨n, m, final⟩ := iovReadJob_spec env (readSyscallType num) fd iov ofs io w le pos fresh
  obtain ⟨n', m', final'⟩ := bufferReadJob_spec env (readSyscallType num) fd buf (iovTotal iov)
    ofs io { w with user := user } le pos fresh'
  have same : SameShape
      (readTransfer env (iovCall (readSyscallType num) fd iov) (.start w io ⟨0, 0⟩ ofs))
      (readTransfer env (bufferCall (readSyscallType num) fd (iovTotal iov))
        (.start { w with user := user } io buf ofs)) :=
    (sameShape_start fresh fresh' rfl io _ buf ofs).readTransfer (iovCall_sameCall _ fd le)
  rw [veAcceleratedIoReadvPreadv_success env io num fd ofs w segments,
    veAcceleratedIoReadPread_success env io (readSyscallType num) fd ofs _ pos nonnull]
  generalize readTransfer env (iovCall (readSyscallType num) fd iov) (.start w io ⟨0, 0⟩ ofs) = v
    at final same ⊢
  generalize readTransfer env (bufferCall (readSyscallType num) fd (iovTotal iov))
    (.start { w with user := user } io buf ofs) = c at final' same ⊢
  have count : n = n' := by
    rw [← final.base.issuedCalls.length, ← final'.base.issuedCalls.length]
    exact same.calls_length
  have delivered : (gotSum env (iovTotal iov) m : Int) = gotSum env (iovTotal iov) m' := by
    have vector := copiedBytes_eq_copySizes _ final.base.safe
    have buffer := copiedBytes_eq_copySizes _ final'.base.safe
    rw [final.base.copied] at vector
    rw [final'.base.copied] at buffer
    exact vector.trans (same.copySizes.trans buffer.symm)
  have prefixes : gotSum env (iovTotal iov) m = gotSum env (iovTotal iov) m' := by
    omega
  constructor
  · rw [finish_log, finish_log, final.base.calls, final'.base.calls, count]
    rfl
  · rw [finish_ret, finish_ret]
    exact same.exitResult
  · have vector : v.world.user = scatter w.user (iovAddr iov) (readStream env)
        (gotSum env (iovTotal iov) m) := final.base.delivered.user
    have buffer : c.world.user = scatter user (fun p => buf + p) (readStream env)
        (gotSum env (iovTotal iov) m') := final'.base.delivered.user
    rw [finish_user, finish_user, vector, buffer, ← prefixes]
    exact readSegments_scatter disjoint (gotSum_le env (iovTotal iov) m) content
  · intro a outside
    rw [finish_user, final.base.delivered.user]
    apply scatter_other
    intro p lt same
    have le : gotSum env (iovTotal iov) m ≤ iovTotal iov := gotSum_le _ _ _
    obtain ⟨seg, member, holds⟩ := iovAddr_holds (lt_of_lt_of_le lt le)
    have address : iovAddr iov p = a := same
    rw [address] at holds
    exact outside seg member holds
  · intro j size reqs member
    rw [finish_log] at member
    exact copy_nonneg final.base.safe member

def gathered (user : Memory) (iov : List Iovec) (buf : Nat) : Memory :=
  fun a => user (iovAddr iov (a - buf))

theorem gathered_content (user : Memory) (iov : List Iovec) (buf : Nat) :
    readRange (gathered user iov buf) buf (iovTotal iov) = readSegments user iov := by
  rw [readSegments_eq]
  apply readRange_congr
  intro p _
  rw [gathered, Nat.add_sub_cancel_left, Nat.zero_add]

/-- Five chunks in three segments, one of them empty. -/
def apartIov : List Iovec := [⟨4096, 3 * parasSize⟩, ⟨8192, 0⟩, ⟨0x1000000, parasSize + 5⟩]

/-- The file has three chunks and three bytes more. -/
def shortReadv : IoResult :=
  veAcceleratedIoReadvPreadv (Env.short 3 3)
    (.success (AccIoResources.sample.info (Env.short 3 3))) .preadv 7 (some apartIov)
    apartIov.length 100 .blank

theorem readv_scatters_read_short :
    (chunkCalls shortReadv.world.log).map ChunkCall.ret = [4194304, 4194304, 4194304, 3] ∧
      ScattersAs apartIov 65536 .blank shortReadv
        (veAcceleratedIoReadPread (Env.short 3 3)
          (.success (AccIoResources.sample.info (Env.short 3 3))) (readSyscallType .preadv) 7 65536
          (iovTotal apartIov) 100
          { World.blank with user := gathered World.blank.user apartIov 65536 }) := by
  have disjoint : SegmentsDisjoint apartIov := by
    simp only [SegmentsDisjoint, apartIov, Iovec.Holds, List.pairwise_cons, List.mem_cons,
      List.not_mem_nil, or_false, parasSize_eq]
    refine ⟨?_, ?_, by simp, List.Pairwise.nil⟩
    · rintro v (rfl | rfl) a holds other <;> simp only at holds other <;> omega
    · rintro v rfl a holds other
      simp only at holds other
      omega
  exact ⟨by decide +kernel, readv_scatters_read (Env.short 3 3) _ .preadv 7 apartIov 100 .blank
    65536 _ (by decide) (by decide) disjoint World.blank_fresh (by decide)
    (gathered_content World.blank.user apartIov 65536)⟩

/-! ## Gather and contiguous write -/

/-- What the vector write does, compared with a contiguous write `c`; `start` is its state at
the loop. -/
structure GathersAs (env : Env) (iov : List Iovec) (call : IoCall IovCursor)
    (start : IoState IovCursor) (v c : IoResult) : Prop where
  calls : chunkCalls v.world.log = chunkCalls c.world.log
  ret : v.ret = c.ret
  needWriteInSize : ∀ rounds j k, rounds ≤ call.chunkNum →
    (forLoop (writeBody env call) rounds 0 start).posted j = some k →
      (forLoop (writeBody env call) rounds 0 start).halfSize j =
        min (parasSize : Int) (iovTotal iov - parasSize * k)

theorem WriteJob.chunkCall_congr {Cursor Cursor' : Type} {job : WriteJob Cursor}
    {job' : WriteJob Cursor'} {k : Nat} (num : job.call.num = job'.call.num)
    (fd : job.call.fd = job'.call.fd) (io : job.io = job'.io) (env : job.env = job'.env)
    (total : job.total = job'.total) (ofs : job.ofs = job'.ofs)
    (bytes : ∀ i, i < chunkSize job.total k →
      job.stream (parasSize * k + i) = job'.stream (parasSize * k + i)) :
    job.chunkCall k = job'.chunkCall k := by
  have data := readRange_congr bytes
  rw [chunkCall, chunkCall, lastInfo, lastInfo, num, fd, ofs, data, io, env, total]

theorem writev_gathers_write (env : Env) (io : AccIoInfo) (num : SyscallNum) (fd : Int)
    (iov : List Iovec) (ofs : Int) (w : World) (buf : Nat) (user : Memory)
    (pos : 0 < iovTotal iov) (small : iovTotal iov < 2 ^ 48) (fresh : w.Fresh)
    (nonnull : buf ≠ 0)
    (content : readRange user buf (iovTotal iov) = readSegments w.user iov) :
    GathersAs env iov (iovCall (writeSyscallType num) fd iov) (.start w io ⟨0, 0⟩ ofs)
      (veAcceleratedIoWritevPwritev env (.success io) num fd (some iov) iov.length ofs w)
      (veAcceleratedIoWritePwrite env (.success io) (writeSyscallType num) fd buf (iovTotal iov)
        ofs { w with user := user }) := by
  have le : iovTotal iov ≤ maxTotal := by
    rw [maxTotal_eq]
    omega
  have segments : iov ≠ [] := by
    rintro rfl
    simp [iovTotal] at pos
  have fresh' : World.Fresh { w with user := user } := fresh
  let job := iovWriteJob env (writeSyscallType num) fd iov ofs io w le
  let job' := bufferWriteJob env (writeSyscallType num) fd buf (iovTotal iov) ofs io
    { w with user := user } le
  obtain ⟨n, final⟩ := iovWriteJob_spec env (writeSyscallType num) fd iov ofs io w le pos fresh
  obtain ⟨n', final'⟩ := bufferWriteJob_spec env (writeSyscallType num) fd buf (iovTotal iov)
    ofs io { w with user := user } le pos fresh'
  have head : job.Head 0 (.start w io ⟨0, 0⟩ ofs) :=
    WriteJob.head_start fresh rfl rfl rfl (iovAt_start iov)
  have head' : job'.Head 0 (.start { w with user := user } io buf ofs) :=
    WriteJob.head_start fresh' rfl rfl rfl rfl
  have same : SameShape
      (writeTransfer env (iovCall (writeSyscallType num) fd iov) (.start w io ⟨0, 0⟩ ofs))
      (writeTransfer env (bufferCall (writeSyscallType num) fd (iovTotal iov))
        (.start { w with user := user } io buf ofs)) :=
    WriteJob.writeTransfer_sameShape job job' rfl rfl (iovCall_sameCall _ fd le)
      (sameShape_start fresh fresh' rfl io _ buf ofs) head head'
  rw [veAcceleratedIoWritevPwritev_success env io num fd ofs w segments,
    veAcceleratedIoWritePwrite_success env io (writeSyscallType num) fd ofs _ pos nonnull]
  generalize writeTransfer env (iovCall (writeSyscallType num) fd iov)
    (.start w io ⟨0, 0⟩ ofs) = v at final same ⊢
  generalize writeTransfer env (bufferCall (writeSyscallType num) fd (iovTotal iov))
    (.start { w with user := user } io buf ofs) = c at final' same ⊢
  have count : n = n' := by
    rw [← final.base.issuedCalls.length, ← final'.base.issuedCalls.length]
    exact same.calls_length
  constructor
  · rw [finish_log, finish_log, final.base.calls, final'.base.calls, ← count]
    apply List.map_congr_left
    intro k member
    have inside : parasSize * k + chunkSize (iovTotal iov) k ≤ iovTotal iov :=
      chunk_end_le (lt_of_lt_of_le (List.mem_range.mp member) final.base.le)
    refine WriteJob.chunkCall_congr rfl rfl rfl rfl rfl rfl ?_
    intro i lt
    rw [readSegments_eq] at content
    have small : i < chunkSize (iovTotal iov) k := lt
    have byte := byte_eq_of_readRange content (show parasSize * k + i < iovTotal iov by omega)
    rw [Nat.zero_add] at byte
    exact byte.symm
  · rw [finish_ret, finish_ret]
    exact same.exitResult
  · intro rounds j k few posted
    rw [(iovCall_sized (writeSyscallType num) fd le).chunkNum_eq] at few
    obtain ⟨lt, size⟩ := WriteJob.needWriteInSize_full pos head few posted
    have inside : parasSize * k + chunkSize (iovTotal iov) k ≤ iovTotal iov := chunk_end_le lt
    have whole : ((chunkSize (iovTotal iov) k : Nat) : Int) =
        min (parasSize : Int) (iovTotal iov - parasSize * k) := by
      rw [chunkSize]
      omega
    exact size.trans whole

/-- Five chunks; the segments overlap. -/
def overlappingIov : List Iovec := [⟨4096, 3 * parasSize⟩, ⟨4096, 0⟩, ⟨4097, parasSize + 5⟩]

/-- The file takes three chunks and three bytes more. -/
def shortWritev : IoResult :=
  veAcceleratedIoWritevPwritev (Env.short 3 3)
    (.success (AccIoResources.sample.info (Env.short 3 3))) .pwritev 7 (some overlappingIov)
    overlappingIov.length 100 .blank

theorem writev_gathers_write_short :
    (chunkCalls shortWritev.world.log).map ChunkCall.ret = [4194304, 4194304, 4194304, 3] ∧
      GathersAs (Env.short 3 3) overlappingIov
        (iovCall (writeSyscallType .pwritev) 7 overlappingIov)
        (.start .blank (AccIoResources.sample.info (Env.short 3 3)) ⟨0, 0⟩ 100) shortWritev
        (veAcceleratedIoWritePwrite (Env.short 3 3)
          (.success (AccIoResources.sample.info (Env.short 3 3))) (writeSyscallType .pwritev) 7
          65536 (iovTotal overlappingIov) 100
          { World.blank with user := gathered World.blank.user overlappingIov 65536 }) :=
  ⟨by decide +kernel, writev_gathers_write (Env.short 3 3) _ .pwritev 7 overlappingIov 100 .blank
    65536 _ (by decide) (by decide) World.blank_fresh (by decide)
    (gathered_content World.blank.user overlappingIov 65536)⟩

end Libsysve.AccIo
