import Libsysve.Vedma.Linearize

/-!
# The accesses of vedma_main.S in every order

What is proved of the ring, where a section is one step, carries over to the accesses of any
number of threads and of the hardware.
-/

set_option autoImplicit false

namespace Libsysve.Vedma

variable {Handle Thread : Type} [DecidableEq Handle] [DecidableEq Thread]
  {L : Ledger Handle Thread}

def ringAlong (desc : DescIndex → DmaDesc) (handle : Handle → VeDmaHandle)
    (trace : List (CpuEntry Handle Thread)) :
    List (Entry (ServedRing Handle Thread) (RingLabel Handle Thread) (Option Int)) :=
  (ringMachine Handle Thread).along cpuMark
    { object := Ring.initial desc handle, phase := fun _ => .idle } trace

variable (Handle Thread) in
/-- `Usage`, said of the ring that is called. -/
def servedUsage : Monitor (Ledger Handle Thread)
    (Entry (ServedRing Handle Thread) (RingLabel Handle Thread) (Option Int)) :=
  (Monitor.mk Ledger.blank Ledger.observe Usage).through Machine.operation

def ServedFacts (L : Ledger Handle Thread) (r : ServedRing Handle Thread) : Prop :=
  RingFacts L r.object

theorem ServedFacts.step {r r' : ServedRing Handle Thread} {label : RingLabel Handle Thread}
    {out : Option Int} (facts : ServedFacts L r)
    (stepped : (ringMachine Handle Thread).step r label = some (out, r'))
    (usage : (servedUsage Handle Thread).allowed L ⟨r, label, out, r'⟩) :
    ServedFacts ((servedUsage Handle Thread).after L ⟨r, label, out, r'⟩) r' := by
  rcases Machine.atomic_operation stepped with ⟨none, same⟩ | ⟨op, taken, inner⟩
  · have still : (servedUsage Handle Thread).after L ⟨r, label, out, r'⟩ = L := by
      simp [servedUsage, Monitor.through, none]
    rw [ServedFacts, still, same]
    exact facts
  · have next : (servedUsage Handle Thread).after L ⟨r, label, out, r'⟩ =
        L.observe ⟨r.object, op, out, r'.object⟩ := by
      simp [servedUsage, Monitor.through, taken]
    rw [ServedFacts, next]
    exact RingFacts.step facts inner (usage _ taken)

variable (desc : DescIndex → DmaDesc) (handle : Handle → VeDmaHandle)

def ringSteps (trace : List (CpuEntry Handle Thread)) : List (DmaEntry Handle Thread) :=
  (ringAlong desc handle trace).filterMap Machine.operation

theorem ringSteps_run (trace : List (CpuEntry Handle Thread)) :
    ∃ s : Ring Handle Thread,
      (dmaMachine Handle Thread).Run (Ring.initial desc handle) (ringSteps desc handle trace) s :=
  ⟨_, (Machine.along_run (ringMachine Handle Thread) cpuMark
    ⟨Ring.initial desc handle, fun _ => .idle⟩ trace).operations⟩

theorem cpu_along {sl : Thread → BitVec 64} (nonzero : ∀ t, sl t ≠ 0)
    (stopped : ∀ i, (desc i).word ≠ 1) {trace : List (CpuEntry Handle Thread)}
    {final : Cpu Handle Thread}
    (run : (cpuMachine Handle sl).Run (Cpu.initial desc handle) trace final)
    (usage : (servedUsage Handle Thread).Safe (ringAlong desc handle trace)) :
    Machine.Simulated (ringMachine Handle Thread) cpuMark LinkedRing cpuEvent
        Machine.historyEvent ⟨Ring.initial desc handle, fun _ => .idle⟩ trace final ∧
      ServedFacts ((servedUsage Handle Thread).stateAfter (ringAlong desc handle trace))
        ((ringMachine Handle Thread).stateAlong cpuMark
          ⟨Ring.initial desc handle, fun _ => .idle⟩ trace) := by
  have initially : ServedFacts Ledger.blank
      (⟨Ring.initial desc handle, fun _ => .idle⟩ : ServedRing Handle Thread) :=
    ringFacts_initial desc handle stopped
  exact run.simulated initially ⟨[], linked_initial desc handle⟩
    (fun L s label out s' facts stepped used => facts.step stepped used)
    (fun L f s label out f' facts linked stepped => matched_step nonzero facts linked stepped)
    usage

/-- A run of the accesses with handles that are used properly, and the ring along with it. -/
theorem cpu_simulated {sl : Thread → BitVec 64} (nonzero : ∀ t, sl t ≠ 0)
    (stopped : ∀ i, (desc i).word ≠ 1) {trace : List (CpuEntry Handle Thread)}
    {final : Cpu Handle Thread}
    (run : (cpuMachine Handle sl).Run (Cpu.initial desc handle) trace final)
    (usage : (Monitor.mk Ledger.blank Ledger.observe Usage).Safe
      (ringSteps desc handle trace)) :
    ∃ s : ServedRing Handle Thread,
      (ringMachine Handle Thread).Run ⟨Ring.initial desc handle, fun _ => .idle⟩
          (ringAlong desc handle trace) s ∧
        LinkedRing final s ∧
        trace.filterMap cpuEvent =
          (ringAlong desc handle trace).filterMap Machine.historyEvent ∧
        ∃ L, RingFacts L s.object := by
  obtain ⟨simulated, facts⟩ :=
    cpu_along desc handle nonzero stopped run ((Monitor.through_safe _ _ _).mpr usage)
  exact ⟨_, simulated.run, simulated.related, simulated.history, _, facts⟩

/-- In every run of the accesses of any number of threads, with handles that are used
properly, the threads see what they would see if every section were one step of the ring;
that ring delivers every result to its own request; and it is what is in the memory whenever
the lock is free. -/
theorem accesses_linearizable (sl : Thread → BitVec 64) (nonzero : ∀ t, sl t ≠ 0)
    (stopped : ∀ i, (desc i).word ≠ 1) (trace : List (CpuEntry Handle Thread))
    (final : Cpu Handle Thread)
    (run : (cpuMachine Handle sl).Run (Cpu.initial desc handle) trace final)
    (usage : (Monitor.mk Ledger.blank Ledger.observe Usage).Safe (ringSteps desc handle trace)) :
    ∃ s : ServedRing Handle Thread,
      (ringMachine Handle Thread).Run ⟨Ring.initial desc handle, fun _ => .idle⟩
          (ringAlong desc handle trace) s ∧
        trace.filterMap cpuEvent =
          (ringAlong desc handle trace).filterMap Machine.historyEvent ∧
        (Monitor.mk Ledger.blank Ledger.observe Delivers).Safe (ringSteps desc handle trace) ∧
        (final.memory.vedmaLock = 0 → s.object = final.memory.ring final.tails) := by
  obtain ⟨s, ran, ⟨left, linked⟩, history, _⟩ :=
    cpu_simulated desc handle nonzero stopped run usage
  refine ⟨s, ran, history, ?_, ?_⟩
  · refine ran.operations.guarantee (deliveryInv_initial desc handle) ?_ usage
    intro L s label out s' inv stepped used
    exact ⟨inv.delivers (dmaStep_effect stepped) used, inv.step stepped used⟩
  · intro free
    obtain rfl := linked.leaves.nobody (linked.exclusive.free free)
    exact linked.ring

/-- Thread 0 posts handle 0 and polls it; thread 1 has to wait for the lock, and its
synchronous request gets code 5. -/
def contendedLabels : List (CpuLabel Nat Nat) :=
  [.call 0 (.request ⟨0x100, 0x200, 8, some 0⟩), .access 0,
    .call 1 (.request ⟨0x300, 0x400, 8, none⟩), .access 1] ++
    List.replicate 6 (.access 0) ++ [.hardware 0 2, .access 1] ++
    List.replicate 6 (.access 0) ++ List.replicate 9 (.access 1) ++
    [.call 0 (.poll 0), .access 1, .access 0, .hardware 1 0x0005000000000002, .access 1] ++
    List.replicate 6 (.access 0) ++ [.access 1, .access 1]

def blankDesc : DescIndex → DmaDesc := fun _ => ⟨0, 0, 0, 0⟩

def blankHandle : Nat → VeDmaHandle := fun _ => ⟨0, 0⟩

theorem accesses_linearizable_contended :
    ∃ trace final, (cpuMachine Nat (fun _ => 0x1000)).exec (Cpu.initial blankDesc blankHandle)
        contendedLabels = some (trace, final) ∧
      trace.filterMap Entry.out = [0, 0, 5] ∧ final.memory.vedmaLock = 0 ∧
      ∃ s : ServedRing Nat Nat, s.object = final.memory.ring final.tails ∧
        trace.filterMap cpuEvent =
          (ringAlong blankDesc blankHandle trace).filterMap Machine.historyEvent ∧
        (Monitor.mk Ledger.blank Ledger.observe Delivers).Safe
          (ringSteps blankDesc blankHandle trace) := by
  have checked : ((cpuMachine Nat (fun _ => 0x1000)).exec (Cpu.initial blankDesc blankHandle)
      contendedLabels).any (fun done =>
        decide (done.1.filterMap Entry.out = [0, 0, 5] ∧ done.2.memory.vedmaLock = 0 ∧
          (Monitor.mk Ledger.blank Ledger.observe Usage).SafeFrom Ledger.blank
            (ringSteps blankDesc blankHandle done.1))) = true := by
    decide +kernel
  rw [Option.any_eq_true] at checked
  obtain ⟨⟨trace, final⟩, ran, holds⟩ := checked
  obtain ⟨outs, free, used⟩ := of_decide_eq_true holds
  have usage := (Monitor.mk Ledger.blank Ledger.observe Usage).safe_of_safeFrom _ used
  obtain ⟨s, _, history, delivers, memory⟩ := accesses_linearizable blankDesc blankHandle
    (fun _ => 0x1000) (fun _ => by decide) (fun _ => by simp [blankDesc]) trace final
    (Machine.exec_run ran) usage
  exact ⟨trace, final, ran, outs, free, s, memory free, history, delivers⟩

end Libsysve.Vedma
