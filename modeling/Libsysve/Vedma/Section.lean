import Libsysve.Vedma.Assembly

/-!
# One thread at a time holds vedma_lock

The lock word is zero exactly when no thread is between its `cas` and the store that unlocks.
The `cas` that takes the lock may store a word that it has read from an earlier holder.
-/

set_option autoImplicit false

namespace Libsysve.Vedma

variable {Handle Thread : Type}

/-- Between the `cas` that took the lock and the store that gives it back. -/
def Pc.locked : Pc Handle → Bool
  | .outside | .cas _ _ | .lhmWait _ _ | .stWait _ _ _ | .ret _ => false
  | .ldIndex _ | .ldStatus _ _ | .lhmDesc _ _ | .ldHandle _ _ _ | .ldlStatus _ | .ldlIndex _
  | .lhmPoll _ _ | .stores _ _ => true

@[simp] theorem Call.section_locked (c : Call Handle) : c.section.locked = true := by
  cases c with
  | request q => rfl
  | poll h => rfl

@[simp] theorem Exit.pc_locked (exit : Exit Handle) : exit.pc.locked = false := by
  cases exit with
  | returns s0 => rfl
  | waits q s34 => rfl

theorem Request.busy_locked {q : Request Handle} {again : Pc Handle}
    (locked : again.locked = true) : (q.busy again).locked = true := by
  unfold Request.busy
  split
  · rfl
  · exact locked

/-! ## The lock -/

structure Exclusive (f : Cpu Handle Thread) : Prop where
  free : f.memory.vedmaLock = 0 → ∀ t, (f.pc t).locked = false
  held : f.memory.vedmaLock ≠ 0 → ∃ t, (f.pc t).locked = true
  one : ∀ t u, (f.pc t).locked = true → (f.pc u).locked = true → t = u
  register : ∀ t call s63, f.pc t = .cas call s63 → s63 ≠ 0

theorem exclusive_initial (desc : DescIndex → DmaDesc) (handle : Handle → VeDmaHandle) :
    Exclusive (Cpu.initial desc handle : Cpu Handle Thread) where
  free _ t := rfl
  held locked := absurd rfl locked
  one t u locked := absurd locked (by simp [Cpu.initial, Pc.locked])
  register t call s63 pc := absurd pc (by simp [Cpu.initial])

section
variable [DecidableEq Thread] {f : Cpu Handle Thread} {m : Memory Handle} {pc : Pc Handle}
  {t : Thread}

@[simp] theorem Cpu.move_self : (f.move t m pc).pc t = pc :=
  Function.update_self ..

theorem Cpu.move_other {u : Thread} (other : u ≠ t) : (f.move t m pc).pc u = f.pc u :=
  Function.update_of_ne other ..

theorem Exclusive.stay (exclusive : Exclusive f)
    (lock : m.vedmaLock = f.memory.vedmaLock) (same : pc.locked = (f.pc t).locked)
    (register : ∀ call s63, pc = .cas call s63 → s63 ≠ 0) : Exclusive (f.move t m pc) := by
  have unchanged : ∀ u, ((f.move t m pc).pc u).locked = (f.pc u).locked := by
    intro u
    by_cases here : u = t
    · rw [here, Cpu.move_self, same]
    · rw [Cpu.move_other here]
  constructor
  · intro free u
    rw [unchanged]
    exact exclusive.free (lock.symm.trans free) u
  · intro held
    obtain ⟨u, locked⟩ := exclusive.held (fun zero => held (lock.trans zero))
    exact ⟨u, by rw [unchanged, locked]⟩
  · intro u v lockedU lockedV
    rw [unchanged] at lockedU lockedV
    exact exclusive.one u v lockedU lockedV
  · intro u call s63 next
    by_cases here : u = t
    · rw [here, Cpu.move_self] at next
      exact register call s63 next
    · rw [Cpu.move_other here] at next
      exact exclusive.register u call s63 next

theorem Exclusive.enter (exclusive : Exclusive f) (free : f.memory.vedmaLock = 0)
    (locked : pc.locked = true) (taken : m.vedmaLock ≠ 0) : Exclusive (f.move t m pc) := by
  have only : ∀ u, ((f.move t m pc).pc u).locked = true → u = t := by
    intro u lockedU
    by_contra other
    rw [Cpu.move_other other, exclusive.free free u] at lockedU
    exact absurd lockedU (by simp)
  constructor
  · exact fun zero => absurd zero taken
  · exact fun _ => ⟨t, by rw [Cpu.move_self, locked]⟩
  · exact fun u v lockedU lockedV => (only u lockedU).trans (only v lockedV).symm
  · intro u call s63 next
    by_cases here : u = t
    · rw [here, Cpu.move_self] at next
      rw [next] at locked
      exact absurd locked (by simp [Pc.locked])
    · rw [Cpu.move_other here] at next
      exact exclusive.register u call s63 next

theorem Exclusive.leave (exclusive : Exclusive f)
    (was : (f.pc t).locked = true) (out : pc.locked = false) (given : m.vedmaLock = 0)
    (register : ∀ call s63, pc = .cas call s63 → s63 ≠ 0) : Exclusive (f.move t m pc) := by
  have nobody : ∀ u, ((f.move t m pc).pc u).locked = false := by
    intro u
    by_cases here : u = t
    · rw [here, Cpu.move_self, out]
    · rw [Cpu.move_other here, Bool.eq_false_iff]
      exact fun lockedU => here (exclusive.one u t lockedU was)
  constructor
  · exact fun _ => nobody
  · exact fun held => absurd given held
  · intro u v lockedU
    rw [nobody u] at lockedU
    exact absurd lockedU (by simp)
  · intro u call s63 next
    by_cases here : u = t
    · rw [here, Cpu.move_self] at next
      exact register call s63 next
    · rw [Cpu.move_other here] at next
      exact exclusive.register u call s63 next

end

/-! ## The accesses -/

variable [DecidableEq Handle] {m m' : Memory Handle} {pc pc' : Pc Handle} {out : Option Int}

@[simp] theorem Memory.store_lock (w : Store Handle) : (m.store w).vedmaLock = m.vedmaLock := by
  cases w <;> rfl

inductive Accessed (m : Memory Handle) :
    Pc Handle → Option Int → Memory Handle → Pc Handle → Prop
  | taken (call s63) (free : m.vedmaLock = 0) :
      Accessed m (.cas call s63) none (m.setLock s63) call.section
  | refused (call s63) (held : m.vedmaLock ≠ 0) :
      Accessed m (.cas call s63) none m (.cas call m.vedmaLock)
  | ldIndex (q) : Accessed m (.ldIndex q) none m (.ldStatus q m.vedmaIndex)
  | statusSync (q i) (entry : m.vedmaStatus i = .sync) :
      Accessed m (.ldStatus q i) none m (q.busy (.ldStatus q i))
  | statusNull (q i) (entry : m.vedmaStatus i = .null) :
      Accessed m (.ldStatus q i) none m (.stores (q.start i) (q.exit i))
  | statusHandle (q i g) (entry : m.vedmaStatus i = .handle g) :
      Accessed m (.ldStatus q i) none m (.lhmDesc q i)
  | descDone (q i) (done : completed (m.vedmaDesc i).word = true) :
      Accessed m (.lhmDesc q i) none m (.ldHandle q i (exception (m.vedmaDesc i).word))
  | descBusy (q i) (busy : completed (m.vedmaDesc i).word = false) :
      Accessed m (.lhmDesc q i) none m (q.busy (.lhmDesc q i))
  | ldHandle (q i s62 g) (entry : m.vedmaStatus i = .handle g) :
      Accessed m (.ldHandle q i s62) none m
        (.stores (.handleStatus g s62 :: .status i .null :: q.start i) (q.exit i))
  | pollSaved (h) (saved : (m.handle h).status ≠ -1) :
      Accessed m (.ldlStatus h) none m (.stores [] (.returns (m.handle h).status))
  | pollFresh (h) (fresh : (m.handle h).status = -1) :
      Accessed m (.ldlStatus h) none m (.ldlIndex h)
  | ldlIndex (h) : Accessed m (.ldlIndex h) none m (.lhmPoll h (m.handle h).index)
  | pollDone (h i) (done : completed (m.vedmaDesc i).word = true) :
      Accessed m (.lhmPoll h i) none m
        (.stores [.status i .null] (.returns (exception (m.vedmaDesc i).word)))
  | pollBusy (h i) (busy : completed (m.vedmaDesc i).word = false) :
      Accessed m (.lhmPoll h i) none m (.stores [] (.returns (-eagain)))
  | store (next left exit) :
      Accessed m (.stores (next :: left) exit) none (m.store next) (.stores left exit)
  | unlock (exit) : Accessed m (.stores [] exit) none (m.setLock 0) exit.pc
  | waitDone (q i) (done : completed (m.vedmaDesc i).word = true) :
      Accessed m (.lhmWait q i) none m (.stWait q i (m.vedmaDesc i).word)
  | waitBusy (q i) (busy : completed (m.vedmaDesc i).word = false) :
      Accessed m (.lhmWait q i) none m (.lhmWait q i)
  | stWait (q i word) :
      Accessed m (.stWait q i word) none (m.setStatus i .null) (.ret (exception word))
  | ret (s0) : Accessed m (.ret s0) (some s0) m .outside

theorem access_cases (step : access m pc = some (out, m', pc')) : Accessed m pc out m' pc' := by
  cases pc with
  | outside => simp [access] at step
  | cas call s63 =>
    by_cases free : m.vedmaLock = 0
    · simp only [access, if_pos free, Option.some.injEq, Prod.mk.injEq] at step
      obtain ⟨rfl, rfl, rfl⟩ := step
      exact .taken call s63 free
    · simp only [access, if_neg free, Option.some.injEq, Prod.mk.injEq] at step
      obtain ⟨rfl, rfl, rfl⟩ := step
      exact .refused call s63 free
  | ldIndex q =>
    simp only [access, Option.some.injEq, Prod.mk.injEq] at step
    obtain ⟨rfl, rfl, rfl⟩ := step
    exact .ldIndex q
  | ldStatus q i =>
    cases entry : m.vedmaStatus i with
    | null =>
      simp only [access, entry, Option.some.injEq, Prod.mk.injEq] at step
      obtain ⟨rfl, rfl, rfl⟩ := step
      exact .statusNull q i entry
    | sync =>
      simp only [access, entry, Option.some.injEq, Prod.mk.injEq] at step
      obtain ⟨rfl, rfl, rfl⟩ := step
      exact .statusSync q i entry
    | handle g =>
      simp only [access, entry, Option.some.injEq, Prod.mk.injEq] at step
      obtain ⟨rfl, rfl, rfl⟩ := step
      exact .statusHandle q i g entry
  | lhmDesc q i =>
    by_cases done : completed (m.vedmaDesc i).word = true
    · simp only [access, if_pos done, Option.some.injEq, Prod.mk.injEq] at step
      obtain ⟨rfl, rfl, rfl⟩ := step
      exact .descDone q i done
    · simp only [access, if_neg done, Option.some.injEq, Prod.mk.injEq] at step
      obtain ⟨rfl, rfl, rfl⟩ := step
      exact .descBusy q i (by simpa using done)
  | ldHandle q i s62 =>
    cases entry : m.vedmaStatus i with
    | null => simp [access, entry] at step
    | sync => simp [access, entry] at step
    | handle g =>
      simp only [access, entry, Option.some.injEq, Prod.mk.injEq] at step
      obtain ⟨rfl, rfl, rfl⟩ := step
      exact .ldHandle q i s62 g entry
  | ldlStatus h =>
    by_cases fresh : (m.handle h).status = -1
    · simp only [access, if_neg (not_not.mpr fresh), Option.some.injEq, Prod.mk.injEq] at step
      obtain ⟨rfl, rfl, rfl⟩ := step
      exact .pollFresh h fresh
    · simp only [access, if_pos fresh, Option.some.injEq, Prod.mk.injEq] at step
      obtain ⟨rfl, rfl, rfl⟩ := step
      exact .pollSaved h fresh
  | ldlIndex h =>
    simp only [access, Option.some.injEq, Prod.mk.injEq] at step
    obtain ⟨rfl, rfl, rfl⟩ := step
    exact .ldlIndex h
  | lhmPoll h i =>
    by_cases done : completed (m.vedmaDesc i).word = true
    · simp only [access, if_pos done, Option.some.injEq, Prod.mk.injEq] at step
      obtain ⟨rfl, rfl, rfl⟩ := step
      exact .pollDone h i done
    · simp only [access, if_neg done, Option.some.injEq, Prod.mk.injEq] at step
      obtain ⟨rfl, rfl, rfl⟩ := step
      exact .pollBusy h i (by simpa using done)
  | stores left exit =>
    cases left with
    | nil =>
      simp only [access, Option.some.injEq, Prod.mk.injEq] at step
      obtain ⟨rfl, rfl, rfl⟩ := step
      exact .unlock exit
    | cons next left =>
      simp only [access, Option.some.injEq, Prod.mk.injEq] at step
      obtain ⟨rfl, rfl, rfl⟩ := step
      exact .store next left exit
  | lhmWait q i =>
    by_cases done : completed (m.vedmaDesc i).word = true
    · simp only [access, if_pos done, Option.some.injEq, Prod.mk.injEq] at step
      obtain ⟨rfl, rfl, rfl⟩ := step
      exact .waitDone q i done
    · simp only [access, if_neg done, Option.some.injEq, Prod.mk.injEq] at step
      obtain ⟨rfl, rfl, rfl⟩ := step
      exact .waitBusy q i (by simpa using done)
  | stWait q i word =>
    simp only [access, Option.some.injEq, Prod.mk.injEq] at step
    obtain ⟨rfl, rfl, rfl⟩ := step
    exact .stWait q i word
  | ret s0 =>
    simp only [access, Option.some.injEq, Prod.mk.injEq] at step
    obtain ⟨rfl, rfl, rfl⟩ := step
    exact .ret s0

theorem Accessed.lock (accessed : Accessed m pc out m' pc') :
    (m'.vedmaLock = m.vedmaLock ∧ pc'.locked = pc.locked) ∨
      (m.vedmaLock = 0 ∧ pc'.locked = true ∧ ∃ call, pc = .cas call m'.vedmaLock) ∨
      (pc.locked = true ∧ pc'.locked = false ∧ m'.vedmaLock = 0) := by
  cases accessed with
  | taken call s63 free => exact Or.inr (Or.inl ⟨free, call.section_locked, call, rfl⟩)
  | statusSync q i entry => exact Or.inl ⟨rfl, Request.busy_locked rfl⟩
  | descBusy q i busy => exact Or.inl ⟨rfl, Request.busy_locked rfl⟩
  | store next left exit => exact Or.inl ⟨m.store_lock next, rfl⟩
  | unlock exit => exact Or.inr (Or.inr ⟨rfl, exit.pc_locked, rfl⟩)
  | _ => exact Or.inl ⟨rfl, rfl⟩

/-- A `cas` is tried again with a lock word that was not zero. -/
theorem Accessed.register (accessed : Accessed m pc out m' pc') {call : Call Handle}
    {s63 : BitVec 64} (again : pc' = .cas call s63) : s63 ≠ 0 := by
  cases accessed with
  | taken call' s63' free => cases call' <;> simp [Call.section] at again
  | refused call' s63' held =>
    simp only [Pc.cas.injEq] at again
    exact again.2 ▸ held
  | statusSync q i entry => cases handle : q.handle <;> simp [Request.busy, handle] at again
  | descBusy q i busy => cases handle : q.handle <;> simp [Request.busy, handle] at again
  | unlock exit => cases exit <;> simp [Exit.pc] at again
  | _ => simp at again

/-! ## The steps of the machine -/

variable [DecidableEq Thread] {sl : Thread → BitVec 64} {f f' : Cpu Handle Thread}

inductive CpuEffect (sl : Thread → BitVec 64) (f : Cpu Handle Thread) :
    CpuLabel Handle Thread → Option Int → Cpu Handle Thread → Prop
  | call (t c) (outside : f.pc t = .outside) :
      CpuEffect sl f (.call t c) none (f.move t f.memory (.cas c (sl t)))
  | access (t out m pc) (accessed : Accessed f.memory (f.pc t) out m pc) :
      CpuEffect sl f (.access t) out (f.move t m pc)
  | hardware (i word) (busy : (f.memory.vedmaDesc i).word = 1)
      (done : completed word = true) :
      CpuEffect sl f (.hardware i word) none (f.setMemory (f.memory.store (.word i word)))

theorem cpuStep_effect {label : CpuLabel Handle Thread}
    (stepped : cpuStep sl f label = some (out, f')) : CpuEffect sl f label out f' := by
  cases label with
  | call t c =>
    cases pc : f.pc t <;> simp only [cpuStep, pc, reduceCtorEq, Option.some.injEq,
      Prod.mk.injEq] at stepped
    obtain ⟨rfl, rfl⟩ := stepped
    exact .call t c pc
  | access t =>
    simp only [cpuStep, Option.map_eq_some_iff, Prod.mk.injEq] at stepped
    obtain ⟨⟨out', m, pc⟩, step, rfl, rfl⟩ := stepped
    exact .access t out' m pc (access_cases step)
  | hardware i word =>
    by_cases enabled : (f.memory.vedmaDesc i).word = 1 ∧ completed word = true
    · simp only [cpuStep, if_pos enabled, Option.some.injEq, Prod.mk.injEq] at stepped
      obtain ⟨rfl, rfl⟩ := stepped
      exact .hardware i word enabled.1 enabled.2
    · rw [cpuStep, if_neg enabled] at stepped
      exact absurd stepped (by simp)

theorem Exclusive.step {label : CpuLabel Handle Thread} (nonzero : ∀ t, sl t ≠ 0)
    (exclusive : Exclusive f) (effect : CpuEffect sl f label out f') : Exclusive f' := by
  cases effect with
  | call t c outside =>
    refine exclusive.stay rfl (by rw [outside]; rfl) (fun call s63 next => ?_)
    rw [← (Pc.cas.inj next).2]
    exact nonzero t
  | access t out m pc accessed =>
    rcases accessed.lock with ⟨lock, same⟩ | ⟨free, locked, call, cas⟩ | ⟨was, out, given⟩
    · exact exclusive.stay lock same fun call s63 => accessed.register
    · exact exclusive.enter free locked (exclusive.register t call _ cas)
    · exact exclusive.leave was out given fun call s63 => accessed.register
  | hardware i word busy done =>
    exact ⟨exclusive.free, exclusive.held, exclusive.one, exclusive.register⟩

/-- The accesses that leave everything but the lock as it is, and those that do not. -/
def Writes (e : Entry (Cpu Handle Thread) (CpuLabel Handle Thread) (Option Int)) : Prop :=
  match e.label with
  | .call _ _ => e.after.memory = e.before.memory
  | .hardware i word => (e.before.memory.vedmaDesc i).word = 1 ∧
      e.after.memory = e.before.memory.store (.word i word)
  | .access t => (e.before.pc t).locked = true ∨
      (∃ x, e.after.memory = e.before.memory.setLock x) ∨
      ∃ q i x, e.before.pc t = .stWait q i x ∧
        e.after.memory = e.before.memory.setStatus i .null

theorem CpuEffect.writes {label : CpuLabel Handle Thread} (effect : CpuEffect sl f label out f') :
    Writes ⟨f, label, out, f'⟩ := by
  cases effect with
  | call t c outside => exact rfl
  | hardware i word busy done => exact ⟨busy, rfl⟩
  | access t out m pc accessed =>
    have same : ∃ x, f.memory = f.memory.setLock x := ⟨f.memory.vedmaLock, rfl⟩
    generalize here : f.pc t = before at accessed
    refine (?_ : (f.pc t).locked = true ∨ (∃ x, m = f.memory.setLock x) ∨
      ∃ q i x, f.pc t = .stWait q i x ∧ m = f.memory.setStatus i .null)
    rw [here]
    cases accessed with
    | taken call s63 free => exact Or.inr (Or.inl ⟨s63, rfl⟩)
    | refused call s63 held => exact Or.inr (Or.inl same)
    | waitDone q i done => exact Or.inr (Or.inl same)
    | waitBusy q i busy => exact Or.inr (Or.inl same)
    | stWait q i word => exact Or.inr (Or.inr ⟨q, i, word, rfl, rfl⟩)
    | ret s0 => exact Or.inr (Or.inl same)
    | _ => exact Or.inl rfl

/-- In every run, whatever handles are used, at most one thread is in its section, the lock
word is zero exactly when nobody is, and the ring is only written by that thread, by the
hardware and by the end of `ve_dma_post_wait`. -/
theorem sections_exclusive (sl : Thread → BitVec 64) (nonzero : ∀ t, sl t ≠ 0)
    (desc : DescIndex → DmaDesc) (handle : Handle → VeDmaHandle)
    (trace : List (Entry (Cpu Handle Thread) (CpuLabel Handle Thread) (Option Int)))
    (final : Cpu Handle Thread)
    (run : (cpuMachine Handle sl).Run (Cpu.initial desc handle) trace final) :
    (∀ t u, (final.pc t).locked = true → (final.pc u).locked = true → t = u) ∧
      (final.memory.vedmaLock = 0 ↔ ∀ t, (final.pc t).locked = false) ∧
      ∀ e ∈ trace, Writes e := by
  have invariant := run.every (exclusive_initial desc handle)
    (fun s label out s' exclusive stepped =>
      ⟨exclusive.step nonzero (cpuStep_effect stepped), (cpuStep_effect stepped).writes⟩)
  obtain ⟨exclusive, writes⟩ := invariant
  refine ⟨exclusive.one, ⟨exclusive.free, fun free => ?_⟩, writes⟩
  by_contra held
  obtain ⟨t, locked⟩ := exclusive.held held
  rw [free t] at locked
  exact absurd locked (by simp)

/-- The first thread gives the lock back while the second still has the word it has read. -/
def staleLabels : List (CpuLabel Nat Bool) :=
  [.call false (.poll 0), .access false, .call true (.poll 0), .access true, .access false,
    .access false, .access true]

def twoStacks : Bool → BitVec 64
  | false => 0x1000
  | true => 0x2000

theorem sections_exclusive_stale :
    ∃ trace final, (cpuMachine Nat twoStacks).exec
        (Cpu.initial (fun _ => ⟨0, 0, 0, 0⟩) (fun _ => ⟨0, 0⟩)) staleLabels =
          some (trace, final) ∧
      -- the word of the first thread, in the section of the second
      final.memory.vedmaLock = 0x1000 ∧ ∀ t, (final.pc t).locked = true → t = true := by
  have checked : ((cpuMachine Nat twoStacks).exec
      (Cpu.initial (fun _ => ⟨0, 0, 0, 0⟩) (fun _ => ⟨0, 0⟩)) staleLabels).any (fun done =>
        decide (done.2.memory.vedmaLock = 0x1000 ∧ (done.2.pc true).locked = true)) = true := by
    decide +kernel
  rw [Option.any_eq_true] at checked
  obtain ⟨⟨trace, final⟩, ran, holds⟩ := checked
  obtain ⟨stale, locked⟩ := of_decide_eq_true holds
  have exclusive := sections_exclusive twoStacks (by decide) _ _ trace final (Machine.exec_run ran)
  exact ⟨trace, final, ran, stale, fun t lockedT => exclusive.1 t true lockedT locked⟩

end Libsysve.Vedma
