import Mathlib.Logic.Relation
import Libsysve.AccIo.ListAtomic

/-!
# The locked sections end

No section waits for itself or for a thread that a fork has left behind: from every state
that is reached, the next statements of the sections lead each thread out of its section,
and a thread that has the lock gives it back after at most four statements of its own.
-/

set_option autoImplicit false

namespace Libsysve.AccIo

variable {Thread : Type} [DecidableEq Thread] {s s' : ListProcess Thread}
  {c : AccProcess Thread} {t : Thread} {op : ListOp} {env : Env} {pdma : Bool}

def NextStep (env : Env) (pdma : Bool) (s s' : ListProcess Thread) : Prop :=
  ∃ t op, s.next env pdma t = some (op, s')

abbrev NextSteps (env : Env) (pdma : Bool) : ListProcess Thread → ListProcess Thread → Prop :=
  Relation.ReflTransGen (NextStep env pdma)

theorem LockInv.nextSteps (inv : LockInv s) (steps : NextSteps env pdma s s') : LockInv s' := by
  induction steps with
  | refl => exact inv
  | tail _ step ih =>
    obtain ⟨t, op, stepped⟩ := step
    exact ih.next (next_move stepped)

/-- What the section of a thread does not touch. -/
structure Elsewhere (t : Thread) (s s' : ListProcess Thread) : Prop where
  saved : s'.sigsetOld = s.sigsetOld
  others : ∀ u, u ≠ t → s'.point u = s.point u

omit [DecidableEq Thread] in
theorem Elsewhere.trans {s'' : ListProcess Thread} (first : Elsewhere t s s')
    (second : Elsewhere t s' s'') : Elsewhere t s s'' where
  saved := second.saved.trans first.saved
  others u other := (second.others u other).trans (first.others u other)

theorem NextMove.elsewhere (moved : NextMove env pdma s t op s') : Elsewhere t s s' where
  saved := moved.sigsetOld
  others u other := by
    cases moved with
    | child p here =>
      cases p with
      | walk temp => cases temp <;> exact Function.update_of_ne other ..
      | _ => exact Function.update_of_ne other ..
    | _ => exact Function.update_of_ne other ..

theorem LockInv.leaves {part : ListSection} {made : Nat} (env : Env) (pdma : Bool)
    (inv : LockInv s)
    (here : s.point t = .locked part made) :
    ∃ result process, s.leave env pdma t part = some (result, process) := by
  have meant : part.Meant (s.process.thread t) := (inv t).meant part (by rw [here]; rfl)
  cases part with
  | insert a =>
    obtain ⟨after, stepped⟩ := insert_step env pdma (meant.resolve_left (by simp))
    have moved := stepped s.process.heap
    refine ⟨.insert a, ⟨s.process.heap, Function.update s.process.thread t after⟩, ?_⟩
    simp only [ListProcess.leave]
    rw [show s.process.step env pdma (.io t (.step .quiet)) = _ from moved]
    rfl
  | unlink a =>
    obtain ⟨after, stepped⟩ := unlink_step env pdma (meant.resolve_left (by simp))
    have moved := stepped s.process.heap
    refine ⟨.unlink a, ⟨s.process.heap, Function.update s.process.thread t after⟩, ?_⟩
    simp only [ListProcess.leave]
    rw [show s.process.step env pdma (.unlink t) = _ from moved]
    rfl
  | fork => exact ⟨_, _, rfl⟩

theorem LockInv.gives_back {part : ListSection} {made : Nat} (env : Env) (pdma : Bool)
    (inv : LockInv s)
    (here : s.point t = .locked part made) :
    ∃ s', NextSteps env pdma s s' ∧ s'.lock = none ∧ s'.point t = .restore ∧
      Elsewhere t s s' := by
  induction left : part.statements.length - made generalizing s made with
  | zero =>
    have done : part.statements[made]? = none := by
      rw [List.getElem?_eq_none_iff]
      omega
    obtain ⟨result, process, leaves⟩ := inv.leaves env pdma here
    have stepped : s.next env pdma t =
        some (.op result, { s.goTo t .restore with process := process, lock := none }) := by
      simp [ListProcess.next, here, done, leaves]
    refine ⟨_, .single ⟨t, _, stepped⟩, rfl, ?_, (next_move stepped).elsewhere⟩
    exact Function.update_self ..
  | succ left ih =>
    obtain ⟨statement, found⟩ : ∃ statement, part.statements[made]? = some statement :=
      ⟨_, List.getElem?_eq_getElem (by omega)⟩
    have stepped : s.next env pdma t = some (.op .other,
        { s.goTo t (.locked part (made + 1)) with
          process := { s.process with heap := statement s.process.heap } }) := by
      simp [ListProcess.next, here, found]
    obtain ⟨s', steps, free, restore, elsewhere⟩ := ih (inv.next (next_move stepped))
      (Function.update_self ..) (by omega)
    exact ⟨s', .head ⟨t, _, stepped⟩ steps, free, restore,
      (next_move stepped).elsewhere.trans elsewhere⟩

/-- The thread can get out of its section, with the mask that it had before. -/
def GetsOut (env : Env) (pdma : Bool) (s : ListProcess Thread) (t : Thread) : Prop :=
  ∃ s', NextSteps env pdma s s' ∧ s'.point t = .outside ∧ s'.mask t = s.sigsetOld t

theorem GetsOut.head (first : s.next env pdma t = some (op, s')) (rest : GetsOut env pdma s' t) :
    GetsOut env pdma s t := by
  obtain ⟨last, steps, out, mask⟩ := rest
  exact ⟨last, .head ⟨t, op, first⟩ steps, out,
    mask.trans (by rw [(next_move first).sigsetOld])⟩

theorem restore_left (here : s.point t = .restore) : GetsOut env pdma s t := by
  have stepped : s.next env pdma t = some (.op .other, s.sigRestore t) := by
    simp [ListProcess.next, here]
  exact ⟨_, .single ⟨t, _, stepped⟩, Function.update_self .., Function.update_self ..⟩

theorem LockInv.locked_left {part : ListSection} {made : Nat} (inv : LockInv s)
    (here : s.point t = .locked part made) : GetsOut env pdma s t := by
  obtain ⟨s₁, steps, _, restore, elsewhere⟩ := inv.gives_back env pdma here
  obtain ⟨s₂, more, out, mask⟩ : GetsOut env pdma s₁ t := restore_left restore
  exact ⟨s₂, steps.trans more, out, mask.trans (by rw [elsewhere.saved])⟩

/-! ## The handler of a child -/

theorem child_step {p : ChildPoint} (here : s.point t = .child p) :
    s.next env pdma t = some (s.childNext t p) := by
  simp only [ListProcess.next, here]

theorem walk_left {objects : List ObjectId}
    (linked : LinkedList.Linked ResourceNode.next s.process.heap.node objects none)
    (here : s.point t = .child (.walk objects.head?)) : GetsOut env pdma s t := by
  induction objects generalizing s with
  | nil =>
    refine .head (child_step here) (.head (child_step (p := .clearFlag) ?_) (restore_left ?_))
    · exact Function.update_self ..
    · exact Function.update_self ..
  | cons tem rest ih =>
    obtain ⟨next, linked⟩ := linked
    rw [Option.or_none] at next
    refine .head (child_step here) (ih linked ?_)
    rw [← next]
    exact Function.update_self ..

omit [DecidableEq Thread] in
theorem AtomicRel.memory {p : ChildPoint} (rel : AtomicRel s c) (here : s.point t = .child p) :
    p.Leaves s.process.heap c.heap := by
  cases rel.agrees with
  | whole settled threads heap => exact absurd (settled t) (by simp [here, SectionPoint.inChild])
  | child u q there memory keyed caller others =>
    have born := ((rel.lock t).masked (by simp [here])).1
    obtain rfl := (rel.lock u).alone (by rw [there]; rfl) t born
    obtain rfl := SectionPoint.child.inj (here.symm.trans there)
    exact memory

theorem AtomicRel.first_left (rel : AtomicRel s c) (here : s.point t = .child .first) :
    GetsOut env pdma s t := by
  obtain ⟨objects, start, linked, _⟩ := rel.memory here
  refine .head (child_step here) (walk_left linked ?_)
  rw [← start]
  exact Function.update_self ..

theorem AtomicRel.setspecific_left (rel : AtomicRel s c) (here : s.point t = .child .setspecific) :
    GetsOut env pdma s t := by
  have lock : LockInv (s.childNext t .setspecific).2 :=
    rel.lock.next (show NextMove env pdma s t _ _ from .child .setspecific here)
  exact .head (child_step here) ((rel.child_next lock here).first_left (Function.update_self ..))

theorem AtomicRel.child_left {p : ChildPoint} (rel : AtomicRel s c) (here : s.point t = .child p) :
    GetsOut env pdma s t := by
  cases p with
  | unlock =>
    have lock : LockInv (s.childNext t .unlock).2 :=
      rel.lock.next (show NextMove env pdma s t _ _ from .child .unlock here)
    exact .head (child_step here)
      ((rel.child_next lock here).setspecific_left (Function.update_self ..))
  | setspecific => exact rel.setspecific_left here
  | first => exact rel.first_left here
  | walk temp =>
    obtain ⟨objects, rfl, linked, _⟩ := rel.memory here
    exact walk_left linked here
  | clearFlag => exact .head (child_step here) (restore_left (Function.update_self ..))

/-- A thread that waits gets the lock when the thread that has it is through. -/
theorem AtomicRel.waiting_left {part : ListSection} (rel : AtomicRel s c)
    (here : s.point t = .waiting part) : GetsOut env pdma s t := by
  have enters : ∀ s₁, LockInv s₁ → s₁.lock = none → s₁.point t = .waiting part →
      GetsOut env pdma s₁ t := by
    intro s₁ inv free there
    have stepped : s₁.next env pdma t =
        some (.op .other, { s₁.goTo t (.locked part 0) with lock := some t }) := by
      simp [ListProcess.next, there, free]
    have locked : Function.update s₁.point t (.locked part 0) t = .locked part 0 :=
      Function.update_self ..
    exact .head stepped ((inv.next (next_move stepped)).locked_left locked)
  cases taken : s.lock with
  | none => exact enters s rel.lock taken here
  | some u =>
    have holds := (rel.lock u).holder.mp taken
    cases there : s.point u with
    | locked other made =>
      obtain ⟨s₁, steps, free, _, elsewhere⟩ := rel.lock.gives_back env pdma there
      have apart : t ≠ u := by
        rintro rfl
        exact absurd (here.symm.trans there) (by simp)
      obtain ⟨s₂, more, out, mask⟩ := enters s₁ (rel.lock.nextSteps steps) free
        ((elsewhere.others t apart).trans here)
      exact ⟨s₂, steps.trans more, out, mask.trans (by rw [elsewhere.saved])⟩
    | child p =>
      have born := ((rel.lock t).masked (by simp [here])).1
      obtain rfl := (rel.lock u).alone (by rw [there]; rfl) t born
      exact absurd (here.symm.trans there) (by simp)
    | _ => exact absurd holds (by simp [there, SectionPoint.holds])

/-! ## The run -/

theorem AtomicRel.getsOut (rel : AtomicRel s c) (inside : s.point t ≠ .outside) :
    GetsOut env pdma s t := by
  cases here : s.point t with
  | outside => exact absurd here inside
  | waiting part => exact rel.waiting_left here
  | locked part made => exact rel.lock.locked_left here
  | child p => exact rel.child_left here
  | restore => exact restore_left here

def listMachine (env : Env) (pdma : Bool) :
    Machine (ListProcess Thread) (ListLabel Thread) ListOp :=
  ⟨ListProcess.step env pdma⟩

def ListLabel.isNextOf (t : Thread) : ListLabel Thread → Bool
  | .next u => decide (u = t)
  | _ => false

def SectionPoint.toMake : SectionPoint → Nat
  | .locked part made => part.statements.length - made
  | _ => 0

omit [DecidableEq Thread] in
theorem SectionPoint.toMake_le (point : SectionPoint) : point.toMake ≤ 4 := by
  cases point with
  | locked part made =>
    refine (Nat.sub_le _ _).trans ?_
    cases part <;> simp [ListSection.statements]
  | _ => exact Nat.zero_le 4

/-- While the thread keeps the lock, its own statements make assignments, and nobody else's
step moves it. -/
theorem LockInv.toMake {label : ListLabel Thread} (inv : LockInv s)
    (moved : ListMove env pdma s label op s') (before : s.lock = some t)
    (after : s'.lock = some t) :
    (s'.point t).toMake + (if label.isNextOf t then 1 else 0) = (s.point t).toMake := by
  have holds := (inv t).holder.mp before
  have idle_apart : ∀ u, s.Idle u → t ≠ u := by
    rintro u idle rfl
    exact (inv t).unlocked idle.2 before
  cases moved with
  | runs _ run result process idle runs stepped is =>
    rcases is with rfl | ⟨u, signo, request, rfl, _⟩
    · rfl
    · rfl
  | blocks _ u part idle meant is =>
    have same : (s.sigBlock u part).point t = s.point t :=
      Function.update_of_ne (idle_apart u idle) ..
    rcases is with rfl | ⟨signo, rfl⟩
    · exact congrArg SectionPoint.toMake same
    · exact congrArg SectionPoint.toMake same
  | nexts u op' s' moved =>
    by_cases mine : u = t
    · subst mine
      rw [if_pos (by simp [ListLabel.isNextOf])]
      cases moved with
      | locks part here free => simp [free] at before
      | assigns part made statement here found =>
        have more : made < part.statements.length := (List.getElem?_eq_some_iff.mp found).1
        simp only [ListProcess.goTo, Function.update_self, SectionPoint.toMake, here]
        omega
      | unlocks part made result process here done left => simp at after
      | child p here =>
        cases p with
        | unlock => simp [ListProcess.childNext] at after
        | _ => exact absurd holds (by simp [here, SectionPoint.holds])
      | restores here => exact absurd holds (by simp [here, SectionPoint.holds])
    · rw [if_neg (by simp [ListLabel.isNextOf, mine]), Nat.add_zero,
        moved.elsewhere.others t (Ne.symm mine)]
  | masks u mask idle => rfl
  | creates v w idle new => rfl

theorem lock_statements {trace : List (Entry (ListProcess Thread) (ListLabel Thread) ListOp)}
    (inv : LockInv s) (before : s.lock = some t) (run : (listMachine env pdma).Run s trace s')
    (kept : ∀ e ∈ trace, e.after.lock = some t) :
    LockInv s' ∧ s'.lock = some t ∧
      trace.countP (fun e => e.label.isNextOf t) + (s'.point t).toMake = (s.point t).toMake := by
  induction run with
  | nil => exact ⟨inv, before, by simp⟩
  | @snoc trace s₁ label out s₂ ran stepped ih =>
    obtain ⟨inv₁, lock₁, counted⟩ := ih fun e member => kept e (List.mem_append_left _ member)
    have lock₂ : s₂.lock = some t := kept _ (List.mem_append_right _ (List.mem_singleton_self _))
    have moved := list_move inv₁ stepped
    refine ⟨inv₁.move moved, lock₂, ?_⟩
    rw [List.countP_append, List.countP_singleton, Nat.add_assoc,
      Nat.add_comm _ (s₂.point t).toMake, inv₁.toMake moved lock₁ lock₂]
    exact counted

/-- In every process that is reached. -/
theorem sections_left {Process : Type} [DecidableEq Process] (env : Env) (pdma : Bool)
    (p : Process) (main : Thread) (mask : SigSet) (node : ObjectId → ResourceNode)
    (trace : List (ListEntry Process Thread)) (final : Process → Option (ListProcess Thread))
    (run : ListRun env pdma p main mask node trace final)
    (outside : ∀ e ∈ trace, ForksNotUnlinking e.out) (q : Process) (s : ListProcess Thread)
    (here : final q = some s) (t : Thread) :
    (s.point t ≠ .outside → GetsOut env pdma s t) ∧
      (s.lock = some t → ∀ trace' s', (listMachine env pdma).Run s trace' s' →
        (∀ e ∈ trace', e.after.lock = some t) →
          (s'.next env pdma t).isSome = true ∧
            trace'.countP (fun e => e.label.isNextOf t) ≤ 4) := by
  obtain ⟨c, _, rel⟩ := (list_simulated run outside).related.found here
  refine ⟨rel.getsOut, fun taken trace' s' more kept => ?_⟩
  obtain ⟨inv, lock, counted⟩ := lock_statements rel.lock taken more kept
  refine ⟨?_, (Nat.le.intro counted).trans (SectionPoint.toMake_le _)⟩
  have holds := (inv t).holder.mp lock
  cases point : s'.point t with
  | locked part made =>
    cases found : part.statements[made]? with
    | some statement => simp [ListProcess.next, point, found]
    | none =>
      obtain ⟨result, process, leaves⟩ := inv.leaves env pdma point
      simp [ListProcess.next, point, found, leaves]
  | child p => simp [ListProcess.next, point]
  | _ => exact absurd holds (by simp [point, SectionPoint.holds])

/-- One thread is in the middle of its section, the other one waits for it. -/
theorem sections_left_waiting :
    ∃ trace final s, (listForking Bool (.steady 0) false).family.exec listAlone
        (interleavedLabels.take 24) = some (trace, final) ∧ final 0 = some s ∧
      s.lock = some false ∧ GetsOut (.steady 0) false s true ∧ GetsOut (.steady 0) false s false ∧
      ∀ trace' s', (listMachine (.steady 0) false).Run s trace' s' →
        (∀ e ∈ trace', e.after.lock = some false) →
          (s'.next (.steady 0) false false).isSome = true ∧
            trace'.countP (fun e => e.label.isNextOf false) ≤ 4 := by
  have checked : ((listForking Bool (.steady 0) false).family.exec listAlone
      (interleavedLabels.take 24)).any (fun done =>
        decide ((∀ e ∈ done.1, ForksNotUnlinking e.out) ∧
          ((done.2 0).any fun s => decide (s.lock = some false ∧
            s.point true = .waiting (.insert 1) ∧
            s.point false = .locked (.insert 0) 2)) = true)) = true := by
    decide +kernel
  rw [Option.any_eq_true] at checked
  obtain ⟨⟨trace, final⟩, ran, holds⟩ := checked
  obtain ⟨outside, there⟩ := of_decide_eq_true holds
  obtain ⟨s, here, points⟩ := (Option.any_eq_true _ _).mp there
  obtain ⟨taken, waits, has⟩ := of_decide_eq_true points
  have left := sections_left (.steady 0) false 0 false _ _ trace final (Machine.exec_run ran)
    outside 0 s here
  exact ⟨trace, final, s, ran, here, taken, (left true).1 (by rw [waits]; simp),
    (left false).1 (by rw [has]; simp), (left false).2 taken⟩

end Libsysve.AccIo
