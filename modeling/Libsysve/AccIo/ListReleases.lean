import Libsysve.AccIo.ListAtomic

/-!
# What the handler of a child releases

In the processes of `AccIo.Resources` a child has released the objects of its parent when it
starts; here its handler releases one after another.  What it has released at any time, and
what it still has to, are the objects of that one step, in its order and with its calls.
-/

set_option autoImplicit false

namespace Libsysve.AccIo

variable {Thread : Type} [DecidableEq Thread] {s s' : ListProcess Thread}
  {c : AccProcess Thread} {t : Thread} {op : ListOp} {env : Env} {pdma : Bool}
  {rest : List (ObjectId × List SysveCall)}

/-! ## One step -/

def ListOp.childReleased : ListOp → List (ObjectId × List SysveCall)
  | .op _ => []
  | .childReleases a calls => [(a, calls)]

omit [DecidableEq Thread] in
theorem LeftToRelease.nothing (settled : ∀ t, (s.point t).inChild = false) :
    LeftToRelease s [] where
  child t p here := absurd (settled t) (by simp [here, SectionPoint.inChild])
  settled _ := rfl

theorem LockInv.childNext_point {p : ChildPoint} (inv : LockInv s) (here : s.point t = .child p)
    {u : Thread} (other : u ≠ t) : (s.childNext t p).2.point u = .outside := by
  have out : s.point u = .outside := by
    by_contra inside
    exact other ((inv t).alone (by rw [here]; rfl) u ((inv u).masked inside).1)
  rw [← out]
  cases p with
  | walk temp => cases temp <;> exact Function.update_of_ne other ..
  | _ => exact Function.update_of_ne other ..

theorem LeftToRelease.childNext {p : ChildPoint} (left : LeftToRelease s rest) (inv : LockInv s)
    (here : s.point t = .child p) :
    ∃ rest', (s.childNext t p).1.childReleased ++ rest' = rest ∧
      LeftToRelease (s.childNext t p).2 rest' := by
  obtain ⟨objects, visits, rfl⟩ := left.child t p here
  -- the thread goes on to `q`, with the objects `more` to visit
  have goesOn : ∀ q more, (s.childNext t p).2.point t = .child q →
      q.Visits (s.childNext t p).2.process.heap more →
      LeftToRelease (s.childNext t p).2
        (more.map fun a => (a, (s.childNext t p).2.process.heap.releaseCalls a true)) := by
    intro q more now visits'
    refine ⟨fun u q' inside => ?_, fun settled => ?_⟩
    · by_cases other : u = t
      · subst other
        obtain rfl := SectionPoint.child.inj (now.symm.trans inside)
        exact ⟨more, visits', rfl⟩
      · rw [inv.childNext_point here other] at inside
        exact absurd inside (by simp)
    · exact absurd (settled t) (by simp [now, SectionPoint.inChild])
  have point : ∀ next, Function.update s.point t next t = next := fun _ => Function.update_self ..
  cases p with
  | unlock => exact ⟨_, rfl, goesOn .setspecific objects (point _) visits⟩
  | setspecific => exact ⟨_, rfl, goesOn .first objects (point _) visits⟩
  | first => exact ⟨_, rfl, goesOn (.walk _) objects (point _) visits⟩
  | walk temp =>
    obtain ⟨start, linked⟩ := visits
    cases objects with
    | nil =>
      obtain rfl : temp = none := start
      exact ⟨_, rfl, goesOn .clearFlag [] (point _) rfl⟩
    | cons tem more =>
      obtain rfl : temp = some tem := start
      obtain ⟨next, linked⟩ := linked
      rw [Option.or_none] at next
      exact ⟨_, rfl, goesOn (.walk _) more (point _) ⟨next, linked⟩⟩
  | clearFlag =>
    obtain rfl : objects = [] := visits
    refine ⟨[], rfl, .nothing fun u => ?_⟩
    by_cases other : u = t
    · rw [other]
      exact congrArg SectionPoint.inChild (point .restore)
    · rw [inv.childNext_point here other]
      rfl

theorem ListMove.settled {label : ListLabel Thread} (moved : ListMove env pdma s label op s')
    (settled : ∀ u, (s.point u).inChild = false) :
    op.childReleased = [] ∧ ∀ u, (s'.point u).inChild = false := by
  have goTo : ∀ t (next : SectionPoint), next.inChild = false →
      ∀ u, (Function.update s.point t next u).inChild = false := by
    intro t next out u
    by_cases other : u = t
    · rw [other, Function.update_self]
      exact out
    · rw [Function.update_of_ne other]
      exact settled u
  cases moved with
  | runs _ label result process idle runs stepped is => exact ⟨rfl, settled⟩
  | blocks _ u part idle meant is => exact ⟨rfl, goTo u _ rfl⟩
  | masks u mask idle => exact ⟨rfl, settled⟩
  | creates v w idle new => exact ⟨rfl, settled⟩
  | nexts t op' after moved =>
    cases moved with
    | locks part here free => exact ⟨rfl, goTo t _ rfl⟩
    | assigns part made statement here found => exact ⟨rfl, goTo t _ rfl⟩
    | unlocks part made result process here done left => exact ⟨rfl, goTo t _ rfl⟩
    | child p here => exact absurd (settled t) (by simp [here, SectionPoint.inChild])
    | restores here => exact ⟨rfl, goTo t _ rfl⟩

/-- What a step releases comes first of what was left. -/
theorem LeftToRelease.step {label : ListLabel Thread} (left : LeftToRelease s rest)
    (rel : AtomicRel s c) (stepped : s.step env pdma label = some (op, s')) :
    ∃ rest', op.childReleased ++ rest' = rest ∧ LeftToRelease s' rest' := by
  have moved := list_move rel.lock stepped
  cases rel.agrees with
  | whole settled threads heap =>
    obtain ⟨nothing, settled'⟩ := moved.settled settled
    rw [left.settled settled, nothing]
    exact ⟨[], rfl, .nothing settled'⟩
  | child u p here memory keyed caller others =>
    have alone : ∀ v, s.born v = true → v = u := (rel.lock u).alone (by rw [here]; rfl)
    have busy : ∀ v, ¬s.Idle v := by
      intro v idle
      obtain rfl := alone v idle.1
      exact absurd (here.symm.trans idle.2) (by simp)
    cases moved with
    | runs _ label result process idle runs stepped is => exact absurd idle (busy _)
    | blocks _ v part idle meant is => exact absurd idle (busy _)
    | masks v mask idle => exact absurd idle (busy _)
    | creates v w idle new => exact absurd idle (busy _)
    | nexts t op' after moved =>
      have mine : s.point t ≠ .outside → t = u :=
        fun inside => alone t ((rel.lock t).masked inside).1
      cases moved with
      | child q there => exact left.childNext rel.lock there
      | locks part there free =>
        obtain rfl := mine (by simp [there])
        exact absurd (here.symm.trans there) (by simp)
      | assigns part made statement there found =>
        obtain rfl := mine (by simp [there])
        exact absurd (here.symm.trans there) (by simp)
      | unlocks part made result process there done left =>
        obtain rfl := mine (by simp [there])
        exact absurd (here.symm.trans there) (by simp)
      | restores there =>
        obtain rfl := mine (by simp [there])
        exact absurd (here.symm.trans there) (by simp)

/-! ## Whole runs -/

section
variable {Process : Type} [DecidableEq Process]

/-- What the handler of the child `q` releases in a step. -/
def handlerReleased (q : Process) (e : ListEntry Process Thread) :
    List (ObjectId × List SysveCall) :=
  match e.out with
  | .step _ _ op _ => if e.label.actor = q then op.childReleased else []
  | .fork _ _ _ _ => []

/-- What the child `q` has released when it starts. -/
def forkReleased (q : Process) (e : AccEntry Process Thread) : List (ObjectId × List SysveCall) :=
  match e.out with
  | .step _ _ _ _ => []
  | .fork _ _ released _ => if e.label.changed = q then released else []

/-- What a process has released, and has still to, is what it has released in the one step. -/
structure ReleasesAlike (q : Process) (trace : List (ListEntry Process Thread))
    (whole : List (AccEntry Process Thread)) (s : Option (ListProcess Thread))
    (rest : List (ObjectId × List SysveCall)) : Prop where
  same : trace.flatMap (handlerReleased q) ++ rest = whole.flatMap (forkReleased q)
  new : s = none → trace.flatMap (handlerReleased q) = [] ∧ rest = []
  left : ∀ here, s = some here → LeftToRelease here rest

variable {p q : Process} {main : Thread} {mask : SigSet} {node : ObjectId → ResourceNode}
  {trace : List (ListEntry Process Thread)} {final : Process → Option (ListProcess Thread)}
  {e : ListEntry Process Thread} {whole steps : List (AccEntry Process Thread)}

omit [DecidableEq Thread] in
theorem ReleasesAlike.still {before after : Option (ListProcess Thread)}
    (alike : ReleasesAlike q trace whole before rest) (handler : handlerReleased q e = [])
    (fork : steps.flatMap (forkReleased q) = []) (same : after = before) :
    ReleasesAlike q (trace ++ [e]) (whole ++ steps) after rest := by
  have kept : (trace ++ [e]).flatMap (handlerReleased q) = trace.flatMap (handlerReleased q) := by
    simp [handler]
  refine ⟨?_, fun none => ?_, fun here found => alike.left here (same ▸ found)⟩
  · rw [kept, List.flatMap_append, fork, List.append_nil]
    exact alike.same
  · rw [kept]
    exact alike.new (same ▸ none)

theorem companion_step_released {C : Process → Option (AccProcess Thread)}
    {before after : ListProcess Thread} {label : ListLabel Thread}
    (isStep : e.out = .step before label op after) :
    (((accForking Thread env pdma).family.companion (Forking.familyMark wholeLabel wholeFork) C
      e).toList).flatMap (forkReleased q) = [] := by
  refine List.flatMap_eq_nil_iff.mpr (fun e' member => ?_)
  obtain ⟨label', marked, stepped⟩ := Option.bind_eq_some_iff.mp (Option.mem_toList.mp member)
  obtain ⟨⟨out, C'⟩, moved, same⟩ := Option.bind_eq_some_iff.mp stepped
  obtain rfl := Option.some.inj same
  simp only [Forking.familyMark, isStep] at marked
  obtain ⟨own, _, rfl⟩ := Option.map_eq_some_iff.mp marked
  simp only [Forking.family, Option.bind_eq_bind, Option.bind_eq_some_iff] at moved
  obtain ⟨here, found, ⟨result, there⟩, inner, same⟩ := moved
  obtain ⟨rfl, rfl⟩ := Prod.mk.inj (Option.some.inj same)
  rfl

theorem releases_run (run : ListRun env pdma p main mask node trace final)
    (outside : ∀ e ∈ trace, ForksNotUnlinking e.out) (q : Process) :
    ∃ rest, ReleasesAlike q trace (wholeSteps env pdma p node trace) (final q) rest := by
  induction run generalizing q with
  | nil =>
    refine ⟨[], rfl, fun _ => ⟨rfl, rfl⟩, fun here found => ?_⟩
    obtain rfl := Forking.alone_found found
    exact .nothing fun _ => rfl
  | @snoc trace S label out S' ran stepped ih =>
    have earlier : ∀ e ∈ trace, ForksNotUnlinking e.out :=
      fun e member => outside e (List.mem_append_left _ member)
    have now : ForksNotUnlinking out :=
      outside _ (List.mem_append_right _ (List.mem_singleton_self _))
    have before := list_simulated ran earlier
    obtain ⟨rest, alike⟩ := ih earlier q
    rw [wholeSteps, Machine.along_snoc]
    cases label with
    | step p' label =>
      simp only [listForking, Forking.family, Option.bind_eq_bind,
        Option.bind_eq_some_iff] at stepped
      obtain ⟨here, found, ⟨op, after⟩, moved, same⟩ := stepped
      obtain ⟨rfl, rfl⟩ := Prod.mk.inj (Option.some.inj same)
      by_cases own : p' = q
      · subst own
        obtain ⟨c, _, rel⟩ := before.related.found found
        obtain ⟨rest', first, left⟩ := (alike.left here found).step rel moved
        refine ⟨rest', ?_, fun none => ?_, fun here' found' => ?_⟩
        · rw [List.flatMap_append, List.flatMap_append, companion_step_released rfl,
            List.append_nil, ← alike.same, ← first]
          simp [handlerReleased, FamilyLabel.actor]
        · rw [Function.update_self] at none
          exact absurd none (by simp)
        · rw [Function.update_self] at found'
          exact Option.some.inj found' ▸ left
      · refine ⟨rest, alike.still ?_ (companion_step_released rfl) ?_⟩
        · simp [handlerReleased, FamilyLabel.actor, own]
        · exact Function.update_of_ne (Ne.symm own) ..
    | fork p' how q' =>
      cases taken : S q' with
      | some other => simp [Forking.family, taken] at stepped
      | none =>
        simp only [listForking, Forking.family, taken, Option.bind_eq_bind,
          Option.bind_eq_some_iff] at stepped
        obtain ⟨here, found, ⟨out, child⟩, forked, same⟩ := stepped
        obtain ⟨rfl, rfl⟩ := Prod.mk.inj (Option.some.inj same)
        obtain ⟨c, found', rel⟩ := before.related.found found
        have elsewhere : ∀ a, (here.process.thread how).dst ≠ .unlink a := by
          intro a leaving
          have out : (here.process.thread how).dst.unlinking = false := now
          simp [leaving, DstPoint.unlinking] at out
        obtain ⟨released, child', forks, _, left⟩ := rel.fork forked elsewhere
        have next := Forking.family_forks (m := accForking Thread env pdma) found'
          (before.related.free taken) forks
        have marked : Forking.familyMark wholeLabel wholeFork
            (⟨S, .fork p' how q', .fork here how out child, Function.update S q' (some child)⟩ :
              ListEntry Process Thread) = some (.fork p' (wholeFork here how) q') := rfl
        rw [Machine.companion_step marked next, Option.toList_some]
        by_cases own : q' = q
        · subst own
          obtain ⟨none, nothing⟩ := alike.new taken
          subst nothing
          refine ⟨released, ?_, fun none => ?_, fun here' found' => ?_⟩
          · rw [List.flatMap_append, List.flatMap_append, ← alike.same, none]
            simp [handlerReleased, forkReleased, FamilyLabel.changed]
          · rw [Function.update_self] at none
            exact absurd none (by simp)
          · rw [Function.update_self] at found'
            exact Option.some.inj found' ▸ left
        · refine ⟨rest, alike.still rfl ?_ (Function.update_of_ne (Ne.symm own) ..)⟩
          simp [forkReleased, FamilyLabel.changed, own]

/-- In every run of processes, in any order of the statements of their threads: the other machine
shows the same events, a child releases the same objects in the same order with the same calls,
and the states are equal at rest. -/
theorem locked_sections_atomic (env : Env) (pdma : Bool) (p : Process) (main : Thread)
    (mask : SigSet) (node : ObjectId → ResourceNode) (trace : List (ListEntry Process Thread))
    (final : Process → Option (ListProcess Thread))
    (run : ListRun env pdma p main mask node trace final)
    (outside : ∀ e ∈ trace, ForksNotUnlinking e.out) :
    AccRun env pdma p node (wholeSteps env pdma p node trace) (wholeState env pdma p node trace) ∧
      trace.filterMap (Forking.familyShown listShown) =
        (wholeSteps env pdma p node trace).filterMap (Forking.familyShown accShown) ∧
      (∀ q, (final q).isSome = (wholeState env pdma p node trace q).isSome) ∧
      (∀ q s, final q = some s → ∃ rest, LeftToRelease s rest ∧
        trace.flatMap (handlerReleased q) ++ rest =
          (wholeSteps env pdma p node trace).flatMap (forkReleased q)) ∧
      ∀ q s, final q = some s → s.AtRest →
        wholeState env pdma p node trace q = some s.process ∧
          trace.flatMap (handlerReleased q) =
            (wholeSteps env pdma p node trace).flatMap (forkReleased q) ∧
          ∃ objects, ListExact objects s.process.heap := by
  have simulated := list_simulated run outside
  have releases : ∀ q s, final q = some s → ∃ rest, LeftToRelease s rest ∧
      trace.flatMap (handlerReleased q) ++ rest =
        (wholeSteps env pdma p node trace).flatMap (forkReleased q) := by
    intro q s here
    obtain ⟨rest, alike⟩ := releases_run run outside q
    exact ⟨rest, alike.left s here, alike.same⟩
  refine ⟨simulated.run, simulated.history, simulated.related.isSome, releases,
    fun q s here rest => ?_⟩
  obtain ⟨left, nothing, released⟩ := releases q s here
  rw [nothing.settled rest.settled, List.append_nil] at released
  obtain ⟨c, there, rel⟩ := simulated.related.found here
  obtain ⟨objects, inv⟩ := rel.resources
  cases rel.agrees with
  | child t p inside memory keyed caller others =>
    exact absurd (rest.settled t) (by simp [inside, SectionPoint.inChild])
  | whole settled threads heap =>
    rw [ListProcess.ahead_free rest.free] at heap
    have same : s.process = c := by
      rw [show s.process = ⟨s.process.heap, s.process.thread⟩ from rfl, heap, threads]
    subst same
    exact ⟨there, released, objects, inv.heap.exact⟩

end

theorem locked_sections_atomic_interleaved :
    ∃ trace final, (listForking Bool (.steady 0) false).family.exec listAlone interleavedLabels =
        some (trace, final) ∧
      (∃ parent, final 0 = some parent ∧ parent.process.heap.listHeadNext = some 1 ∧
        wholeState (.steady 0) false 0 (fun _ => ⟨.sample, none, none⟩) trace 0 =
          some parent.process) ∧
      ∃ child, final 1 = some child ∧ child.process.heap.listHeadNext = none ∧
        wholeState (.steady 0) false 0 (fun _ => ⟨.sample, none, none⟩) trace 1 =
          some child.process ∧
        (trace.flatMap (handlerReleased 1)).map Prod.fst = [1, 0] ∧
        trace.flatMap (handlerReleased 1) =
          (wholeSteps (.steady 0) false 0 (fun _ => ⟨.sample, none, none⟩) trace).flatMap
            (forkReleased 1) := by
  have checked : ((listForking Bool (.steady 0) false).family.exec listAlone
      interleavedLabels).any (fun done =>
        decide ((∀ e ∈ done.1, ForksNotUnlinking e.out) ∧
          (done.1.flatMap (handlerReleased 1)).map Prod.fst = [1, 0] ∧
          ((done.2 0).any fun s => decide (s.process.heap.listHeadNext = some 1 ∧
            s.lock = none ∧ ∀ t, (s.point t).inChild = false)) = true ∧
          ((done.2 1).any fun s => decide (s.process.heap.listHeadNext = none ∧
            s.lock = none ∧ ∀ t, (s.point t).inChild = false)) = true)) = true := by
    decide +kernel
  rw [Option.any_eq_true] at checked
  obtain ⟨⟨trace, final⟩, ran, holds⟩ := checked
  obtain ⟨outside, objects, first, second⟩ := of_decide_eq_true holds
  obtain ⟨parent, here, first⟩ := (Option.any_eq_true _ _).mp first
  obtain ⟨child, there, second⟩ := (Option.any_eq_true _ _).mp second
  obtain ⟨head, free, settled⟩ := of_decide_eq_true first
  obtain ⟨head', free', settled'⟩ := of_decide_eq_true second
  obtain ⟨_, _, _, _, whole⟩ := locked_sections_atomic (.steady 0) false 0 false _ _ trace final
    (Machine.exec_run ran) outside
  obtain ⟨same, released, _⟩ := whole 1 child there ⟨free', settled'⟩
  exact ⟨trace, final, ran, ⟨parent, here, head, (whole 0 parent here ⟨free, settled⟩).1⟩,
    child, there, head', same, objects, released⟩

end Libsysve.AccIo
