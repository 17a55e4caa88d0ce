import Libsysve.AccIo.ListLock

/-!
# Who is in a locked section

One thread holds the lock, and is the one that holds it in its code; a thread in a section
has all signals masked, so that nothing of its own comes in between; and the mask that
it has afterwards is the one from before, in the child of a fork too.
-/

set_option autoImplicit false

namespace Libsysve.AccIo

def SectionPoint.holds : SectionPoint → Bool
  | .locked _ _ | .child .unlock => true
  | _ => false

def SectionPoint.inChild : SectionPoint → Bool
  | .child _ => true
  | _ => false

def SectionPoint.part : SectionPoint → Option ListSection
  | .waiting part | .locked part _ => some part
  | _ => none

def ListSection.Meant (part : ListSection) (t : AccThread) : Prop :=
  part = .fork ∨ t.nextSection = some part

variable {Thread : Type}

structure ThreadLock (s : ListProcess Thread) (t : Thread) : Prop where
  holder : s.lock = some t ↔ (s.point t).holds = true
  masked : s.point t ≠ .outside → s.born t = true ∧ s.mask t = accIoSigset
  meant : ∀ part, (s.point t).part = some part → part.Meant (s.process.thread t)
  made : ∀ part made, s.point t = .locked part made → made ≤ part.statements.length
  alone : (s.point t).inChild = true → ∀ u, s.born u = true → u = t

abbrev LockInv (s : ListProcess Thread) : Prop := ∀ t, ThreadLock s t

variable {s s' : ListProcess Thread} {t u : Thread} {op : ListOp}
  {env : Env} {pdma : Bool}

theorem ThreadLock.outside (out : s.point t = .outside) (free : s.lock ≠ some t) :
    ThreadLock s t where
  holder := by simp [out, SectionPoint.holds, free]
  masked inside := absurd out inside
  meant part here := by simp [out, SectionPoint.part] at here
  made part made here := by simp [out] at here
  alone inside := by simp [out, SectionPoint.inChild] at inside

theorem ThreadLock.frame (inv : ThreadLock s u) (lock : s'.lock = some u ↔ s.lock = some u)
    (point : s'.point u = s.point u) (mask : s'.mask u = s.mask u)
    (born : s'.born u = s.born u) (thread : s'.process.thread u = s.process.thread u)
    (alone : (s.point u).inChild = true → ∀ v, s'.born v = true → s.born v = true) :
    ThreadLock s' u where
  holder := by rw [lock, point]; exact inv.holder
  masked := by rw [point, mask, born]; exact inv.masked
  meant := by rw [point, thread]; exact inv.meant
  made := by rw [point]; exact inv.made
  alone := by
    rw [point]
    exact fun inside v here => inv.alone inside v (alone inside v here)

theorem LockInv.one (inv : LockInv s) (first : (s.point t).holds = true)
    (second : (s.point u).holds = true) : t = u :=
  Option.some.inj (((inv t).holder.mpr first).symm.trans ((inv u).holder.mpr second))

/-- A signal is delivered only outside the sections. -/
theorem LockInv.outside_of_unmasked {signo : Nat} (inv : LockInv s)
    (unmasked : s.mask t signo = false) : s.point t = .outside := by
  by_contra inside
  rw [((inv t).masked inside).2] at unmasked
  exact absurd unmasked (by simp [accIoSigset])

variable [DecidableEq Thread]

omit [DecidableEq Thread] in
theorem ThreadLock.unlocked (inv : ThreadLock s t) (outside : s.point t = .outside) :
    s.lock ≠ some t := by
  intro taken
  have holds := inv.holder.mp taken
  simp [outside, SectionPoint.holds] at holds

theorem step_thread_other {p p' : AccProcess Thread} {label : AccLabel Thread} {op : ResourceOp}
    (stepped : p.step env pdma label = some (op, p')) (other : u ≠ label.actor) :
    p'.thread u = p.thread u := by
  cases label with
  | io v label =>
    simp only [AccProcess.step, Option.bind_eq_bind, Option.bind_eq_some_iff] at stepped
    obtain ⟨⟨op', h', left⟩, _, result⟩ := stepped
    obtain ⟨rfl, rfl⟩ := Prod.mk.inj (Option.some.inj result)
    exact AccProcess.put_other other
  | exit v =>
    simp only [AccProcess.step] at stepped
    split at stepped
    next =>
      obtain ⟨rfl, rfl⟩ := Prod.mk.inj (Option.some.inj stepped)
      exact AccProcess.put_other other
    next => exact absurd stepped (by simp)
  | unlink v =>
    simp only [AccProcess.step] at stepped
    split at stepped
    next =>
      obtain ⟨rfl, rfl⟩ := Prod.mk.inj (Option.some.inj stepped)
      exact AccProcess.put_other other
    next => exact absurd stepped (by simp)
  | release v =>
    simp only [AccProcess.step] at stepped
    split at stepped
    next =>
      obtain ⟨rfl, rfl⟩ := Prod.mk.inj (Option.some.inj stepped)
      exact AccProcess.put_other other
    next => exact absurd stepped (by simp)

/-! ## What a step does -/

/-- The label of a step that a thread takes in its own code or in a signal handler. -/
inductive RunsIn (t : AccThread) : AccLabel Thread → Prop
  | code (label) (plain : t.plain label = true) : RunsIn t label
  | handler (u request) : RunsIn t (.io u (.call request))

inductive NextMove (env : Env) (pdma : Bool) (s : ListProcess Thread) (t : Thread) :
    ListOp → ListProcess Thread → Prop
  | locks (part) (here : s.point t = .waiting part) (free : s.lock = none) :
      NextMove env pdma s t (.op .other) { s.goTo t (.locked part 0) with lock := some t }
  | assigns (part made statement) (here : s.point t = .locked part made)
      (found : part.statements[made]? = some statement) :
      NextMove env pdma s t (.op .other)
        { s.goTo t (.locked part (made + 1)) with
          process := { s.process with heap := statement s.process.heap } }
  | unlocks (part made result process) (here : s.point t = .locked part made)
      (done : part.statements[made]? = none)
      (left : s.leave env pdma t part = some (result, process)) :
      NextMove env pdma s t (.op result) { s.goTo t .restore with process := process, lock := none }
  | child (point) (here : s.point t = .child point) :
      NextMove env pdma s t (s.childNext t point).1 (s.childNext t point).2
  | restores (here : s.point t = .restore) : NextMove env pdma s t (.op .other) (s.sigRestore t)

theorem next_move (stepped : s.next env pdma t = some (op, s')) : NextMove env pdma s t op s' := by
  unfold ListProcess.next at stepped
  cases here : s.point t with
  | outside =>
    rw [here] at stepped
    exact absurd stepped (by simp)
  | waiting part =>
    rw [here] at stepped
    cases free : s.lock with
    | some u => simp [free] at stepped
    | none =>
      simp only [free, Option.some.injEq, Prod.mk.injEq] at stepped
      obtain ⟨rfl, rfl⟩ := stepped
      exact .locks part here free
  | locked part made =>
    rw [here] at stepped
    cases found : part.statements[made]? with
    | some statement =>
      simp only [found, Option.some.injEq, Prod.mk.injEq] at stepped
      obtain ⟨rfl, rfl⟩ := stepped
      exact .assigns part made statement here found
    | none =>
      simp only [found, Option.bind_eq_bind, Option.bind_eq_some_iff, Option.some.injEq,
        Prod.mk.injEq] at stepped
      obtain ⟨⟨op, process⟩, left, rfl, rfl⟩ := stepped
      exact .unlocks part made op process here found left
  | child point =>
    rw [here] at stepped
    simp only [Option.some.injEq] at stepped
    rw [show op = (s.childNext t point).1 from (congrArg Prod.fst stepped).symm,
      show s' = (s.childNext t point).2 from (congrArg Prod.snd stepped).symm]
    exact .child point here
  | restore =>
    rw [here] at stepped
    simp only [Option.some.injEq, Prod.mk.injEq] at stepped
    obtain ⟨rfl, rfl⟩ := stepped
    exact .restores here

inductive ListMove (env : Env) (pdma : Bool) (s : ListProcess Thread) :
    ListLabel Thread → ListOp → ListProcess Thread → Prop
  | runs (l label result process) (idle : s.Idle label.actor)
      (runs : RunsIn (s.process.thread label.actor) label)
      (stepped : s.process.step env pdma label = some (result, process))
      (is : l = .run label ∨ ∃ u signo request, l = .handler u signo request ∧
        label = .io u (.call request)) :
      ListMove env pdma s l (.op result) { s with process := process }
  | blocks (l u part) (idle : s.Idle u) (meant : part.Meant (s.process.thread u))
      (is : l = .block u ∨ ∃ signo, l = .atforkPrepare u signo) :
      ListMove env pdma s l (.op .other) (s.sigBlock u part)
  | nexts (u op' after) (moved : NextMove env pdma s u op' after) :
      ListMove env pdma s (.next u) op' after
  | masks (u mask) (idle : s.Idle u) :
      ListMove env pdma s (.sigmask u mask) (.op .other)
        { s with mask := Function.update s.mask u mask }
  | creates (v w) (idle : s.Idle v) (new : s.born w = false) :
      ListMove env pdma s (.create v w) (.op .other)
        { s with
          born := Function.update s.born w true
          mask := Function.update s.mask w (s.mask v) }

theorem list_move {label : ListLabel Thread} (inv : LockInv s)
    (stepped : s.step env pdma label = some (op, s')) : ListMove env pdma s label op s' := by
  cases label with
  | run label =>
    simp only [ListProcess.step, Option.ite_none_right_eq_some, Option.bind_eq_bind,
      Option.bind_eq_some_iff, Option.some.injEq, Prod.mk.injEq] at stepped
    obtain ⟨⟨idle, plain⟩, ⟨op, process⟩, moved, rfl, rfl⟩ := stepped
    exact .runs _ label op process idle (.code _ plain) moved (.inl rfl)
  | handler t signo request =>
    simp only [ListProcess.step, Option.ite_none_right_eq_some, Option.bind_eq_bind,
      Option.bind_eq_some_iff, Option.some.injEq, Prod.mk.injEq] at stepped
    obtain ⟨⟨born, unmasked⟩, ⟨op, process⟩, moved, rfl, rfl⟩ := stepped
    have idle : s.Idle t := ⟨born, inv.outside_of_unmasked unmasked⟩
    exact .runs _ (.io t (.call request)) op process idle (.handler t request) moved
      (.inr ⟨t, signo, request, rfl, rfl⟩)
  | block t =>
    simp only [ListProcess.step, Option.ite_none_right_eq_some, Option.map_eq_some_iff,
      Prod.mk.injEq] at stepped
    obtain ⟨idle, part, here, rfl, rfl⟩ := stepped
    exact .blocks _ t part idle (.inr here) (.inl rfl)
  | atforkPrepare t signo =>
    cases signo with
    | none =>
      simp only [ListProcess.step, Option.ite_none_right_eq_some, Option.some.injEq,
        Prod.mk.injEq] at stepped
      obtain ⟨⟨idle, _⟩, rfl, rfl⟩ := stepped
      exact .blocks _ t .fork idle (.inl rfl) (.inr ⟨none, rfl⟩)
    | some signo =>
      simp only [ListProcess.step, Option.ite_none_right_eq_some, Option.some.injEq,
        Prod.mk.injEq] at stepped
      obtain ⟨⟨born, unmasked⟩, rfl, rfl⟩ := stepped
      exact .blocks _ t .fork ⟨born, inv.outside_of_unmasked unmasked⟩ (.inl rfl)
        (.inr ⟨some signo, rfl⟩)
  | next t => exact .nexts t op s' (next_move stepped)
  | sigmask t mask =>
    simp only [ListProcess.step, Option.ite_none_right_eq_some, Option.some.injEq,
      Prod.mk.injEq] at stepped
    obtain ⟨idle, rfl, rfl⟩ := stepped
    exact .masks t mask idle
  | create t u =>
    simp only [ListProcess.step, Option.ite_none_right_eq_some, Option.some.injEq,
      Prod.mk.injEq] at stepped
    obtain ⟨⟨idle, new⟩, rfl, rfl⟩ := stepped
    exact .creates t u idle new

/-! ## The invariant -/

theorem leave_process {part : ListSection} {result : ResourceOp} {process : AccProcess Thread}
    (left : s.leave env pdma t part = some (result, process)) :
    process.heap = s.process.heap ∧ ∀ u, u ≠ t → process.thread u = s.process.thread u := by
  cases part with
  | insert a =>
    simp only [ListProcess.leave, Option.bind_eq_bind, Option.bind_eq_some_iff, Option.some.injEq,
      Prod.mk.injEq] at left
    obtain ⟨⟨op, after⟩, stepped, rfl, rfl⟩ := left
    have others : ∀ u, u ≠ t → after.thread u = s.process.thread u :=
      fun u other => step_thread_other stepped other
    exact ⟨rfl, others⟩
  | unlink a =>
    simp only [ListProcess.leave, Option.bind_eq_bind, Option.bind_eq_some_iff, Option.some.injEq,
      Prod.mk.injEq] at left
    obtain ⟨⟨op, after⟩, stepped, rfl, rfl⟩ := left
    have others : ∀ u, u ≠ t → after.thread u = s.process.thread u :=
      fun u other => step_thread_other stepped other
    exact ⟨rfl, others⟩
  | fork =>
    simp only [ListProcess.leave, Option.some.injEq, Prod.mk.injEq] at left
    obtain ⟨rfl, rfl⟩ := left
    exact ⟨rfl, fun u other => rfl⟩

theorem ThreadLock.next_other (inv : LockInv s) (moved : NextMove env pdma s t op s')
    (other : u ≠ t) : ThreadLock s' u := by
  have point : ∀ point', Function.update s.point t point' u = s.point u :=
    fun _ => Function.update_of_ne other ..
  cases moved with
  | locks part here free =>
    refine (inv u).frame ?_ (point _) rfl rfl rfl (fun _ _ born => born)
    simp [free, Ne.symm other]
  | assigns part made statement here found =>
    exact (inv u).frame Iff.rfl (point _) rfl rfl rfl (fun _ _ born => born)
  | unlocks part made result process here done left =>
    have taken : s.lock = some t := (inv t).holder.mpr (by rw [here]; rfl)
    refine (inv u).frame ?_ (point _) rfl rfl ((leave_process left).2 u other)
      (fun _ _ born => born)
    simp [taken, Ne.symm other]
  | child p here =>
    cases p with
    | unlock =>
      have taken : s.lock = some t := (inv t).holder.mpr (by rw [here]; rfl)
      refine (inv u).frame ?_ (point _) rfl rfl rfl (fun _ _ born => born)
      simp [ListProcess.childNext, taken, Ne.symm other]
    | setspecific =>
      exact (inv u).frame Iff.rfl (point _) rfl rfl (AccProcess.put_other other)
        (fun _ _ born => born)
    | first => exact (inv u).frame Iff.rfl (point _) rfl rfl rfl (fun _ _ born => born)
    | walk temp =>
      cases temp with
      | none => exact (inv u).frame Iff.rfl (point _) rfl rfl rfl (fun _ _ born => born)
      | some tem => exact (inv u).frame Iff.rfl (point _) rfl rfl rfl (fun _ _ born => born)
    | clearFlag =>
      exact (inv u).frame Iff.rfl (point _) rfl rfl (AccProcess.put_other other)
        (fun _ _ born => born)
  | restores here =>
    exact (inv u).frame Iff.rfl (point _) (Function.update_of_ne other ..) rfl rfl
      (fun _ _ born => born)

omit [DecidableEq Thread] in
theorem ThreadLock.goes {point : SectionPoint} (inv : ThreadLock s t)
    (inside : s.point t ≠ .outside) (here : s'.point t = point)
    (holder : s'.lock = some t ↔ point.holds = true) (mask : s'.mask t = s.mask t)
    (born : s'.born = s.born)
    (meant : ∀ part, point.part = some part → part.Meant (s'.process.thread t))
    (made : ∀ part made, point = .locked part made → made ≤ part.statements.length)
    (alone : point.inChild = true → (s.point t).inChild = true) : ThreadLock s' t where
  holder := by rw [here]; exact holder
  masked _ := by rw [mask, born]; exact inv.masked inside
  meant := by rw [here]; exact meant
  made := by rw [here]; exact made
  alone := by rw [here, born]; exact fun child => inv.alone (alone child)

theorem ThreadLock.child_next (inv : ThreadLock s t) {p : ChildPoint}
    (here : s.point t = .child p) : ThreadLock (s.childNext t p).2 t := by
  have inside : s.point t ≠ .outside := by simp [here]
  have child : (s.point t).inChild = true := by rw [here]; rfl
  have free : p ≠ .unlock → s.lock ≠ some t := by
    intro later taken
    have holds := inv.holder.mp taken
    rw [here] at holds
    cases p with
    | unlock => exact later rfl
    | _ => exact absurd holds (by simp [SectionPoint.holds])
  have point : ∀ point', Function.update s.point t point' t = point' :=
    fun _ => Function.update_self ..
  cases p with
  | unlock =>
    exact inv.goes inside (point _) (by simp [ListProcess.childNext, SectionPoint.holds]) rfl rfl
      (by simp [SectionPoint.part]) (by simp) (fun _ => child)
  | setspecific =>
    exact inv.goes inside (point _)
      (iff_of_false (free (by simp)) (by simp [SectionPoint.holds])) rfl rfl
      (by simp [SectionPoint.part]) (by simp) (fun _ => child)
  | first =>
    exact inv.goes inside (point _)
      (iff_of_false (free (by simp)) (by simp [SectionPoint.holds])) rfl rfl
      (by simp [SectionPoint.part]) (by simp) (fun _ => child)
  | walk temp =>
    cases temp with
    | none =>
      exact inv.goes inside (point _)
        (iff_of_false (free (by simp)) (by simp [SectionPoint.holds])) rfl rfl
        (by simp [SectionPoint.part]) (by simp) (fun _ => child)
    | some tem =>
      exact inv.goes inside (point _)
        (iff_of_false (free (by simp)) (by simp [SectionPoint.holds])) rfl rfl
        (by simp [SectionPoint.part]) (by simp) (fun _ => child)
  | clearFlag =>
    exact inv.goes inside (point _)
      (iff_of_false (free (by simp)) (by simp [SectionPoint.holds])) rfl rfl
      (by simp [SectionPoint.part]) (by simp) (by simp [SectionPoint.inChild])

theorem LockInv.next (inv : LockInv s) (moved : NextMove env pdma s t op s') : LockInv s' := by
  intro u
  by_cases other : u ≠ t
  · exact ThreadLock.next_other inv moved other
  obtain rfl := not_not.mp other
  have point : ∀ point', Function.update s.point u point' u = point' :=
    fun _ => Function.update_self ..
  cases moved with
  | locks part here free =>
    refine (inv u).goes (by simp [here]) (point _) (by simp [SectionPoint.holds]) rfl rfl
      ?_ ?_ (by simp [SectionPoint.inChild])
    · rintro other' same
      obtain rfl := Option.some.inj same
      exact (inv u).meant part (by rw [here]; rfl)
    · rintro other' made same
      obtain ⟨rfl, rfl⟩ := SectionPoint.locked.inj same
      exact Nat.zero_le _
  | assigns part made statement here found =>
    have taken : s.lock = some u := (inv u).holder.mpr (by rw [here]; rfl)
    refine (inv u).goes (by simp [here]) (point _)
      (iff_of_true taken (by simp [SectionPoint.holds])) rfl rfl ?_ ?_
      (by simp [SectionPoint.inChild])
    · rintro other' same
      obtain rfl := Option.some.inj same
      exact (inv u).meant part (by rw [here]; rfl)
    · rintro other' made' same
      obtain ⟨rfl, rfl⟩ := SectionPoint.locked.inj same
      exact (List.getElem?_eq_some_iff.mp found).1
  | unlocks part made result process here done left =>
    exact (inv u).goes (by simp [here]) (point _) (by simp [SectionPoint.holds]) rfl rfl
      (by simp [SectionPoint.part]) (by simp) (by simp [SectionPoint.inChild])
  | child p here => exact (inv u).child_next here
  | restores here =>
    refine .outside (point _) fun taken => ?_
    have holds := (inv u).holder.mp taken
    rw [here] at holds
    exact absurd holds (by simp [SectionPoint.holds])

omit [DecidableEq Thread] in
theorem LockInv.idle_alone (inv : LockInv s) (idle : s.Idle t)
    (child : (s.point u).inChild = true) : False := by
  obtain rfl := (inv u).alone child t idle.1
  rw [idle.2] at child
  exact absurd child (by simp [SectionPoint.inChild])

theorem LockInv.move {label : ListLabel Thread} (inv : LockInv s)
    (moved : ListMove env pdma s label op s') : LockInv s' := by
  cases moved with
  | runs l label result process idle runs stepped is =>
    intro u
    by_cases same : u = label.actor
    · subst same
      exact .outside idle.2 ((inv _).unlocked idle.2)
    · exact (inv u).frame Iff.rfl rfl rfl rfl (step_thread_other stepped same)
        (fun _ _ born => born)
  | blocks l v part idle meant is =>
    intro u
    by_cases same : u = v
    · subst same
      have point : (s.sigBlock u part).point u = .waiting part := Function.update_self ..
      constructor
      · rw [point]
        exact iff_of_false ((inv u).unlocked idle.2) (by simp [SectionPoint.holds])
      · intro _
        refine ⟨idle.1, ?_⟩
        rw [show (s.sigBlock u part).mask u = _ from Function.update_self ..]
        funext signo
        simp [accIoSigset]
      · intro part' here
        rw [point] at here
        obtain rfl := Option.some.inj here
        exact meant
      · simp [point]
      · simp [point, SectionPoint.inChild]
    · exact (inv u).frame Iff.rfl (Function.update_of_ne same ..) (Function.update_of_ne same ..)
        rfl rfl (fun _ _ born => born)
  | nexts u op' after moved => exact inv.next moved
  | masks v mask idle =>
    intro u
    by_cases same : u = v
    · subst same
      exact .outside idle.2 ((inv u).unlocked idle.2)
    · exact (inv u).frame Iff.rfl rfl (Function.update_of_ne same ..) rfl rfl
        (fun _ _ born => born)
  | creates v w idle new =>
    intro u
    by_cases same : u = w
    · subst same
      have out : s.point u = .outside := by
        by_contra inside
        exact absurd ((inv u).masked inside).1 (by simp [new])
      exact .outside out ((inv u).unlocked out)
    · exact (inv u).frame Iff.rfl rfl (Function.update_of_ne same ..)
        (Function.update_of_ne same ..) rfl fun child => (inv.idle_alone idle child).elim

theorem LockInv.fork {child : ListProcess Thread} (inv : LockInv s)
    (forked : s.fork t = some ((), child)) : LockInv child := by
  simp only [ListProcess.fork, Option.ite_none_right_eq_some, Option.some.injEq,
    Prod.mk.injEq, true_and] at forked
  obtain ⟨here, rfl⟩ := forked
  have taken : s.lock = some t := (inv t).holder.mpr (by rw [here]; rfl)
  intro u
  by_cases same : u = t
  · subst same
    have mask : s.mask u = accIoSigset := ((inv u).masked (by simp [here])).2
    constructor
    · simp [taken, SectionPoint.holds]
    · exact fun _ => ⟨by simp, mask⟩
    · simp [SectionPoint.part]
    · simp
    · simp
  · constructor
    · simp [taken, same, Ne.symm same, SectionPoint.holds]
    · simp [same]
    · simp [same, SectionPoint.part]
    · simp [same]
    · simp [same, SectionPoint.inChild]

omit [DecidableEq Thread] in
theorem lockInv_of_outside (outside : ∀ t, s.point t = .outside) (free : s.lock = none) :
    LockInv s :=
  fun t => .outside (outside t) (by simp [free])

/-! ## The links are written under the lock -/

def ResourceOp.links : ResourceOp → Bool
  | .insert _ | .unlink _ => true
  | _ => false

theorem AccFrame.effect_links {f : AccFrame} {answer : IoAnswer} {key : Option ObjectId}
    {h : ResourceHeap} {e : CallEffect} {rest : List AccFrame} {thread : AccThread}
    (running : thread.frames = f :: rest) (plain : thread.nextSection = none)
    (did : f.effect answer key h = some e) : e.op.links = false := by
  unfold AccFrame.effect at did
  split at did
  case h_7 res answer here =>
    rw [AccThread.nextSection, running] at plain
    simp only [here, Option.map_eq_none_iff] at plain
    simp [plain] at did
  case h_3 =>
    split at did
    · exact absurd did (by simp)
    · obtain ⟨a, _, rfl⟩ := Option.map_eq_some_iff.mp did
      rfl
  all_goals first
    | (obtain rfl := Option.some.inj did; rfl)
    | (obtain ⟨a, _, rfl⟩ := Option.map_eq_some_iff.mp did; rfl)

theorem run_links {p p' : AccProcess Thread} {label : AccLabel Thread} {op : ResourceOp}
    (runs : RunsIn (p.thread label.actor) label)
    (stepped : p.step env pdma label = some (op, p')) : op.links = false := by
  cases label with
  | io u label =>
    simp only [AccProcess.step, Option.bind_eq_bind, Option.bind_eq_some_iff] at stepped
    obtain ⟨⟨op', h', left⟩, moved, result⟩ := stepped
    obtain ⟨rfl, rfl⟩ := Prod.mk.inj (Option.some.inj result)
    cases label with
    | call request =>
      simp only [AccThread.step, Option.some.injEq, Prod.mk.injEq] at moved
      obtain ⟨rfl, _, _⟩ := moved
      rfl
    | step answer =>
      cases runs with
      | code _ plain =>
        cases running : (p.thread u).frames with
        | nil => simp [AccThread.step, running] at moved
        | cons f rest =>
          simp only [AccThread.step, running, Option.bind_eq_bind, Option.bind_eq_some_iff,
            Option.some.injEq, Prod.mk.injEq] at moved
          obtain ⟨_, _, e, did, rfl, _⟩ := moved
          exact AccFrame.effect_links running (Option.isNone_iff_eq_none.mp plain) did
  | exit u =>
    simp only [AccProcess.step] at stepped
    split at stepped
    next =>
      obtain ⟨rfl, _⟩ := Prod.mk.inj (Option.some.inj stepped)
      rfl
    next => exact absurd stepped (by simp)
  | unlink u =>
    cases runs with
    | code _ plain => exact absurd plain (by simp [AccThread.plain])
  | release u =>
    simp only [AccProcess.step] at stepped
    split at stepped
    next =>
      obtain ⟨rfl, _⟩ := Prod.mk.inj (Option.some.inj stepped)
      rfl
    next => exact absurd stepped (by simp)

/-- The links are those of before, but for an object that the step fills. -/
structure LinksKept (h h' : ResourceHeap) (op : ListOp) : Prop where
  head : h'.listHeadNext = h.listHeadNext
  nodes : ∀ a, (h'.node a).next = (h.node a).next ∧ (h'.node a).prev = (h.node a).prev ∨
    op = .op (.init2 a)

theorem LinksKept.same {h h' : ResourceHeap} {op : ListOp} (same : h' = h) : LinksKept h h' op :=
  same ▸ ⟨rfl, fun _ => .inl ⟨rfl, rfl⟩⟩

theorem run_linksKept {p p' : AccProcess Thread} {label : AccLabel Thread} {op : ResourceOp}
    (runs : RunsIn (p.thread label.actor) label)
    (stepped : p.step env pdma label = some (op, p')) :
    LinksKept p.heap p'.heap (.op op) := by
  have quiet := run_links runs stepped
  cases process_move stepped with
  | moves u left f rest op h' running dst move =>
    generalize left.key = key, left.frames = frames at move
    cases move with
    | init2 f' a fields before after new =>
      refine ⟨rfl, fun b => ?_⟩
      by_cases same : b = a
      · exact .inr (by rw [same])
      · exact .inl (by simp [AccProcess.put, ResourceHeap.init2, Function.update_of_ne same])
    | inserts f' a before after => exact absurd quiet (by simp [ResourceOp.links])
    | _ => exact ⟨rfl, fun _ => .inl ⟨rfl, rfl⟩⟩
  | unlinks u left a quiet' before frames key after =>
    exact absurd quiet (by simp [ResourceOp.links])
  | _ => exact ⟨rfl, fun _ => .inl ⟨rfl, rfl⟩⟩

/-! ## The run -/

abbrev ListMember (Thread : Type) :=
  MemberEvent (ListProcess Thread) (ListLabel Thread) Thread ListOp Unit

abbrev ListEntry (Process Thread : Type) :=
  Forking.FamilyEntry Process (ListProcess Thread) (ListLabel Thread) Thread ListOp Unit

abbrev ListRun {Process : Type} [DecidableEq Process] (env : Env) (constructorPdma : Bool)
    (p : Process) (main : Thread) (mask : SigSet) (node : ObjectId → ResourceNode)
    (trace : List (ListEntry Process Thread))
    (final : Process → Option (ListProcess Thread)) : Prop :=
  (listForking Thread env constructorPdma).family.Run
    (Forking.alone p (.initial node main mask)) trace final

def ListLabel.interrupts : ListLabel Thread → Option Thread
  | .handler t _ _ | .atforkPrepare t (some _) => some t
  | _ => none

/-- An observer notes the mask of a thread before each section. -/
def observeMask (R : Thread → SigSet) : ListMember Thread → Thread → SigSet
  | .step before (.block t) _ _ | .step before (.atforkPrepare t _) _ _ =>
    Function.update R t (before.mask t)
  | _ => R

/-- A handler begins outside the sections, a section gives the mask back that it has found,
and links are written by the thread that has the lock, or the only one of a child.  A process
is copied while the thread that forks has the lock. -/
def KeepsSections (R : Thread → SigSet) : ListMember Thread → Prop
  | .step before label out after =>
    (∀ t, label.interrupts = some t → before.point t = .outside) ∧
      (∀ t, label = .next t → before.point t = .restore → after.mask t = R t) ∧
      (LinksKept before.process.heap after.process.heap out ∨
        ∃ t, label = .next t ∧ (before.lock = some t ∨
          (before.point t).inChild = true ∧ ∀ u, before.born u = true → u = t))
  | .fork parent t _ child =>
    parent.lock = some t ∧ child.lock = some t ∧ ∀ u, child.born u = true → u = t

/-- A thread is in at most one section with the lock, and nothing interrupts a section. -/
structure SectionsApart (s : ListProcess Thread) : Prop where
  taken : ∀ t, (s.point t).holds = true ↔ s.lock = some t
  one : ∀ t u, (s.point t).holds = true → (s.point u).holds = true → t = u
  masked : ∀ t signo, s.point t ≠ .outside → s.mask t signo = true

/-- The invariant, with the masks that an observer has noted. -/
structure MaskInv (R : Thread → SigSet) (s : ListProcess Thread) : Prop where
  lock : LockInv s
  saved : ∀ t, s.point t ≠ .outside → s.sigsetOld t = R t

variable {R : Thread → SigSet}

theorem NextMove.sigsetOld (moved : NextMove env pdma s t op s') :
    s'.sigsetOld = s.sigsetOld := by
  cases moved with
  | child p here =>
    cases p with
    | walk temp => cases temp <;> rfl
    | _ => rfl
  | _ => rfl

theorem NextMove.inside (moved : NextMove env pdma s t op s') (inside : s'.point u ≠ .outside) :
    s.point u ≠ .outside := by
  by_cases same : u = t
  · subst same
    cases moved with
    | locks part here free => simp [here]
    | assigns part made statement here found => simp [here]
    | unlocks part made result process here done left => simp [here]
    | child p here => simp [here]
    | restores here => simp [here]
  · have point : s'.point u = s.point u := by
      cases moved with
      | child p here =>
        cases p with
        | walk temp => cases temp <;> exact Function.update_of_ne same ..
        | _ => exact Function.update_of_ne same ..
      | _ => exact Function.update_of_ne same ..
    rwa [point] at inside

theorem MaskInv.step {label : ListLabel Thread} (inv : MaskInv R s)
    (moved : ListMove env pdma s label op s') :
    MaskInv (observeMask R (.step s label op s')) s' := by
  refine ⟨inv.lock.move moved, fun u inside => ?_⟩
  cases moved with
  | runs l run result process idle runs stepped is =>
    have unnoted :
        observeMask R (.step s label (.op result) { s with process := process }) = R := by
      rcases is with rfl | ⟨v, signo, request, rfl, _⟩
      · rfl
      · rfl
    rw [unnoted]
    exact inv.saved u inside
  | blocks l v part idle meant is =>
    have noted : observeMask R (.step s label (.op .other) (s.sigBlock v part)) =
        Function.update R v (s.mask v) := by
      rcases is with rfl | ⟨signo, rfl⟩
      · rfl
      · cases signo <;> rfl
    rw [noted]
    by_cases same : u = v
    · subst same
      rw [Function.update_self]
      exact Function.update_self ..
    · rw [Function.update_of_ne same]
      have point : (s.sigBlock v part).point u = s.point u := Function.update_of_ne same ..
      rw [point] at inside
      exact (Function.update_of_ne same ..).trans (inv.saved u inside)
  | nexts v op' after moved =>
    rw [moved.sigsetOld]
    exact inv.saved u (moved.inside inside)
  | masks v mask idle => exact inv.saved u inside
  | creates v w idle new => exact inv.saved u inside

theorem MaskInv.fork {child : ListProcess Thread} (inv : MaskInv R s)
    (forked : s.fork t = some ((), child)) : MaskInv R child := by
  refine ⟨inv.lock.fork forked, fun u inside => ?_⟩
  simp only [ListProcess.fork, Option.ite_none_right_eq_some, Option.some.injEq,
    Prod.mk.injEq, true_and] at forked
  obtain ⟨here, rfl⟩ := forked
  by_cases same : u = t
  · subst same
    exact inv.saved u (by simp [here])
  · exact absurd (by simp [same]) inside

theorem MaskInv.event (e : ListMember Thread) (before : MaskInv R e.source)
    (happens : (listForking Thread env pdma).Happens e) (_ : True) :
    MaskInv (observeMask R e) e.target := by
  cases e with
  | step s label op s' =>
    have inv : MaskInv R s := before
    exact inv.step (list_move inv.lock happens)
  | fork s t out child => exact MaskInv.fork before happens

theorem ListMove.interrupts_outside {label : ListLabel Thread}
    (moved : ListMove env pdma s label op s') (here : label.interrupts = some t) :
    s.point t = .outside := by
  cases moved with
  | runs l label result process idle runs stepped is =>
    rcases is with rfl | ⟨v, signo, request, rfl, rfl⟩
    · exact absurd here (by simp [ListLabel.interrupts])
    · obtain rfl := Option.some.inj here
      exact idle.2
  | blocks l v part idle meant is =>
    rcases is with rfl | ⟨signo, rfl⟩
    · exact absurd here (by simp [ListLabel.interrupts])
    · cases signo with
      | none => exact absurd here (by simp [ListLabel.interrupts])
      | some signo =>
        obtain rfl := Option.some.inj here
        exact idle.2
  | _ => exact absurd here (by simp [ListLabel.interrupts])

theorem LockInv.linksKept {label : ListLabel Thread} (inv : LockInv s)
    (moved : ListMove env pdma s label op s') :
    LinksKept s.process.heap s'.process.heap op ∨
      ∃ t, label = .next t ∧ (s.lock = some t ∨
        (s.point t).inChild = true ∧ ∀ u, s.born u = true → u = t) := by
  cases moved with
  | runs l label result process idle runs stepped is => exact .inl (run_linksKept runs stepped)
  | nexts t op' after moved =>
    cases moved with
    | locks part here free => exact .inl (.same rfl)
    | assigns part made statement here found =>
      exact .inr ⟨t, rfl, .inl ((inv t).holder.mpr (by rw [here]; rfl))⟩
    | unlocks part made result process here done left =>
      exact .inl (.same (leave_process left).1)
    | child p here =>
      have child : (s.point t).inChild = true := by rw [here]; rfl
      exact .inr ⟨t, rfl, .inr ⟨child, (inv t).alone child⟩⟩
    | restores here => exact .inl (.same rfl)
  | _ => exact .inl (.same rfl)

theorem MaskInv.keepsSections (e : ListMember Thread) (before : MaskInv R e.source)
    (happens : (listForking Thread env pdma).Happens e) (_ : True) : KeepsSections R e := by
  cases e with
  | step s label op s' =>
    have inv : MaskInv R s := before
    have moved : ListMove env pdma s label op s' := list_move inv.lock happens
    refine ⟨fun t here => moved.interrupts_outside here, ?_, inv.lock.linksKept moved⟩
    rintro t rfl restore
    cases moved with
    | runs l label result process idle runs stepped is => simp at is
    | blocks l v part idle meant is => simp at is
    | nexts t op' after moved =>
      rw [← inv.saved t (by simp [restore])]
      cases moved with
      | restores here => exact Function.update_self ..
      | locks part here free => exact absurd (restore.symm.trans here) (by simp)
      | assigns part made statement here found => exact absurd (restore.symm.trans here) (by simp)
      | unlocks part made result process here done left =>
        exact absurd (restore.symm.trans here) (by simp)
      | child p here => exact absurd (restore.symm.trans here) (by simp)
  | fork s t out child =>
    have inv : MaskInv R s := before
    have forked : s.fork t = some ((), child) := happens
    simp only [ListProcess.fork, Option.ite_none_right_eq_some, Option.some.injEq,
      Prod.mk.injEq, true_and] at forked
    obtain ⟨here, rfl⟩ := forked
    have taken : s.lock = some t := (inv.lock t).holder.mpr (by rw [here]; rfl)
    exact ⟨taken, taken, fun u born => of_decide_eq_true born⟩

omit [DecidableEq Thread] in
theorem LockInv.sectionsApart (inv : LockInv s) : SectionsApart s where
  taken t := (inv t).holder.symm
  one _ _ := inv.one
  masked t signo inside := congrFun ((inv t).masked inside).2 signo

/-- In every run of processes. -/
theorem list_lock_kept {Process : Type} [DecidableEq Process] (env : Env) (pdma : Bool)
    (p : Process) (main : Thread) (mask : SigSet) (node : ObjectId → ResourceNode)
    (trace : List (ListEntry Process Thread)) (final : Process → Option (ListProcess Thread))
    (run : ListRun env pdma p main mask node trace final) :
    (Forking.members (fun _ => mask) observeMask KeepsSections).Safe trace ∧
      ∀ q s, final q = some s → SectionsApart s := by
  have initially : MaskInv (fun _ => mask) (ListProcess.initial node main mask) :=
    ⟨lockInv_of_outside (fun _ => rfl) rfl, fun _ inside => absurd rfl inside⟩
  have unassumed : (Forking.members (fun _ => mask) observeMask fun _ _ => True :
      Monitor (Process → Thread → SigSet) (ListEntry Process Thread)).Safe trace :=
    Monitor.safe_true _ _ _
  constructor
  · exact Forking.family_guarantee initially (fun _ => MaskInv.event)
      (fun _ => MaskInv.keepsSections) run unassumed
  · intro q s here
    have inv := Forking.family_invariant initially (fun _ => MaskInv.event) run unassumed q s here
    exact inv.lock.sectionsApart

def threadSteps {Thread : Type} (p : Nat) (t : Thread) (labels : List IoLabel) :
    List (FamilyLabel Nat (ListLabel Thread) Thread) :=
  labels.map fun label => .step p (.run (.io t label))

def nexts {Thread : Type} (p : Nat) (t : Thread) (count : Nat) :
    List (FamilyLabel Nat (ListLabel Thread) Thread) :=
  List.replicate count (.step p (.next t))

/-- Two threads insert: the second one makes its object and waits while the first one is in the
middle of its section.  Then a signal handler of the first one forks. -/
def interleavedLabels : List (FamilyLabel Nat (ListLabel Bool) Bool) :=
  [.step 0 (.create false true)] ++ threadSteps 0 false (firstCall 100).dropLast ++
    [.step 0 (.block false)] ++ nexts 0 false 3 ++ threadSteps 0 true (firstCall 200).dropLast ++
    [.step 0 (.block true)] ++ nexts 0 false 3 ++ nexts 0 true 1 ++ nexts 0 false 1 ++
    nexts 0 true 6 ++ [.step 0 (.atforkPrepare false (some 1))] ++ nexts 0 false 1 ++
    [.fork 0 false 1] ++ nexts 1 false 2 ++ nexts 0 false 2 ++ nexts 1 false 6

def listAlone : Nat → Option (ListProcess Bool) :=
  Forking.alone 0 (.initial (fun _ => ⟨.sample, none, none⟩) false fun _ => false)

theorem list_lock_kept_interleaved :
    ∃ trace final, (listForking Bool (.steady 0) false).family.exec listAlone interleavedLabels =
        some (trace, final) ∧ trace.length = 48 ∧
      (Forking.members (fun _ => fun _ => false) observeMask KeepsSections).Safe trace ∧
      ∀ q s, final q = some s → SectionsApart s := by
  have checked : ((listForking Bool (.steady 0) false).family.exec listAlone
      interleavedLabels).any (fun done => decide (done.1.length = 48)) = true := by
    decide +kernel
  rw [Option.any_eq_true] at checked
  obtain ⟨⟨trace, final⟩, ran, holds⟩ := checked
  obtain ⟨kept, apart⟩ := list_lock_kept (.steady 0) false 0 false _ _ trace final
    (Machine.exec_run ran)
  exact ⟨trace, final, ran, of_decide_eq_true holds, kept, apart⟩

end Libsysve.AccIo
