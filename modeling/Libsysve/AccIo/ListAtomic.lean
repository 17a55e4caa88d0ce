import Libsysve.AccIo.ListMutex
import Libsysve.Library.FamilySimulation

/-!
# The locked sections are atomic

Every run of the processes of `AccIo.ListLock` is matched by one of the processes of
`AccIo.Resources`, in which a locked section and the handler of a child are one step.  A
section takes effect where it gives the lock back: up to there its assignments are ahead of
the other machine, and no step of another thread reads or writes what they have assigned.
-/

set_option autoImplicit false

namespace Libsysve.AccIo

variable {h : ResourceHeap} {part : ListSection} {a b : ObjectId} {made : Nat}
  {fields : AccIoResources}

/-! ## Assignments ahead of the other steps -/

theorem written_succ {statement : ResourceHeap → ResourceHeap}
    (found : part.statements[made]? = some statement) :
    part.written (made + 1) h = statement (part.written made h) := by
  rw [ListSection.written, List.take_add_one, found, List.foldl_append]
  rfl

/-- The function reads and writes links only. -/
structure LinksOnly (change : ResourceHeap → ResourceHeap) : Prop where
  same : ∀ h, ResourceHeap.SameBut h (change h)
  rest : ∀ h live malloced vhBuff,
    change { h with live := live, malloced := malloced, vhBuff := vhBuff } =
      { change h with live := live, malloced := malloced, vhBuff := vhBuff }

theorem LinksOnly.id : LinksOnly fun h => h where
  same _ := ⟨fun _ => rfl, rfl, rfl, rfl⟩
  rest _ _ _ _ := rfl

theorem LinksOnly.comp {change change' : ResourceHeap → ResourceHeap} (first : LinksOnly change)
    (second : LinksOnly change') : LinksOnly fun h => change' (change h) where
  same h := (first.same h).trans (second.same (change h))
  rest h live malloced vhBuff := by rw [first.rest, second.rest]

theorem statement_linksOnly {statement : ResourceHeap → ResourceHeap}
    (member : statement ∈ part.statements) : LinksOnly statement := by
  cases part with
  | insert a =>
    simp only [ListSection.statements, List.mem_cons, List.not_mem_nil, or_false] at member
    obtain rfl | rfl | rfl | rfl := member
    · exact ⟨fun _ => ResourceHeap.setNext_sameBut, fun _ _ _ _ => rfl⟩
    · exact ⟨fun _ => ResourceHeap.setPrev_sameBut, fun _ _ _ _ => rfl⟩
    · refine ⟨fun h => ?_, fun h live malloced vhBuff => ?_⟩
      · cases first : h.listHeadNext with
        | none => exact LinksOnly.id.same h
        | some b => exact ResourceHeap.setPrev_sameBut
      · obtain ⟨node, _, _, first, _⟩ := h
        cases first <;> rfl
    · exact ⟨fun _ => ResourceHeap.setNext_sameBut, fun _ _ _ _ => rfl⟩
  | unlink a =>
    simp only [ListSection.statements, List.mem_cons, List.not_mem_nil, or_false] at member
    obtain rfl | rfl := member
    · refine ⟨fun h => ?_, fun h live malloced vhBuff => ?_⟩
      · cases back : (h.node a).prev with
        | none => exact LinksOnly.id.same h
        | some before => exact ResourceHeap.setNext_sameBut
      · cases back : (h.node a).prev with
        | none => rfl
        | some before => cases before <;> rfl
    · refine ⟨fun h => ?_, fun h live malloced vhBuff => ?_⟩
      · cases forth : (h.node a).next with
        | none => exact LinksOnly.id.same h
        | some b => exact ResourceHeap.setPrev_sameBut
      · cases forth : (h.node a).next with
        | none => rfl
        | some b => rfl
  | fork => exact absurd member List.not_mem_nil

theorem written_linksOnly (part : ListSection) (made : Nat) : LinksOnly (part.written made) := by
  induction made with
  | zero => exact .id
  | succ made ih =>
    cases found : part.statements[made]? with
    | none =>
      have full : part.written (made + 1) = part.written made := by
        funext h
        rw [ListSection.written, ListSection.written, List.take_add_one, found, Option.toList_none,
          List.append_nil]
      rw [full]
      exact ih
    | some statement =>
      have more : part.written (made + 1) = fun h => statement (part.written made h) :=
        funext fun _ => written_succ found
      rw [more]
      exact ih.comp (statement_linksOnly (List.mem_of_getElem? found))

/-- The section neither reads nor writes the links of the object `b`. -/
def ListSection.Spares (h : ResourceHeap) (b : ObjectId) : ListSection → Prop
  | .insert a => a ≠ b ∧ h.listHeadNext ≠ some b
  | .unlink a => a ≠ b ∧ (h.node a).next ≠ some b ∧ (h.node a).prev ≠ some (.object b)
  | .fork => True

theorem init2_setNext (link : Link) (next : Option ObjectId) (other : link ≠ .object b) :
    (h.init2 b fields).setNext link next = (h.setNext link next).init2 b fields := by
  cases link with
  | listHead => rfl
  | object a =>
    have apart : a ≠ b := fun same => other (congrArg Link.object same)
    simp only [ResourceHeap.setNext, ResourceHeap.init2, Function.update_of_ne apart]
    rw [Function.update_comm apart]

theorem init2_setPrev (prev : Option Link) (other : a ≠ b) :
    (h.init2 b fields).setPrev a prev = (h.setPrev a prev).init2 b fields := by
  simp only [ResourceHeap.setPrev, ResourceHeap.init2, Function.update_of_ne other]
  rw [Function.update_comm other]

theorem init2_node (other : a ≠ b) : (h.init2 b fields).node a = h.node a :=
  Function.update_of_ne other ..

theorem statement_init2 {statement : ResourceHeap → ResourceHeap}
    (member : statement ∈ part.statements) (spares : part.Spares h b) :
    statement (h.init2 b fields) = (statement h).init2 b fields ∧ part.Spares (statement h) b := by
  cases part with
  | insert a =>
    obtain ⟨other, head⟩ := spares
    have apart : Link.object a ≠ .object b := fun same => other (Link.object.inj same)
    simp only [ListSection.statements, List.mem_cons, List.not_mem_nil, or_false] at member
    obtain rfl | rfl | rfl | rfl := member
    · exact ⟨init2_setNext _ _ apart, other, by simpa using head⟩
    · exact ⟨init2_setPrev _ other, other, head⟩
    · cases first : h.listHeadNext with
      | none => simp [ListSection.Spares, ResourceHeap.init2, first, other]
      | some c =>
        have apart : c ≠ b := fun same => head (same ▸ first)
        refine ⟨?_, other, by simpa [first] using apart⟩
        simp only [show (h.init2 b fields).listHeadNext = some c from first, first]
        exact init2_setPrev _ apart
    · exact ⟨rfl, other, by simpa using other⟩
  | unlink a =>
    obtain ⟨other, forth, back⟩ := spares
    simp only [ListSection.statements, List.mem_cons, List.not_mem_nil, or_false] at member
    obtain rfl | rfl := member
    · simp only [init2_node other]
      cases here : (h.node a).prev with
      | none => exact ⟨rfl, other, forth, back⟩
      | some before =>
        have apart : before ≠ .object b := fun same => back (same ▸ here)
        refine ⟨init2_setNext _ _ apart, other, ?_, by simpa using back⟩
        simp only [ResourceHeap.setNext_next, ite_self]
        exact forth
    · simp only [init2_node other]
      cases here : (h.node a).next with
      | none => exact ⟨rfl, other, forth, back⟩
      | some c =>
        have apart : c ≠ b := fun same => forth (same ▸ here)
        refine ⟨init2_setPrev _ apart, other, by simpa using forth, ?_⟩
        simp only [ResourceHeap.setPrev_prev, ite_self]
        exact back
  | fork => exact absurd member List.not_mem_nil

theorem written_init2 (spares : part.Spares h b) :
    part.written made (h.init2 b fields) = (part.written made h).init2 b fields ∧
      part.Spares (part.written made h) b := by
  induction made with
  | zero => exact ⟨rfl, spares⟩
  | succ made ih =>
    obtain ⟨same, spares⟩ := ih
    cases found : part.statements[made]? with
    | none =>
      simp only [ListSection.written, List.take_add_one, found, Option.toList_none,
        List.append_nil]
      exact ⟨same, spares⟩
    | some statement =>
      rw [written_succ found, written_succ found, same]
      exact statement_init2 (List.mem_of_getElem? found) spares

/-! ## The other threads -/

section
variable {change : ResourceHeap → ResourceHeap}

theorem LinksOnly.malloc (links : LinksOnly change) : (change h).malloc = change h.malloc := by
  have same := links.same h
  have moved := links.rest h (Function.update h.live h.malloced true) (h.malloced + 1) h.vhBuff
  rw [ResourceHeap.malloc, same.live, same.malloced, same.vhBuff]
  exact moved.symm

theorem LinksOnly.free (links : LinksOnly change) : (change h).free a = change (h.free a) := by
  have same := links.same h
  have moved := links.rest h (Function.update h.live a false) h.malloced h.vhBuff
  rw [ResourceHeap.free, same.live, same.malloced, same.vhBuff]
  exact moved.symm

theorem LinksOnly.releaseResource (links : LinksOnly change) :
    (change h).releaseResource a = change (h.releaseResource a) := by
  have same := links.same h
  have moved := links.rest h (Function.update h.live a false) h.malloced
    (Function.update h.vhBuff (h.node a).fields.vhBuff false)
  simp only [ResourceHeap.releaseResource, ResourceHeap.free, same.fields, same.vhBuff, same.live,
    same.malloced]
  exact moved.symm

theorem LinksOnly.releaseCalls (links : LinksOnly change) (isFork : Bool) :
    (change h).releaseCalls a isFork = h.releaseCalls a isFork := by
  simp only [ResourceHeap.releaseCalls, (links.same h).fields]

theorem LinksOnly.io (links : LinksOnly change) (t : AccThread) : t.io (change h) = t.io h := by
  simp only [AccThread.io, (links.same h).fields]

theorem effect_ahead (links : LinksOnly change) {f : AccFrame} {answer : IoAnswer}
    {key : Option ObjectId}
    (unlinked : ∀ res, f.call.point = .listInsert res → f.accIoRes = none)
    (fills : ∀ a fields, f.At .malloced a →
      change (h.init2 a fields) = (change h).init2 a fields) :
    f.effect answer key (change h) =
      (f.effect answer key h).map fun e => { e with heap := change e.heap } := by
  obtain ⟨⟨request, point, swapped⟩, acc⟩ := f
  unfold AccFrame.effect
  dsimp only
  split
  · rfl
  · rw [links.malloc, (links.same h).malloced]
    rfl
  · rw [(links.same h).vhBuff]
    split
    · rfl
    · cases acc with
      | none => rfl
      | some a =>
        simp only [Option.map_some]
        rw [fills a _ ⟨rfl, rfl⟩]
  · cases acc with
    | none => rfl
    | some a => simp only [Option.map_some, links.free]
  · cases acc <;> rfl
  · cases acc with
    | none => rfl
    | some a => simp only [Option.map_some, links.releaseResource, links.releaseCalls]
  · obtain rfl : acc = none := unlinked _ rfl
    rfl
  · rfl
  · rfl

variable {Thread : Type} [DecidableEq Thread] {env : Env} {pdma : Bool}

theorem step_ahead {c : AccProcess Thread} {label : AccLabel Thread} (links : LinksOnly change)
    (runs : RunsIn (c.thread label.actor) label)
    (fills : ∀ f rest a fields, (c.thread label.actor).frames = f :: rest → f.At .malloced a →
      change (c.heap.init2 a fields) = (change c.heap).init2 a fields) :
    AccProcess.step env pdma ⟨change c.heap, c.thread⟩ label =
      (c.step env pdma label).map fun r => (r.1, ⟨change r.2.heap, r.2.thread⟩) := by
  cases label with
  | io u label =>
    cases label with
    | call request => rfl
    | step answer =>
      cases running : (c.thread u).frames with
      | nil => simp [AccProcess.step, AccThread.step, running]
      | cons f rest =>
        have unlinked : ∀ res, f.call.point = .listInsert res → f.accIoRes = none := by
          intro res here
          cases runs with
          | code _ plain =>
            have outside := Option.isNone_iff_eq_none.mp plain
            simpa [AccThread.nextSection, AccLabel.actor, running, here] using outside
        have did : f.effect answer (c.thread u).key (change c.heap) =
            (f.effect answer (c.thread u).key c.heap).map fun e =>
              { e with heap := change e.heap } :=
          effect_ahead links unlinked fun a fields here => fills f rest a fields running here
        simp only [AccProcess.step, AccThread.step, running, links.io, did]
        cases ((c.thread u).io c.heap).stepFrame env pdma f.call (rest.map AccFrame.call)
          answer with
        | none => rfl
        | some moved =>
          cases f.effect answer (c.thread u).key c.heap with
          | none => rfl
          | some e => rfl
  | exit u =>
    simp only [AccProcess.step]
    split
    · rfl
    · rfl
  | unlink u =>
    cases runs with
    | code _ plain => exact absurd plain (by simp [AccThread.plain])
  | release u =>
    simp only [AccProcess.step, links.releaseCalls, links.releaseResource]
    split
    · rfl
    · rfl

end

/-! ## The relation -/

variable {Thread : Type} [DecidableEq Thread] {s s' : ListProcess Thread}
  {c c' : AccProcess Thread} {t u : Thread} {op : ListOp} {env : Env} {pdma : Bool}

/-- The memory with the assignments of the section that has the lock. -/
def ListProcess.ahead (s : ListProcess Thread) : ResourceHeap → ResourceHeap :=
  match s.lock.map s.point with
  | some (.locked part made) => part.written made
  | _ => fun h => h

/-- When the loop goes on from the object `temp`, the handler of the child leaves `h'`. -/
def WalkLeaves (h : ResourceHeap) (temp : Option ObjectId) (h' : ResourceHeap) : Prop :=
  ∃ objects, temp = objects.head? ∧ LinkedList.Linked ResourceNode.next h.node objects none ∧
    h' = { h.afterRelease objects with listHeadNext := none }

/-- What the handler of the child leaves from this statement on. -/
def ChildPoint.Leaves (h h' : ResourceHeap) : ChildPoint → Prop
  | .unlock | .setspecific | .first => WalkLeaves h h.listHeadNext h'
  | .walk temp => WalkLeaves h temp h'
  | .clearFlag => h' = h

/-- The objects that the loop goes over from `temp`. -/
def WalkVisits (h : ResourceHeap) (temp : Option ObjectId) (objects : List ObjectId) : Prop :=
  temp = objects.head? ∧ LinkedList.Linked ResourceNode.next h.node objects none

/-- The objects that the handler of the child releases from this statement on. -/
def ChildPoint.Visits (h : ResourceHeap) (objects : List ObjectId) : ChildPoint → Prop
  | .unlock | .setspecific | .first => WalkVisits h h.listHeadNext objects
  | .walk temp => WalkVisits h temp objects
  | .clearFlag => objects = []

/-- What the handler of a child still has to release, with the system calls. -/
structure LeftToRelease (s : ListProcess Thread) (left : List (ObjectId × List SysveCall)) :
    Prop where
  child : ∀ t p, s.point t = .child p → ∃ objects, p.Visits s.process.heap objects ∧
    left = objects.map fun a => (a, s.process.heap.releaseCalls a true)
  settled : (∀ t, (s.point t).inChild = false) → left = []

/-- The handler has set the key to NULL. -/
def ChildPoint.unset : ChildPoint → Bool
  | .unlock | .setspecific => false
  | _ => true

/-- The other machine has the state that `s` was in before the section, or will be in after the
handler of the child. -/
inductive Agrees (s : ListProcess Thread) (c : AccProcess Thread) : Prop where
  | whole (settled : ∀ t, (s.point t).inChild = false) (threads : s.process.thread = c.thread)
      (heap : s.process.heap = s.ahead c.heap)
  | child (t : Thread) (p : ChildPoint) (here : s.point t = .child p)
      (memory : p.Leaves s.process.heap c.heap)
      (keyed : p.unset = true → (s.process.thread t).key = none)
      (caller : c.thread t =
        { s.process.thread t with key := none, veBuffUsingFlag := veBuffNotUsing })
      (others : ∀ u, u ≠ t → s.process.thread u = c.thread u)

structure AtomicRel (s : ListProcess Thread) (c : AccProcess Thread) : Prop where
  lock : LockInv s
  agrees : Agrees s c
  resources : ∃ objects, ResourceInv objects c

def ListSection.label (t : Thread) : ListSection → Option (AccLabel Thread)
  | .insert _ => some (.io t (.step .quiet))
  | .unlink _ => some (.unlink t)
  | .fork => none

/-- A section is marked where it gives the lock back. -/
def wholeLabel (s : ListProcess Thread) : ListLabel Thread → Option (AccLabel Thread)
  | .run label => some label
  | .handler t _ request => some (.io t (.call request))
  | .next t =>
    match s.point t with
    | .locked part made => if made < part.statements.length then none else part.label t
    | _ => none
  | _ => none

/-- No list is longer than the number of objects that were allocated. -/
def wholeFork (s : ListProcess Thread) (t : Thread) : ForkCall Thread :=
  ⟨t, s.process.heap.malloced⟩

inductive SharedEvent where
  | op (op : ResourceOp)
  | forked

def ResourceOp.shown : ResourceOp → Option SharedEvent
  | .other => none
  | op => some (.op op)

def listShown : ListMember Thread → Option SharedEvent
  | .step _ _ (.op op) _ => op.shown
  | .step _ _ (.childReleases _ _) _ => none
  | .fork _ _ _ _ => some .forked

def accShown : AccEvent Thread → Option SharedEvent
  | .step _ _ op _ => op.shown
  | .fork _ _ _ _ => some .forked

omit [DecidableEq Thread] in
theorem ListProcess.ahead_congr (lock : s'.lock = s.lock)
    (point : ∀ t, s.lock = some t → s'.point t = s.point t) : s'.ahead = s.ahead := by
  unfold ListProcess.ahead
  rw [lock]
  cases taken : s.lock with
  | none => rfl
  | some t => simp only [Option.map_some, point t taken]

omit [DecidableEq Thread] in
theorem ListProcess.ahead_free (free : s.lock = none) : s.ahead = fun h => h := by
  unfold ListProcess.ahead
  rw [free]
  rfl

omit [DecidableEq Thread] in
theorem ListProcess.ahead_locked {part : ListSection} {made : Nat} (taken : s.lock = some t)
    (here : s.point t = .locked part made) : s.ahead = part.written made := by
  unfold ListProcess.ahead
  simp only [taken, Option.map_some, here]

omit [DecidableEq Thread] in
theorem ListProcess.ahead_linksOnly (s : ListProcess Thread) : LinksOnly s.ahead := by
  unfold ListProcess.ahead
  split
  · exact written_linksOnly _ _
  · exact .id

theorem nextSection_insert {thread : AccThread} (here : thread.nextSection = some (.insert a)) :
    ∃ f rest res, thread.frames = f :: rest ∧ f.call.point = .listInsert res ∧
      f.accIoRes = some a := by
  unfold AccThread.nextSection at here
  split at here
  next f rest running =>
    split at here
    next res point =>
      obtain ⟨a', acc, same⟩ := Option.map_eq_some_iff.mp here
      obtain rfl := ListSection.insert.inj same
      exact ⟨f, rest, res, running, point, acc⟩
    next => exact absurd here (by simp)
  next => exact absurd (Option.some.inj here) (by simp)
  next => exact absurd here (by simp)

theorem nextSection_unlink {thread : AccThread} (here : thread.nextSection = some (.unlink a)) :
    thread.frames = [] ∧ thread.dst = .unlink a := by
  unfold AccThread.nextSection at here
  split at here
  next f rest running =>
    split at here
    next res point =>
      obtain ⟨a', acc, same⟩ := Option.map_eq_some_iff.mp here
      exact absurd same (by simp)
    next => exact absurd here (by simp)
  next a' quiet dst =>
    obtain rfl := ListSection.unlink.inj (Option.some.inj here)
    exact ⟨quiet, dst⟩
  next => exact absurd here (by simp)

/-! ### Sections spare what other threads fill -/

omit [DecidableEq Thread] in
theorem ResourceInv.spares {objects : List ObjectId} (inv : ResourceInv objects c)
    {part : ListSection} (meant : part.Meant (c.thread t)) (other : u ≠ t)
    (pending : b ∈ (c.thread u).pending) : part.Spares c.heap b := by
  have out : b ∉ objects := ((inv.threads u).pending b pending).2
  have start := inv.heap.listed.start
  rcases meant with rfl | here
  · trivial
  cases part with
  | insert a =>
    obtain ⟨f, rest, res, running, point, acc⟩ := nextSection_insert here
    have set : f.At .set a := ⟨by rw [AccFrame.stage, point]; rfl, acc⟩
    have mine : a ∈ (c.thread t).pending :=
      AccThread.mem_objectsIn (running ▸ List.mem_cons_self) (AccFrame.objectIn_at set rfl)
    refine ⟨?_, ?_⟩
    · rintro rfl
      exact other (inv.apart u t a (.inl pending) (.inl mine))
    · rw [start]
      exact fun first => out (List.mem_of_head? first)
  | unlink a =>
    obtain ⟨_, leaving⟩ := nextSection_unlink here
    have member := ((inv.threads t).leaving a leaving).1
    obtain ⟨pre, post, rfl⟩ := List.append_of_mem member
    refine ⟨?_, ?_, ?_⟩
    · rintro rfl
      exact out member
    · rw [inv.heap.listed.next_eq]
      exact fun first => out (List.mem_append_right _ (List.mem_cons_of_mem _
        (List.mem_of_head? first)))
    · rw [inv.heap.listed.prev_eq]
      intro last
      have last := lastRef_object.mp (Option.some.inj last)
      exact out (List.mem_append_left _ (List.mem_of_getLast? last))
  | fork => trivial

/-! ## One step -/

theorem insert_step (env : Env) (pdma : Bool) {threads : Thread → AccThread}
    (here : (threads t).nextSection = some (.insert a)) :
    ∃ left, ∀ h, AccProcess.step env pdma ⟨h, threads⟩ (.io t (.step .quiet)) =
      some (.insert a, ⟨h.linkHead a, Function.update threads t left⟩) := by
  obtain ⟨f, rest, res, running, point, acc⟩ := nextSection_insert here
  obtain ⟨⟨request, at', swapped⟩, acc'⟩ := f
  obtain rfl : at' = .listInsert res := point
  obtain rfl : acc' = some a := acc
  let call : IoFrame := ⟨request, .preReturned (.success (res.info env)), swapped⟩
  refine ⟨{ threads t with frames := ⟨call, some a⟩ :: rest }, fun h => ?_⟩
  simp only [AccProcess.step, AccThread.step, running, IoThread.stepFrame, IoThread.goOn,
    AccFrame.effect, AccThread.io, AccThread.resumed]
  rfl

theorem unlink_step (env : Env) (pdma : Bool) {threads : Thread → AccThread}
    (here : (threads t).nextSection = some (.unlink a)) :
    ∃ left, ∀ h, AccProcess.step env pdma ⟨h, threads⟩ (.unlink t) =
      some (.unlink a, ⟨h.unlink a, Function.update threads t left⟩) := by
  obtain ⟨quiet, leaving⟩ := nextSection_unlink here
  refine ⟨{ threads t with dst := .release a }, fun h => ?_⟩
  simp only [AccProcess.step, quiet, leaving]
  rfl

theorem leave_whole {part : ListSection} {result : ResourceOp} {process : AccProcess Thread}
    {label : AccLabel Thread} (threads : s.process.thread = c.thread)
    (heap : s.process.heap = part.written part.statements.length c.heap)
    (meant : part.Meant (s.process.thread t)) (marked : part.label t = some label)
    (left : s.leave env pdma t part = some (result, process)) :
    c.step env pdma label = some (result, process) := by
  obtain ⟨h, threads'⟩ := c
  obtain rfl : s.process.thread = threads' := threads
  cases part with
  | insert a =>
    obtain rfl := Option.some.inj marked
    have here : (s.process.thread t).nextSection = some (.insert a) :=
      meant.resolve_left (by simp)
    obtain ⟨after, stepped⟩ := insert_step env pdma here
    have moved := stepped s.process.heap
    simp only [ListProcess.leave] at left
    rw [show s.process.step env pdma (.io t (.step .quiet)) = _ from moved] at left
    simp only [Option.bind_eq_bind, Option.bind_some, Option.some.injEq, Prod.mk.injEq] at left
    obtain ⟨rfl, rfl⟩ := left
    rw [stepped h, heap]
    rfl
  | unlink a =>
    obtain rfl := Option.some.inj marked
    have here : (s.process.thread t).nextSection = some (.unlink a) :=
      meant.resolve_left (by simp)
    obtain ⟨after, stepped⟩ := unlink_step env pdma here
    have moved := stepped s.process.heap
    simp only [ListProcess.leave] at left
    rw [show s.process.step env pdma (.unlink t) = _ from moved] at left
    simp only [Option.bind_eq_bind, Option.bind_some, Option.some.injEq, Prod.mk.injEq] at left
    obtain ⟨rfl, rfl⟩ := left
    rw [stepped h, heap]
    rfl
  | fork => exact absurd marked (by simp [ListSection.label])

omit [DecidableEq Thread] in
theorem AtomicRel.whole (rel : AtomicRel s c) (born : s.born t = true)
    (elsewhere : (s.point t).inChild = false) :
    (∀ u, (s.point u).inChild = false) ∧ s.process.thread = c.thread ∧
      s.process.heap = s.ahead c.heap := by
  cases rel.agrees with
  | whole settled threads heap => exact ⟨settled, threads, heap⟩
  | child u p here memory keyed caller others =>
    have inside : (s.point u).inChild = true := by rw [here]; rfl
    obtain rfl := (rel.lock u).alone inside t born
    exact absurd (elsewhere.symm.trans inside) (by simp)

omit [DecidableEq Thread] in
theorem AtomicRel.idle (rel : AtomicRel s c) (idle : s.Idle t) :
    (∀ u, (s.point u).inChild = false) ∧ s.process.thread = c.thread ∧
      s.process.heap = s.ahead c.heap :=
  rel.whole idle.1 (by rw [idle.2]; rfl)

theorem AtomicRel.runs {label : AccLabel Thread} {result : ResourceOp}
    {process : AccProcess Thread} (rel : AtomicRel s c) (idle : s.Idle label.actor)
    (runs : RunsIn (s.process.thread label.actor) label)
    (stepped : s.process.step env pdma label = some (result, process)) :
    ∃ c', c.step env pdma label = some (result, c') ∧
      Agrees { s with process := process } c' ∧ ∃ objects, ResourceInv objects c' := by
  obtain ⟨settled, threads, heap⟩ := rel.idle idle
  obtain ⟨objects, inv⟩ := rel.resources
  have fills : ∀ f rest a fields, (c.thread label.actor).frames = f :: rest → f.At .malloced a →
      s.ahead (c.heap.init2 a fields) = (s.ahead c.heap).init2 a fields := by
    intro f rest a fields running here
    have pending : a ∈ (c.thread label.actor).pending :=
      AccThread.mem_objectsIn (running ▸ List.mem_cons_self) (AccFrame.objectIn_at here rfl)
    cases taken : s.lock with
    | none => rw [ListProcess.ahead_free taken]
    | some v =>
      have holds := (rel.lock v).holder.mp taken
      cases point : s.point v with
      | locked part made =>
        rw [ListProcess.ahead_locked taken point]
        have meant := (rel.lock v).meant part (by rw [point]; rfl)
        rw [threads] at meant
        have other : label.actor ≠ v := by
          intro same
          rw [← same, idle.2] at point
          exact absurd point (by simp)
        exact (written_init2 (inv.spares meant other pending)).1
      | child p => exact absurd (settled v) (by simp [point, SectionPoint.inChild])
      | _ => exact absurd holds (by simp [point, SectionPoint.holds])
  have process' : s.process = ⟨s.ahead c.heap, c.thread⟩ := by
    rw [← heap, ← threads]
  rw [process', step_ahead (ListProcess.ahead_linksOnly s) (threads ▸ runs) fills] at stepped
  obtain ⟨⟨result, c'⟩, moved, same⟩ := Option.map_eq_some_iff.mp stepped
  obtain ⟨rfl, rfl⟩ := Prod.mk.inj same
  refine ⟨c', moved, .whole settled rfl rfl, ?_⟩
  exact ⟨_, inv.step (process_move moved)⟩

theorem AtomicRel.still (rel : AtomicRel s c) (lock : LockInv s') (idle : s.Idle t)
    (process : s'.process = s.process) (same : s'.lock = s.lock)
    (point : ∀ u, u ≠ t → s'.point u = s.point u) (out : (s'.point t).inChild = false) :
    AtomicRel s' c := by
  obtain ⟨settled, threads, heap⟩ := rel.idle idle
  refine ⟨lock, .whole (fun u => ?_) (process ▸ threads) ?_, rel.resources⟩
  · by_cases here : u = t
    · rw [here]
      exact out
    · rw [point u here]
      exact settled u
  · have ahead : s'.ahead = s.ahead := by
      refine ListProcess.ahead_congr same fun u taken => point u ?_
      rintro rfl
      exact (rel.lock u).unlocked idle.2 taken
    rw [process, ahead]
    exact heap

theorem AtomicRel.child_next {p : ChildPoint} (rel : AtomicRel s c)
    (lock : LockInv (s.childNext t p).2) (here : s.point t = .child p) :
    AtomicRel (s.childNext t p).2 c := by
  cases rel.agrees with
  | whole settled threads heap => exact absurd (settled t) (by simp [here, SectionPoint.inChild])
  | child u q there memory keyed caller others =>
    have same : t = u := by
      have born := ((rel.lock t).masked (by simp [here])).1
      exact (rel.lock u).alone (by rw [there]; rfl) t born
    subst same
    obtain rfl := SectionPoint.child.inj (here.symm.trans there)
    refine ⟨lock, ?_, rel.resources⟩
    have point : ∀ next, Function.update s.point t next t = next :=
      fun _ => Function.update_self ..
    cases p with
    | unlock =>
      exact .child t .setspecific (point _) memory (by simp [ChildPoint.unset]) caller others
    | setspecific =>
      refine .child t .first (point _) memory (fun _ => ?_) ?_ fun u other => ?_
      · simp [ListProcess.childNext]
      · simp [ListProcess.childNext, caller]
      · exact (AccProcess.put_other other).trans (others u other)
    | first => exact .child t (.walk _) (point _) memory keyed caller others
    | walk temp =>
      obtain ⟨objects, start, linked, leaves⟩ := memory
      cases objects with
      | nil =>
        obtain rfl : temp = none := start
        exact .child t .clearFlag (point _) leaves keyed caller others
      | cons tem rest =>
        obtain rfl : temp = some tem := start
        obtain ⟨next, linked⟩ := linked
        rw [Option.or_none] at next
        exact .child t (.walk _) (point _) ⟨rest, next, linked, leaves⟩ keyed caller others
    | clearFlag =>
      have free : s.lock = none := by
        cases taken : s.lock with
        | none => rfl
        | some v =>
          have holds := (rel.lock v).holder.mp taken
          have inside : s.point v ≠ .outside := by
            intro out
            simp [out, SectionPoint.holds] at holds
          obtain rfl := (rel.lock t).alone (by rw [here]; rfl) v ((rel.lock v).masked inside).1
          simp [here, SectionPoint.holds] at holds
      refine .whole (fun u => ?_) ?_ ?_
      · by_cases other : u = t
        · subst other
          simp [ListProcess.childNext, ListProcess.goTo, SectionPoint.inChild]
        · by_contra child
          have inside : s.point u ≠ .outside := by
            intro out
            simp [ListProcess.childNext, ListProcess.goTo, other, out,
              SectionPoint.inChild] at child
          exact other ((rel.lock t).alone (by rw [here]; rfl) u ((rel.lock u).masked inside).1)
      · funext u
        by_cases other : u = t
        · subst other
          rw [caller]
          have unset := keyed rfl
          simp [ListProcess.childNext, ← unset]
        · exact (AccProcess.put_other other).trans (others u other)
      · rw [ListProcess.ahead_free (show (s.childNext t .clearFlag).2.lock = none from free)]
        exact memory.symm

inductive NextMatched (env : Env) (pdma : Bool) (c : AccProcess Thread) (s' : ListProcess Thread)
    (op : ListOp) : Option (AccLabel Thread) → Prop
  | stutter (hidden : op = .op .other ∨ ∃ a calls, op = .childReleases a calls)
      (rel : AtomicRel s' c) : NextMatched env pdma c s' op none
  | step (label result c') (shown : op = .op result)
      (stepped : c.step env pdma label = some (result, c'))
      (rel : AtomicRel s' c') : NextMatched env pdma c s' op (some label)

theorem AtomicRel.next (rel : AtomicRel s c) (moved : NextMove env pdma s t op s') :
    NextMatched env pdma c s' op (wholeLabel s (.next t)) := by
  have lock := rel.lock.next moved
  have own : ∀ point, Function.update s.point t point t = point := fun _ => Function.update_self ..
  have apart : ∀ u point, u ≠ t → Function.update s.point t point u = s.point u :=
    fun u _ other => Function.update_of_ne other ..
  cases moved with
  | locks part here free =>
    obtain ⟨settled, threads, heap⟩ := rel.whole ((rel.lock t).masked (by simp [here])).1
      (by rw [here]; rfl)
    rw [ListProcess.ahead_free free] at heap
    rw [show wholeLabel s (.next t) = none by simp [wholeLabel, here]]
    refine .stutter (.inl rfl) ⟨lock, .whole (fun u => ?_) threads ?_, rel.resources⟩
    · by_cases other : u = t
      · rw [other]
        simp [ListProcess.goTo, SectionPoint.inChild]
      · exact (congrArg SectionPoint.inChild (apart u _ other)).trans (settled u)
    · rw [ListProcess.ahead_locked (t := t) rfl (own _)]
      exact heap
  | assigns part made statement here found =>
    obtain ⟨settled, threads, heap⟩ := rel.whole ((rel.lock t).masked (by simp [here])).1
      (by rw [here]; rfl)
    have taken : s.lock = some t := (rel.lock t).holder.mpr (by rw [here]; rfl)
    have more : made < part.statements.length := (List.getElem?_eq_some_iff.mp found).1
    rw [ListProcess.ahead_locked taken here] at heap
    rw [show wholeLabel s (.next t) = none by simp [wholeLabel, here, more]]
    refine .stutter (.inl rfl) ⟨lock, .whole (fun u => ?_) threads ?_, rel.resources⟩
    · by_cases other : u = t
      · rw [other]
        simp [ListProcess.goTo, SectionPoint.inChild]
      · exact (congrArg SectionPoint.inChild (apart u _ other)).trans (settled u)
    · have ahead : ListProcess.ahead
          { s.goTo t (.locked part (made + 1)) with
            process := { s.process with heap := statement s.process.heap } } =
          part.written (made + 1) := ListProcess.ahead_locked taken (own _)
      rw [ahead, written_succ found, ← heap]
  | unlocks part made result process here done left =>
    obtain ⟨settled, threads, heap⟩ := rel.whole ((rel.lock t).masked (by simp [here])).1
      (by rw [here]; rfl)
    have taken : s.lock = some t := (rel.lock t).holder.mpr (by rw [here]; rfl)
    have meant : part.Meant (s.process.thread t) := (rel.lock t).meant part (by rw [here]; rfl)
    have full : made = part.statements.length :=
      Nat.le_antisymm ((rel.lock t).made part made here) (List.getElem?_eq_none_iff.mp done)
    rw [ListProcess.ahead_locked taken here, full] at heap
    have settled' : ∀ u, ((s.goTo t .restore).point u).inChild = false := by
      intro u
      by_cases other : u = t
      · rw [other]
        simp [ListProcess.goTo, SectionPoint.inChild]
      · exact (congrArg SectionPoint.inChild (apart u _ other)).trans (settled u)
    have whole : wholeLabel s (.next t) = part.label t := by simp [wholeLabel, here, full]
    rw [whole]
    cases marked : part.label t with
    | none =>
      cases part with
      | fork =>
        simp only [ListProcess.leave, Option.some.injEq, Prod.mk.injEq] at left
        obtain ⟨rfl, rfl⟩ := left
        exact .stutter (.inl rfl) ⟨lock, .whole settled' threads heap, rel.resources⟩
      | insert a => exact absurd marked (by simp [ListSection.label])
      | unlink a => exact absurd marked (by simp [ListSection.label])
    | some label =>
      have stepped := leave_whole threads heap meant marked left
      obtain ⟨objects, inv⟩ := rel.resources
      exact .step label result process rfl stepped
        ⟨lock, .whole settled' rfl rfl, _, inv.step (process_move stepped)⟩
  | child p here =>
    rw [show wholeLabel s (.next t) = none by simp [wholeLabel, here]]
    refine .stutter ?_ (rel.child_next lock here)
    cases p with
    | walk temp =>
      cases temp with
      | none => exact .inl rfl
      | some tem => exact .inr ⟨_, _, rfl⟩
    | _ => exact .inl rfl
  | restores here =>
    obtain ⟨settled, threads, heap⟩ := rel.whole ((rel.lock t).masked (by simp [here])).1
      (by rw [here]; rfl)
    rw [show wholeLabel s (.next t) = none by simp [wholeLabel, here]]
    refine .stutter (.inl rfl) ⟨lock, .whole (fun u => ?_) threads ?_, rel.resources⟩
    · by_cases other : u = t
      · rw [other]
        simp [ListProcess.sigRestore, SectionPoint.inChild]
      · exact (congrArg SectionPoint.inChild (apart u _ other)).trans (settled u)
    · rw [show (s.sigRestore t).ahead = s.ahead from ListProcess.ahead_congr rfl ?_]
      · exact heap
      · intro u holder
        refine apart u _ ?_
        rintro rfl
        have holds := (rel.lock u).holder.mp holder
        simp [here, SectionPoint.holds] at holds

omit [DecidableEq Thread] in
theorem HeapInv.length_le {objects : List ObjectId} (inv : HeapInv objects h) :
    objects.length ≤ h.malloced := by
  have inside : objects ⊆ List.range h.malloced :=
    fun a member => List.mem_range.mpr (inv.bound a (inv.linked a member))
  have fits := (List.subperm_of_subset inv.listed.nodup inside).length_le
  rwa [List.length_range] at fits

theorem AtomicRel.fork {child : ListProcess Thread} (rel : AtomicRel s c)
    (forked : s.fork t = some ((), child)) (outside : ∀ a, (s.process.thread t).dst ≠ .unlink a) :
    ∃ released child', c.fork (wholeFork s t) = some (released, child') ∧
      AtomicRel child child' ∧ LeftToRelease child released := by
  have lock := rel.lock.fork forked
  simp only [ListProcess.fork, Option.ite_none_right_eq_some, Option.some.injEq,
    Prod.mk.injEq, true_and] at forked
  obtain ⟨here, rfl⟩ := forked
  obtain ⟨settled, threads, heap⟩ := rel.whole ((rel.lock t).masked (by simp [here])).1
    (by rw [here]; rfl)
  have taken : s.lock = some t := (rel.lock t).holder.mpr (by rw [here]; rfl)
  rw [ListProcess.ahead_locked taken here] at heap
  have heap : s.process.heap = c.heap := heap
  obtain ⟨objects, inv⟩ := rel.resources
  have enough : objects.length ≤ (wholeFork s t).fuel := by
    rw [wholeFork, heap]
    exact inv.heap.length_le
  have walks := inv.heap.listed.atforkChild (wholeFork s t).fuel
  rw [if_pos enough] at walks
  have forks : c.fork (wholeFork s t) = some (objects.map fun a => (a, c.heap.releaseCalls a true),
      { heap := { c.heap.afterRelease objects with listHeadNext := none }
        thread := Function.update (fun _ => .blank) t
          { c.thread t with key := none, veBuffUsingFlag := veBuffNotUsing } }) := by
    rw [AccProcess.fork, walks]
    rfl
  refine ⟨_, _, forks, ⟨lock, ?_, [], ?_⟩, fun u p inside => ?_, fun settled => ?_⟩
  · refine .child t .unlock (by simp) ?_ (by simp [ChildPoint.unset]) ?_ ?_
    · refine ⟨objects, ?_, ?_, ?_⟩
      · exact heap ▸ inv.heap.listed.start
      · exact heap ▸ inv.heap.listed.linked
      · simp only [heap]
    · simp [threads]
    · intro u other
      simp [other]
  · refine inv.fork (fun a => ?_) (inv.fork_eq forks).2
    rw [← threads]
    exact outside a
  · have point : Function.update (fun _ => SectionPoint.outside) t (.child .unlock) u = .child p :=
      inside
    by_cases other : u = t
    · rw [other, Function.update_self] at point
      obtain rfl := SectionPoint.child.inj point
      refine ⟨objects, ⟨?_, ?_⟩, by rw [heap]⟩
      · exact heap ▸ inv.heap.listed.start
      · exact heap ▸ inv.heap.listed.linked
    · rw [Function.update_of_ne other] at point
      exact absurd point (by simp)
  · have point : (Function.update (fun _ => SectionPoint.outside) t (.child .unlock) t).inChild =
        false := settled t
    rw [Function.update_self] at point
    exact absurd point (by simp [SectionPoint.inChild])

/-! ## The run -/

def DstPoint.unlinking : DstPoint → Bool
  | .unlink _ => true
  | _ => false

/-- The thread that forks is not inside `ve_accelerated_io_dstfunc` with its object still linked. -/
def ForksNotUnlinking : ListMember Thread → Prop
  | .fork parent t _ _ => (parent.process.thread t).dst.unlinking = false
  | .step _ _ _ _ => True

instance decidableForksNotUnlinking : (e : ListMember Thread) → Decidable (ForksNotUnlinking e)
  | .fork parent t _ _ =>
    inferInstanceAs (Decidable ((parent.process.thread t).dst.unlinking = false))
  | .step _ _ _ _ => isTrue trivial

theorem atomic_simulation (env : Env) (pdma : Bool) :
    Forking.MemberSimulation (listForking Thread env pdma) (accForking Thread env pdma) AtomicRel
      wholeLabel wholeFork listShown accShown ForksNotUnlinking where
  stutter s c label op s' rel stepped _ marked := by
    have moved := list_move rel.lock stepped
    have lock := rel.lock.move moved
    cases moved with
    | runs _ run result process idle runs ran is =>
      rcases is with rfl | ⟨u, signo, request, rfl, _⟩
      · exact absurd marked (by simp [wholeLabel])
      · exact absurd marked (by simp [wholeLabel])
    | blocks _ u part idle meant is =>
      refine ⟨rfl, rel.still lock idle rfl rfl (fun v other => ?_) ?_⟩
      · exact Function.update_of_ne other ..
      · simp [ListProcess.sigBlock, SectionPoint.inChild]
    | nexts t op' after moved =>
      have matched := rel.next moved
      rw [marked] at matched
      cases matched with
      | stutter hidden rel' =>
        refine ⟨?_, rel'⟩
        rcases hidden with rfl | ⟨a, calls, rfl⟩
        · rfl
        · rfl
    | masks u mask idle =>
      exact ⟨rfl, rel.still lock idle rfl rfl (fun _ _ => rfl) (by rw [idle.2]; rfl)⟩
    | creates v w idle new =>
      exact ⟨rfl, rel.still lock idle rfl rfl (fun _ _ => rfl) (by rw [idle.2]; rfl)⟩
  step s c label op s' label' rel stepped _ marked := by
    have moved := list_move rel.lock stepped
    have lock := rel.lock.move moved
    cases moved with
    | runs _ run result process idle runs ran is =>
      obtain ⟨c', moved', agrees, resources⟩ := rel.runs idle runs ran
      have same : run = label' := by
        rcases is with rfl | ⟨u, signo, request, rfl, rfl⟩
        · exact Option.some.inj marked
        · exact Option.some.inj marked
      subst same
      exact ⟨result, c', moved', rfl, lock, agrees, resources⟩
    | blocks _ u part idle meant is =>
      rcases is with rfl | ⟨signo, rfl⟩
      · exact absurd marked (by simp [wholeLabel])
      · exact absurd marked (by simp [wholeLabel])
    | nexts t op' after moved =>
      have matched := rel.next moved
      rw [marked] at matched
      cases matched with
      | step _ result c' shown stepped' rel' =>
        subst shown
        exact ⟨result, c', stepped', rfl, rel'⟩
    | masks u mask idle => exact absurd marked (by simp [wholeLabel])
    | creates v w idle new => exact absurd marked (by simp [wholeLabel])
  fork s c t out child rel forked outside := by
    have elsewhere : ∀ a, (s.process.thread t).dst ≠ .unlink a := by
      intro a leaving
      have outside : (s.process.thread t).dst.unlinking = false := outside
      simp [leaving, DstPoint.unlinking] at outside
    obtain ⟨released, child', forks, rel', _⟩ := rel.fork forked elsewhere
    exact ⟨released, child', forks, rfl, rel'⟩

/-- Nobody has the lock and no handler of a child is running. -/
structure ListProcess.AtRest (s : ListProcess Thread) : Prop where
  free : s.lock = none
  settled : ∀ t, (s.point t).inChild = false

section
variable {Process : Type} [DecidableEq Process]

abbrev wholeSteps (env : Env) (pdma : Bool) (p : Process) (node : ObjectId → ResourceNode)
    (trace : List (ListEntry Process Thread)) : List (AccEntry Process Thread) :=
  (accForking Thread env pdma).family.along (Forking.familyMark wholeLabel wholeFork)
    (Forking.alone p (.initial node)) trace

abbrev wholeState (env : Env) (pdma : Bool) (p : Process) (node : ObjectId → ResourceNode)
    (trace : List (ListEntry Process Thread)) : Process → Option (AccProcess Thread) :=
  (accForking Thread env pdma).family.stateAlong (Forking.familyMark wholeLabel wholeFork)
    (Forking.alone p (.initial node)) trace

theorem list_simulated {p : Process} {main : Thread} {mask : SigSet}
    {node : ObjectId → ResourceNode} {trace : List (ListEntry Process Thread)}
    {final : Process → Option (ListProcess Thread)}
    (run : ListRun env pdma p main mask node trace final)
    (outside : ∀ e ∈ trace, ForksNotUnlinking e.out) :
    (accForking Thread env pdma).family.Simulated (Forking.familyMark wholeLabel wholeFork)
      (Forking.EachRelated AtomicRel) (Forking.familyShown listShown)
      (Forking.familyShown accShown) (Forking.alone p (.initial node)) trace final := by
  have initially : AtomicRel (ListProcess.initial node main mask) (.initial node) :=
    ⟨lockInv_of_outside (fun _ => rfl) rfl, .whole (fun _ => rfl) rfl rfl,
      [], resourceInv_initial node⟩
  exact Forking.family_simulated (atomic_simulation env pdma) initially run outside

end

end Libsysve.AccIo
