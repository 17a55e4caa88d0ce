import Libsysve.AccIo.Basic
import Libsysve.Library.DoublyLinked

/-!
# The list of the I/O resources of a process

The objects of type `acc_io_resources` in the memory of a process, and the functions that
link them, unlink them and release them.  A pointer to an object is its number; a number is
not given twice, whatever addresses `malloc` returns.
-/

set_option autoImplicit false

namespace Libsysve.AccIo

abbrev ObjectId := Nat

/-- The address of `list_head` or of an object. -/
inductive Link where
  | listHead
  | object (a : ObjectId)
deriving DecidableEq

/-- An object; `fields` are the four addresses of its buffers. -/
structure ResourceNode where
  fields : AccIoResources
  next : Option ObjectId
  prev : Option Link

/-- The objects, of which `malloced` were allocated and the `live` ones were not freed,
`list_head.next`, and the VH buffers that are allocated. -/
structure ResourceHeap where
  node : ObjectId → ResourceNode
  live : ObjectId → Bool
  malloced : Nat
  listHeadNext : Option ObjectId
  vhBuff : Nat → Bool

/-- The system calls that give buffers back. -/
inductive SysveCall where
  | freeVhBuf (vhBuff : Nat)
  | unregisterDmaatb (localVehva vehva : Nat)
deriving DecidableEq

namespace ResourceHeap

variable (h : ResourceHeap)

def malloc : ResourceHeap :=
  { h with live := Function.update h.live h.malloced true, malloced := h.malloced + 1 }

def free (a : ObjectId) : ResourceHeap := { h with live := Function.update h.live a false }

/-- What a successful `VE_SYSVE_ACCELERATED_IO_INIT2` and the assignments after it store. -/
def init2 (a : ObjectId) (fields : AccIoResources) : ResourceHeap :=
  { h with
    node := Function.update h.node a { fields := fields, next := none, prev := none }
    vhBuff := Function.update h.vhBuff fields.vhBuff true }

def setNext (link : Link) (next : Option ObjectId) : ResourceHeap :=
  match link with
  | .listHead => { h with listHeadNext := next }
  | .object a => { h with node := Function.update h.node a { h.node a with next := next } }

def setPrev (a : ObjectId) (prev : Option Link) : ResourceHeap :=
  { h with node := Function.update h.node a { h.node a with prev := prev } }

/-- The locked section of `ve_accelerated_io_pre`. -/
def linkHead (a : ObjectId) : ResourceHeap :=
  let h := (h.setNext (.object a) h.listHeadNext).setPrev a (some .listHead)
  let h := match h.listHeadNext with
    | none => h
    | some b => h.setPrev b (some (.object a))
  h.setNext .listHead (some a)

/-- The locked section of `ve_accelerated_io_dstfunc`. -/
def unlink (a : ObjectId) : ResourceHeap :=
  let h := match (h.node a).prev with
    | none => h
    | some before => h.setNext before (h.node a).next
  match (h.node a).next with
  | none => h
  | some b => h.setPrev b (h.node a).prev

/-- The system calls of `ve_accelerated_io_release_resource`. -/
def releaseCalls (a : ObjectId) (isFork : Bool) : List SysveCall :=
  .freeVhBuf (h.node a).fields.vhBuff ::
    if isFork then []
    else [.unregisterDmaatb (h.node a).fields.localVehva (h.node a).fields.vehva]

/-- `ve_accelerated_io_release_resource` -/
def releaseResource (a : ObjectId) : ResourceHeap :=
  { h with vhBuff := Function.update h.vhBuff (h.node a).fields.vhBuff false }.free a

/-- The loop of `ve_accelerated_io_atfork_child` from the object `temp`, for at most `fuel`
objects: the objects that it releases, each with the system calls. -/
def releaseAll : Nat → Option ObjectId → ResourceHeap →
    Option (List (ObjectId × List SysveCall) × ResourceHeap)
  | _, none, h => some ([], h)
  | 0, some _, _ => none
  | fuel + 1, some tem, h => do
    let (released, h') ← releaseAll fuel (h.node tem).next (h.releaseResource tem)
    some ((tem, h.releaseCalls tem true) :: released, h')

/-- What `ve_accelerated_io_atfork_child` does to the memory. -/
def atforkChild (fuel : Nat) : Option (List (ObjectId × List SysveCall) × ResourceHeap) := do
  let (released, h') ← releaseAll fuel h.listHeadNext h
  some (released, { h' with listHeadNext := none })

/-! ### The links after an assignment -/

variable {h} {a b : ObjectId} {link : Link} {next : Option ObjectId} {prev : Option Link}

@[simp] theorem setNext_listHeadNext :
    (h.setNext link next).listHeadNext = if link = .listHead then next else h.listHeadNext := by
  cases link with
  | listHead => rfl
  | object a => rfl

@[simp] theorem setNext_next : ((h.setNext link next).node b).next =
    if link = .object b then next else (h.node b).next := by
  cases link with
  | listHead => rfl
  | object a =>
    by_cases same : b = a
    · subst same
      simp [setNext]
    · simp [setNext, Function.update_of_ne same, Ne.symm same]

@[simp] theorem setNext_prev : ((h.setNext link next).node b).prev = (h.node b).prev := by
  cases link with
  | listHead => rfl
  | object a =>
    by_cases same : b = a
    · subst same
      simp [setNext]
    · simp [setNext, Function.update_of_ne same]

@[simp] theorem setPrev_listHeadNext : (h.setPrev a prev).listHeadNext = h.listHeadNext := rfl

@[simp] theorem setPrev_next : ((h.setPrev a prev).node b).next = (h.node b).next := by
  by_cases same : b = a
  · subst same
    simp [setPrev]
  · simp [setPrev, Function.update_of_ne same]

@[simp] theorem setPrev_prev : ((h.setPrev a prev).node b).prev =
    if b = a then prev else (h.node b).prev := by
  by_cases same : b = a
  · subst same
    simp [setPrev]
  · simp [setPrev, same]

/-! ### What the list functions leave alone -/

/-- Only links differ. -/
structure SameBut (h h' : ResourceHeap) : Prop where
  fields : ∀ a, (h'.node a).fields = (h.node a).fields
  live : h'.live = h.live
  malloced : h'.malloced = h.malloced
  vhBuff : h'.vhBuff = h.vhBuff

theorem SameBut.trans {h₁ h₂ h₃ : ResourceHeap} (first : SameBut h₁ h₂)
    (second : SameBut h₂ h₃) : SameBut h₁ h₃ where
  fields a := (second.fields a).trans (first.fields a)
  live := second.live.trans first.live
  malloced := second.malloced.trans first.malloced
  vhBuff := second.vhBuff.trans first.vhBuff

theorem setNext_sameBut : SameBut h (h.setNext link next) := by
  cases link with
  | listHead => exact ⟨fun _ => rfl, rfl, rfl, rfl⟩
  | object a =>
    refine ⟨fun b => ?_, rfl, rfl, rfl⟩
    by_cases same : b = a
    · subst same
      simp [setNext]
    · simp [setNext, Function.update_of_ne same]

theorem setPrev_sameBut : SameBut h (h.setPrev a prev) := by
  refine ⟨fun b => ?_, rfl, rfl, rfl⟩
  by_cases same : b = a
  · subst same
    simp [setPrev]
  · simp [setPrev, Function.update_of_ne same]

theorem linkHead_sameBut : SameBut h (h.linkHead a) := by
  have written : SameBut h ((h.setNext (.object a) h.listHeadNext).setPrev a (some .listHead)) :=
    setNext_sameBut.trans setPrev_sameBut
  unfold linkHead
  refine SameBut.trans ?_ setNext_sameBut
  cases ((h.setNext (.object a) h.listHeadNext).setPrev a (some .listHead)).listHeadNext with
  | none => exact written
  | some b => exact written.trans setPrev_sameBut

theorem unlink_sameBut : SameBut h (h.unlink a) := by
  unfold unlink
  have forth : SameBut h (match (h.node a).prev with
      | none => h
      | some before => h.setNext before (h.node a).next) := by
    cases (h.node a).prev with
    | none => exact ⟨fun _ => rfl, rfl, rfl, rfl⟩
    | some before => exact setNext_sameBut
  revert forth
  generalize (match (h.node a).prev with
      | none => h
      | some before => h.setNext before (h.node a).next) = moved
  intro forth
  cases next : (moved.node a).next with
  | none => simpa [next] using forth
  | some b => simpa [next] using forth.trans setPrev_sameBut

/-! ### The links after a locked section -/

theorem linkHead_links : (h.linkHead a).listHeadNext = some a ∧
    ((h.linkHead a).node a).next = h.listHeadNext ∧
    (h.listHeadNext ≠ some a → ((h.linkHead a).node a).prev = some .listHead) := by
  cases first : h.listHeadNext with
  | none => simp [linkHead, first]
  | some b =>
    refine ⟨by simp [linkHead, first], by simp [linkHead, first], fun other => ?_⟩
    have apart : a ≠ b := fun same => other (congrArg some same.symm)
    simp [linkHead, first, apart]

theorem linkHead_other (other : b ≠ a) :
    ((h.linkHead a).node b).next = (h.node b).next ∧
      ((h.linkHead a).node b).prev =
        if h.listHeadNext = some b then some (.object a) else (h.node b).prev := by
  cases first : h.listHeadNext with
  | none => simp [linkHead, first, other, Ne.symm other]
  | some c =>
    by_cases here : c = b
    · subst here
      simp [linkHead, first, Ne.symm other]
    · simp [linkHead, first, other, Ne.symm other, here, Ne.symm here]

theorem unlink_links {before : Link} (back : (h.node a).prev = some before) :
    (h.unlink a).listHeadNext =
        (if before = .listHead then (h.node a).next else h.listHeadNext) ∧
      ∀ b, ((h.unlink a).node b).next =
          (if before = .object b then (h.node a).next else (h.node b).next) ∧
        ((h.unlink a).node b).prev =
          if (h.node a).next = some b then some before else (h.node b).prev := by
  cases next : (h.node a).next with
  | none => simp [unlink, back, next]
  | some c =>
    refine ⟨by simp [unlink, back, next], fun b => ?_⟩
    by_cases here : c = b
    · subst here
      simp [unlink, back, next]
    · simp [unlink, back, next, here, Ne.symm here]

end ResourceHeap

/-- The list consists of these objects, the last inserted first. -/
abbrev Listed (h : ResourceHeap) (objects : List ObjectId) : Prop :=
  LinkedList.DoublyLinked ResourceNode.next ResourceNode.prev Link.object Link.listHead h.node
    h.listHeadNext objects

theorem lastRef_object {pre : List ObjectId} {b : ObjectId} :
    LinkedList.lastRef Link.object .listHead pre = .object b ↔ pre.getLast? = some b := by
  cases last : pre.getLast? with
  | none => simp [LinkedList.lastRef, last]
  | some c => simp [LinkedList.lastRef, last]

theorem lastRef_listHead {pre : List ObjectId} :
    LinkedList.lastRef Link.object .listHead pre = .listHead ↔ pre = [] := by
  cases last : pre.getLast? with
  | none => simpa [LinkedList.lastRef, last] using List.getLast?_eq_none_iff.mp last
  | some c =>
    have some' : pre ≠ [] := by
      rintro rfl
      simp at last
    simp [LinkedList.lastRef, last, some']

variable {h : ResourceHeap} {objects : List ObjectId} {a : ObjectId}

theorem Listed.linkHead (listed : Listed h objects) (new : a ∉ objects) :
    Listed (h.linkHead a) (a :: objects) := by
  obtain ⟨start, forth, back⟩ := ResourceHeap.linkHead_links (h := h) (a := a)
  have other : h.listHeadNext ≠ some a := by
    rw [listed.start]
    exact fun first => new (List.mem_of_head? first)
  have apart : ∀ b ∈ objects, b ≠ a := fun b member same => new (same ▸ member)
  rw [show Listed (h.linkHead a) (a :: objects) ↔ LinkedList.DoublyLinked _ _ _ _
    (h.linkHead a).node (h.linkHead a).listHeadNext (a :: objects) from Iff.rfl, start]
  refine listed.push new forth (back other) ?_ ?_
  · exact fun b member => (ResourceHeap.linkHead_other (apart b member)).1
  · intro b member
    rw [← listed.start]
    exact (ResourceHeap.linkHead_other (apart b member)).2

theorem Listed.unlink (listed : Listed h objects) (member : a ∈ objects) :
    Listed (h.unlink a) (objects.erase a) := by
  obtain ⟨pre, post, rfl⟩ := List.append_of_mem member
  have out := listed.notMem
  have erased : (pre ++ a :: post).erase a = pre ++ post := by
    rw [List.erase_append_right _ fun inside => out (List.mem_append_left post inside),
      List.erase_cons_head]
  have back := listed.prev_eq
  have forth := listed.next_eq
  obtain ⟨start, links⟩ := ResourceHeap.unlink_links back
  rw [forth] at start links
  rw [erased]
  refine listed.remove _ ?_ ?_ ?_
  · rw [start]
    cases pre with
    | nil => exact if_pos (lastRef_listHead.mpr rfl)
    | cons b pre =>
      rw [if_neg (fun none => absurd (lastRef_listHead.mp none) (by simp)), listed.start]
      rfl
  · intro b _
    rw [(links b).1]
    exact if_congr lastRef_object rfl rfl
  · intro b _
    rw [(links b).2, back]

theorem Listed.congr {h' : ResourceHeap} (listed : Listed h objects)
    (same : ∀ b ∈ objects, h'.node b = h.node b) (start : h'.listHeadNext = h.listHeadNext) :
    Listed h' objects := by
  have moved : Listed { h with node := h'.node } objects :=
    LinkedList.DoublyLinked.congr listed fun b member => by
      rw [same b member]
      exact ⟨rfl, rfl⟩
  exact { moved with start := start.trans listed.start }

/-! ### The handler of the child -/

def ResourceHeap.afterRelease (h : ResourceHeap) (objects : List ObjectId) : ResourceHeap :=
  objects.foldl ResourceHeap.releaseResource h

theorem afterRelease_malloced : (h.afterRelease objects).malloced = h.malloced := by
  induction objects generalizing h with
  | nil => rfl
  | cons a objects ih => exact ih (h := h.releaseResource a)

theorem afterRelease_live : (h.afterRelease objects).live a = true ↔
    h.live a = true ∧ a ∉ objects := by
  induction objects generalizing h with
  | nil => simp [ResourceHeap.afterRelease]
  | cons b objects ih =>
    have first : (h.releaseResource b).live a = true ↔ h.live a = true ∧ a ≠ b := by
      by_cases same : a = b
      · simp [same, ResourceHeap.releaseResource, ResourceHeap.free]
      · simp [same, ResourceHeap.releaseResource, ResourceHeap.free]
    have rest := ih (h := h.releaseResource b)
    rw [first, and_assoc] at rest
    rw [List.mem_cons, not_or]
    exact rest

theorem afterRelease_vhBuff {v : Nat} : (h.afterRelease objects).vhBuff v = true ↔
    h.vhBuff v = true ∧ ∀ b ∈ objects, (h.node b).fields.vhBuff ≠ v := by
  induction objects generalizing h with
  | nil => simp [ResourceHeap.afterRelease]
  | cons b objects ih =>
    have first : (h.releaseResource b).vhBuff v = true ↔
        h.vhBuff v = true ∧ (h.node b).fields.vhBuff ≠ v := by
      by_cases same : v = (h.node b).fields.vhBuff
      · simp [same, ResourceHeap.releaseResource, ResourceHeap.free]
      · simp [ResourceHeap.releaseResource, ResourceHeap.free, Function.update_of_ne same,
          Ne.symm same]
    have rest := ih (h := h.releaseResource b)
    rw [first, and_assoc] at rest
    rw [List.forall_mem_cons]
    exact rest

/-- On a list that ends, the loop releases its objects in order and ends as soon as it may
visit them all. -/
theorem releaseAll_eq (fuel : Nat)
    (linked : LinkedList.Linked ResourceNode.next h.node objects none) :
    ResourceHeap.releaseAll fuel objects.head? h =
      if objects.length ≤ fuel then
        some (objects.map fun a => (a, h.releaseCalls a true), h.afterRelease objects)
      else none := by
  induction objects generalizing h fuel with
  | nil =>
    rw [if_pos (show ([] : List ObjectId).length ≤ fuel from Nat.zero_le fuel)]
    cases fuel <;> rfl
  | cons a objects ih =>
    obtain ⟨next, rest⟩ := linked
    rw [Option.or_none] at next
    cases fuel with
    | zero => rw [if_neg (by simp)]; rfl
    | succ fuel =>
      have after := ih fuel (h := h.releaseResource a) rest
      simp only [List.head?_cons, ResourceHeap.releaseAll, next, after, List.length_cons,
        Nat.add_le_add_iff_right]
      by_cases enough : objects.length ≤ fuel
      · simp only [if_pos enough]
        rfl
      · simp only [if_neg enough]
        rfl

theorem Listed.atforkChild (listed : Listed h objects) (fuel : Nat) :
    h.atforkChild fuel =
      if objects.length ≤ fuel then
        some (objects.map fun a => (a, h.releaseCalls a true),
          { h.afterRelease objects with listHeadNext := none })
      else none := by
  rw [ResourceHeap.atforkChild, listed.start, releaseAll_eq fuel listed.linked]
  by_cases enough : objects.length ≤ fuel
  · simp only [if_pos enough]
    rfl
  · simp only [if_neg enough]
    rfl

end Libsysve.AccIo
