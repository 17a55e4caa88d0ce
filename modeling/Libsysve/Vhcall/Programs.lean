import Mathlib.Data.List.Pairwise
import Libsysve.Vhcall.Cells
import Libsysve.Vhcall.Inserted

/-!
# Programs with many argument objects

A program makes objects, sets and clears their arguments, invokes functions with them and frees
them, in any order.  As long as it uses no object after it was freed, every object is the map
that its own setters have made, whatever is done with the other ones, and every cell that
calloc gave is in the list of one object or was freed once.
-/

set_option autoImplicit false

namespace Libsysve.Vhcall

open scoped List

/-- A call of the API; `ca` may be NULL. -/
inductive ApiCall where
  | alloc
  | allocNum (num : BitVec 32)
  | args (ca : Option Nat) (op : ArgsOp)
  | free (ca : Option Nat)
  | invoke (ca : Option Nat) (symid : Int) (retval : Nat) (uninit : VhcallData)

/-- `pointer` is what the two allocations return, `frees` what is passed to free. -/
structure ApiReturn where
  ret : Int
  pointer : Option Nat
  errno : Option Int
  issued : Option InvokeCall
  frees : List Nat
  heap : Heap

def allocReturn (done : Option Nat × Heap) : ApiReturn where
  ret := 0
  pointer := done.1
  errno := if done.1 = none then some enomem else none
  issued := none
  frees := []
  heap := done.2

def ArgsOp.frees (s : Heap) (ca : Option Nat) : ArgsOp → List Nat
  | .set _ => []
  | .clear => vhcallArgsClearFrees s ca

section
variable (H : VhcallH) (sys : InvokeCall → Int)

def ApiCall.run (s : Heap) : ApiCall → Option ApiReturn
  | .alloc => some (allocReturn (vhcallArgsAlloc s))
  | .allocNum num => some (allocReturn (vhcallArgsAllocNum s num.toInt))
  | .args ca op => do
    let r ← op.run H s ca
    return { ret := r.ret, pointer := none, errno := r.errno, issued := none,
             frees := op.frees s ca, heap := r.heap }
  | .free ca => do
    let heap ← vhcallArgsFree s ca
    return { ret := 0, pointer := none, errno := none, issued := none,
             frees := vhcallArgsFreeFrees s ca, heap := heap }
  | .invoke ca symid retval uninit => do
    let r ← vhcallInvokeWithArgs H sys uninit s symid ca retval
    return { ret := r.ret, pointer := none, errno := r.errno, issued := r.issued,
             frees := r.frees, heap := r.heap }

def runProgram : Heap → List ApiCall → Option (List (ApiCall × ApiReturn) × Heap)
  | s, [] => some ([], s)
  | s, call :: rest => do
    let r ← call.run H sys s
    let (trace, s') ← runProgram r.heap rest
    return ((call, r) :: trace, s')

end

/-! ## What the objects are -/

/-- The objects that a program has, by their addresses: the number of arguments that was given
and what was set. -/
abbrev Objects := Nat → Option (Int × ArgMap)

def Objects.empty : Objects := fun _ => none

def Objects.add (O : Objects) (argsNum : Int) : Option Nat → Objects
  | none => O
  | some p => Function.update O p (some (argsNum, .empty))

/-- What an invoke inserts is no argument that was set. -/
def Objects.step (H : VhcallH) (O : Objects) : ApiCall × ApiReturn → Objects
  | (.alloc, r) => O.add (-1) r.pointer
  | (.allocNum num, r) => O.add (if num.toInt < 0 then -1 else num.toInt) r.pointer
  | (.args (some p) op, r) =>
    Function.update O p ((O p).map fun x => (x.1, x.2.step H (op, r.ret)))
  | (.free (some p), _) => Function.update O p none
  | (.args none _, _) | (.free none, _) | (.invoke .., _) => O

def Objects.after (H : VhcallH) (trace : List (ApiCall × ApiReturn)) : Objects :=
  trace.foldl (Objects.step H) .empty

def ApiCall.object : ApiCall → Option Nat
  | .alloc | .allocNum _ => none
  | .args ca _ | .free ca | .invoke ca .. => ca

/-- The call is with NULL or with an object that was not freed. -/
def ApiCall.OnLive (O : Objects) (call : ApiCall) : Prop :=
  ∀ p, call.object = some p → O p ≠ none

instance (O : Objects) (call : ApiCall) : Decidable (call.OnLive O) :=
  decidable_of_iff (call.object.all (fun p => (O p).isSome) = true) (by
    cases about : call.object with
    | none => simp [ApiCall.OnLive, about]
    | some p => simp [ApiCall.OnLive, about, Option.isSome_iff_ne_none])

def UsesLive (H : VhcallH) : Objects → List (ApiCall × ApiReturn) → Prop
  | _, [] => True
  | O, (call, r) :: rest => call.OnLive O ∧ UsesLive H (O.step H (call, r)) rest

instance decideUsesLive (H : VhcallH) :
    (O : Objects) → (trace : List (ApiCall × ApiReturn)) → Decidable (UsesLive H O trace)
  | _, [] => .isTrue trivial
  | O, (call, r) :: rest =>
    have := decideUsesLive H (O.step H (call, r)) rest
    inferInstanceAs (Decidable (call.OnLive O ∧ UsesLive H (O.step H (call, r)) rest))

/-! ## How the calls end -/

inductive InvokeEnds (H : VhcallH) (sys : InvokeCall → Int) (lacks : Prop) (symid : Int)
    (retval : Nat) (argsNum : Int) (M : ArgMap) (r : ApiReturn) : Prop
  | issued (m : Nat) (recs : List VhcallData) (call : InvokeCall) (ok : ¬Misses argsNum M)
      (size : CallSize argsNum M m) (sent : SentAs H (payload H M m) recs)
      (sends : call = ({ symid := symid, inptr := 0, insize := recs.length * H.sizeofData,
                         buffer := recs.flatMap H.encode, retval := retval } : InvokeCall))
      (issued : r.issued = some call) (ret : r.ret = sys call)
  | refused (misses : Misses argsNum M) (issued : r.issued = none) (ret : r.ret = -1)
      (errno : r.errno = some einval)
  | noMemory (lacks : lacks) (issued : r.issued = none) (ret : r.ret = -1)
      (errno : r.errno = some enomem)

/-- How a setter ends; the other calls on an object cannot fail. -/
inductive SetEnds (H : VhcallH) (lacks : Prop) (c : SetCall) (r : ApiReturn) : Prop
  | stored (accepted : c.accepted H) (ret : r.ret = 0)
  | rejected (rejected : ¬c.accepted H) (ret : r.ret = -1) (errno : r.errno = some einval)
  | noMemory (accepted : c.accepted H) (lacks : lacks) (ret : r.ret = -1)
      (errno : r.errno = some enomem)

/-- How a call ends; `lacks` says that the last allocation that it makes fails. -/
def Ends (H : VhcallH) (sys : InvokeCall → Int) (lacks : Prop) (O : Objects) :
    ApiCall → ApiReturn → Prop
  | .alloc, r | .allocNum _, r =>
    (∃ p, r.pointer = some p ∧ O p = none) ∨ (r.pointer = none ∧ r.errno = some enomem ∧ lacks)
  | .args none (.set _), r | .invoke none .., r => r.ret = -1 ∧ r.errno = some einval ∧ r.frees = []
  | .args none .clear, r | .free none, r => r.frees = []
  | .args (some _) (.set c), r => SetEnds H lacks c r
  | .args (some _) .clear, _ | .free (some _), _ => True
  | .invoke (some p) symid retval _, r =>
    ∃ argsNum M, O p = some (argsNum, M) ∧ InvokeEnds H sys lacks symid retval argsNum M r

/-! ## The store -/

/-- `live` are the objects that were not freed, `cells` their lists. -/
structure Store (H : VhcallH) (start : Nat) (s : Heap) (O : Objects) (live : List Nat)
    (cells : Nat → List Nat) (frees : List Nat) : Prop where
  first : start ≤ s.fresh
  nodup : live.Nodup
  mem : ∀ p, p ∈ live ↔ O p ≠ none
  object : ∀ p n M, O p = some (n, M) → Object s p n (cells p)
  represents : ∀ p n M, O p = some (n, M) → ∃ M', Represents s p n M' ∧ Fillers H n M M'
  kind : ∀ p n M, O p = some (n, M) → n = -1 ∨ ∃ k : Nat, n = k ∧ k < 2 ^ 31
  ledger : frees ++ live.flatMap cells ~ s.granted start

variable {H : VhcallH} {sys : InvokeCall → Int} {start : Nat} {s s' : Heap} {O : Objects}
  {live : List Nat} {cells : Nat → List Nat} {frees freed nodes nodes' : List Nat} {p : Nat}
  {argsNum : Int} {M : ArgMap}

theorem Represents.kept (rep : Represents s p argsNum M) (object : Object s p argsNum nodes)
    (fresh : s.fresh ≤ s'.fresh) (same : ∀ a ∈ nodes, s'.node a = s.node a) :
    Represents s' p argsNum M := by
  obtain ⟨nodes', object', map⟩ := rep
  obtain rfl := object.unique object'
  refine ⟨nodes, object.kept fresh same, fun i => ?_⟩
  rw [← map i]
  refine congrArg (List.lookup (i : Int)) (entries_congr (fun a member => ?_))
  rw [same a member]
  exact ⟨rfl, rfl⟩

theorem Moves.ledger {rest : List Nat} (moves : Moves s nodes s' nodes' freed)
    (first : start ≤ s.fresh) (ledger : frees ++ (nodes ++ rest) ~ s.granted start) :
    (frees ++ freed) ++ (nodes' ++ rest) ~ s'.granted start := by
  rw [Heap.granted_append first moves.fresh moves.grants]
  refine List.Perm.symm ?_
  calc s.granted start ++ s'.granted s.fresh
    _ ~ (frees ++ (nodes ++ rest)) ++ s'.granted s.fresh := ledger.symm.append_right _
    _ = frees ++ (nodes ++ (rest ++ s'.granted s.fresh)) := by simp only [List.append_assoc]
    _ ~ frees ++ (nodes ++ (s'.granted s.fresh ++ rest)) :=
      (List.perm_append_comm.append_left nodes).append_left frees
    _ = frees ++ ((nodes ++ s'.granted s.fresh) ++ rest) := by simp only [List.append_assoc]
    _ ~ frees ++ ((nodes' ++ freed) ++ rest) := (moves.account.append_right rest).append_left frees
    _ ~ frees ++ ((freed ++ nodes') ++ rest) :=
      (List.perm_append_comm.append_right rest).append_left frees
    _ = (frees ++ freed) ++ (nodes' ++ rest) := by simp only [List.append_assoc]

theorem Store.apart {q : Nat} (store : Store H start s O live cells frees) (here : p ∈ live)
    (there : q ∈ live) (other : q ≠ p) : ∀ a ∈ cells q, a ∉ cells p := by
  have nodup := store.ledger.nodup_iff.mpr Heap.granted_nodup
  have disjoint := (List.nodup_flatMap.mp (List.nodup_append.mp nodup).2.1).2
  have symmetric : Std.Symm (Function.onFun List.Disjoint cells) := ⟨fun _ _ d => d.symm⟩
  exact fun a inside outside => disjoint.forall there here other inside outside

theorem flatMap_update (nodup : live.Nodup) (here : p ∈ live) (own : List Nat) :
    live.flatMap (Function.update cells p own) ~ own ++ (live.erase p).flatMap cells := by
  have others : (live.erase p).flatMap (Function.update cells p own) =
      (live.erase p).flatMap cells := by
    refine List.flatMap_congr (fun q member => ?_)
    exact Function.update_of_ne (nodup.mem_erase_iff.mp member).1 ..
  calc live.flatMap (Function.update cells p own)
    _ ~ (p :: live.erase p).flatMap (Function.update cells p own) :=
      (List.perm_cons_erase here).flatMap_right _
    _ = own ++ (live.erase p).flatMap cells := by
      rw [List.flatMap_cons, Function.update_self, others]

theorem flatMap_split (nodup : live.Nodup) (here : p ∈ live) :
    live.flatMap cells ~ cells p ++ (live.erase p).flatMap cells := by
  have split : live.flatMap (Function.update cells p (cells p)) ~
      cells p ++ (live.erase p).flatMap cells := flatMap_update nodup here (cells p)
  rwa [Function.update_eq_self] at split

theorem Store.spared {q : Nat} {n : Int} (store : Store H start s O live cells frees)
    (moves : Moves s nodes s' nodes' freed) (apart : ∀ a ∈ cells q, a ∉ nodes)
    (there : O q = some (n, M)) :
    Object s' q n (cells q) ∧ ∃ M', Represents s' q n M' ∧ Fillers H n M M' := by
  have object := store.object q n M there
  obtain ⟨M', rep, fillers⟩ := store.represents q n M there
  have same : ∀ a ∈ cells q, s'.node a = s.node a :=
    fun a member => moves.others a (object.chain.below a member) (apart a member)
  exact ⟨object.kept moves.fresh same, M', rep.kept object moves.fresh same, fillers⟩

/-! ## What the calls do to the store -/

theorem Store.idle (store : Store H start s O live cells frees) (moves : Moves s [] s' [] freed) :
    Store H start s' O live cells (frees ++ freed) where
  first := store.first.trans moves.fresh
  nodup := store.nodup
  mem := store.mem
  object q n M there := (store.spared moves (by simp) there).1
  represents q n M there := (store.spared moves (by simp) there).2
  kind := store.kind
  ledger := by
    have ledger : frees ++ ([] ++ live.flatMap cells) ~ s.granted start := store.ledger
    exact moves.ledger store.first ledger

theorem Store.add (store : Store H start s O live cells frees) (moves : Moves s [] s' [p] freed)
    (new : O p = none) (object : Object s' p argsNum [p])
    (rep : Represents s' p argsNum .empty)
    (kind : argsNum = -1 ∨ ∃ k : Nat, argsNum = k ∧ k < 2 ^ 31) :
    Store H start s' (O.add argsNum (some p)) (p :: live) (Function.update cells p [p])
      (frees ++ freed) := by
  have notLive : p ∉ live := fun member => (store.mem p).mp member new
  have here : O.add argsNum (some p) p = some (argsNum, .empty) := Function.update_self ..
  have there : ∀ q, q ≠ p → O.add argsNum (some p) q = O q :=
    fun q other => Function.update_of_ne other ..
  constructor
  case first => exact store.first.trans moves.fresh
  case nodup => exact List.nodup_cons.mpr ⟨notLive, store.nodup⟩
  case mem =>
    intro q
    by_cases same : q = p
    · rw [same, here]
      simp
    · rw [there q same, ← store.mem q]
      simp [same]
  case object =>
    intro q n M present
    by_cases same : q = p
    · subst same
      obtain ⟨rfl, rfl⟩ := Prod.mk.inj (Option.some.inj (here.symm.trans present))
      rw [Function.update_self]
      exact object
    · rw [there q same] at present
      rw [Function.update_of_ne same]
      exact (store.spared moves (by simp) present).1
  case represents =>
    intro q n M present
    by_cases same : q = p
    · subst same
      obtain ⟨rfl, rfl⟩ := Prod.mk.inj (Option.some.inj (here.symm.trans present))
      exact ⟨_, rep, .refl⟩
    · rw [there q same] at present
      exact (store.spared moves (by simp) present).2
  case kind =>
    intro q n M present
    by_cases same : q = p
    · subst same
      obtain ⟨rfl, rfl⟩ := Prod.mk.inj (Option.some.inj (here.symm.trans present))
      exact kind
    · rw [there q same] at present
      exact store.kind q n M present
  case ledger =>
    have others : live.flatMap (Function.update cells p [p]) = live.flatMap cells := by
      refine List.flatMap_congr (fun q member => ?_)
      have other : q ≠ p := fun same => notLive (same ▸ member)
      exact Function.update_of_ne other ..
    have ledger : frees ++ ([] ++ live.flatMap cells) ~ s.granted start := store.ledger
    rw [List.flatMap_cons, Function.update_self, others]
    exact moves.ledger store.first ledger

theorem Store.change {M M' M'' : ArgMap} (store : Store H start s O live cells frees)
    (here : O p = some (argsNum, M)) (moves : Moves s (cells p) s' nodes' freed)
    (object : Object s' p argsNum nodes') (rep : Represents s' p argsNum M'')
    (fillers : Fillers H argsNum M' M'') :
    Store H start s' (Function.update O p (some (argsNum, M'))) live
      (Function.update cells p nodes') (frees ++ freed) := by
  have member : p ∈ live := (store.mem p).mpr (by simp [here])
  have apart : ∀ q n M, q ≠ p → O q = some (n, M) → ∀ a ∈ cells q, a ∉ cells p := by
    intro q n M other there
    exact store.apart member ((store.mem q).mpr (by simp [there])) other
  constructor
  case first => exact store.first.trans moves.fresh
  case nodup => exact store.nodup
  case mem =>
    intro q
    by_cases same : q = p
    · rw [same, Function.update_self]
      simp [member]
    · rw [Function.update_of_ne same]
      exact store.mem q
  case object =>
    intro q n M₁ present
    by_cases same : q = p
    · subst same
      rw [Function.update_self] at present
      obtain ⟨rfl, rfl⟩ := Prod.mk.inj (Option.some.inj present)
      rw [Function.update_self]
      exact object
    · rw [Function.update_of_ne same] at present
      rw [Function.update_of_ne same]
      exact (store.spared moves (apart q n M₁ same present) present).1
  case represents =>
    intro q n M₁ present
    by_cases same : q = p
    · subst same
      rw [Function.update_self] at present
      obtain ⟨rfl, rfl⟩ := Prod.mk.inj (Option.some.inj present)
      exact ⟨M'', rep, fillers⟩
    · rw [Function.update_of_ne same] at present
      exact (store.spared moves (apart q n M₁ same present) present).2
  case kind =>
    intro q n M₁ present
    by_cases same : q = p
    · subst same
      rw [Function.update_self] at present
      obtain ⟨rfl, rfl⟩ := Prod.mk.inj (Option.some.inj present)
      exact store.kind q _ M here
    · rw [Function.update_of_ne same] at present
      exact store.kind q n M₁ present
  case ledger =>
    have ledger : frees ++ (cells p ++ (live.erase p).flatMap cells) ~ s.granted start :=
      ((flatMap_split store.nodup member).append_left frees).symm.trans store.ledger
    exact ((flatMap_update store.nodup member nodes').append_left _).trans
      (moves.ledger store.first ledger)

theorem Store.remove (store : Store H start s O live cells frees)
    (here : O p = some (argsNum, M)) (moves : Moves s (cells p) s' [] freed) :
    Store H start s' (Function.update O p none) (live.erase p) cells (frees ++ freed) := by
  have member : p ∈ live := (store.mem p).mpr (by simp [here])
  have present : ∀ q x, Function.update O p none q = some x → q ≠ p ∧ O q = some x := by
    intro q x there
    by_cases same : q = p
    · rw [same, Function.update_self] at there
      exact absurd there (by simp)
    · exact ⟨same, (Function.update_of_ne same ..).symm.trans there⟩
  have apart : ∀ q x, q ≠ p → O q = some x → ∀ a ∈ cells q, a ∉ cells p := by
    intro q x other there
    exact store.apart member ((store.mem q).mpr (by simp [there])) other
  constructor
  case first => exact store.first.trans moves.fresh
  case nodup => exact store.nodup.erase p
  case mem =>
    intro q
    rw [store.nodup.mem_erase_iff, store.mem]
    by_cases same : q = p
    · simp [same]
    · simp [same]
  case object =>
    intro q n M₁ there
    obtain ⟨other, there⟩ := present q _ there
    exact (store.spared moves (apart q _ other there) there).1
  case represents =>
    intro q n M₁ there
    obtain ⟨other, there⟩ := present q _ there
    exact (store.spared moves (apart q _ other there) there).2
  case kind => exact fun q n M₁ there => store.kind q n M₁ (present q _ there).2
  case ledger =>
    have ledger : frees ++ (cells p ++ (live.erase p).flatMap cells) ~ s.granted start :=
      ((flatMap_split store.nodup member).append_left frees).symm.trans store.ledger
    exact moves.ledger store.first ledger

/-! ## One call -/

def Store.Done (H : VhcallH) (sys : InvokeCall → Int) (start : Nat) (s : Heap) (O : Objects)
    (frees : List Nat) (call : ApiCall) : Prop :=
  ∃ r live cells, call.run H sys s = some r ∧ Ends H sys (s.LastFails r.heap) O call r ∧
    Store H start r.heap (O.step H (call, r)) live cells (frees ++ r.frees) ∧
    r.heap.grants = s.grants

theorem Store.new (store : Store H start s O live cells frees) : O s.fresh = none := by
  cases here : O s.fresh with
  | none => rfl
  | some x =>
    have object := store.object _ _ _ here
    exact absurd (object.chain.below _ (List.mem_of_mem_head? object.first)) (Nat.lt_irrefl _)

theorem Store.allocNum (store : Store H start s O live cells frees) {num : Int}
    (small : num < 2 ^ 31) :
    ((vhcallArgsAllocNum s num).1 = none ∧ s.LastFails (vhcallArgsAllocNum s num).2 ∨
      ∃ p, (vhcallArgsAllocNum s num).1 = some p ∧ O p = none) ∧
    (∃ live cells, Store H start (vhcallArgsAllocNum s num).2
      (O.add (if num < 0 then -1 else num) (vhcallArgsAllocNum s num).1) live cells frees) ∧
    (vhcallArgsAllocNum s num).2.grants = s.grants := by
  rcases vhcallArgsAllocNum_moves s num with ⟨refused, called⟩ | ⟨s', called, last, moves⟩
  · rw [called]
    have same := store.idle (.tried refused)
    rw [List.append_nil] at same
    exact ⟨.inl ⟨rfl, Heap.tried_lastFails refused⟩, ⟨live, cells, same⟩, rfl⟩
  · obtain ⟨rep, grants⟩ := vhcallArgsAllocNum_represents called
    have kind : (if num < 0 then -1 else num) = -1 ∨
        ∃ k : Nat, (if num < 0 then -1 else num) = k ∧ k < 2 ^ 31 := by
      by_cases negative : num < 0
      · exact .inl (if_pos negative)
      · exact .inr ⟨num.toNat, by rw [if_neg negative]; omega, by omega⟩
    have added := store.add moves store.new (rep.alone last) rep kind
    rw [List.append_nil] at added
    rw [called]
    exact ⟨.inr ⟨s.fresh, rfl, store.new⟩, ⟨_, _, added⟩, grants⟩

theorem Store.allocated (store : Store H start s O live cells frees) {num : Int} {call : ApiCall}
    (small : num < 2 ^ 31)
    (run : call.run H sys s = some (allocReturn (vhcallArgsAllocNum s num)))
    (step : ∀ r, O.step H (call, r) = O.add (if num < 0 then -1 else num) r.pointer)
    (ends : ∀ lacks r, Ends H sys lacks O call r ↔
      (∃ p, r.pointer = some p ∧ O p = none) ∨
        (r.pointer = none ∧ r.errno = some enomem ∧ lacks)) :
    Store.Done H sys start s O frees call := by
  obtain ⟨either, ⟨live', cells', store'⟩, grants⟩ := store.allocNum small
  refine ⟨_, live', cells', run, (ends _ _).mpr ?_, ?_, grants⟩
  · rcases either with ⟨null, lacks⟩ | ⟨p, pointer, new⟩
    · exact .inr ⟨null, if_pos null, lacks⟩
    · exact .inl ⟨p, pointer, new⟩
  · rw [step]
    simpa only [allocReturn, List.append_nil] using store'

theorem Store.null (store : Store H start s O live cells frees) {call : ApiCall} {r : ApiReturn}
    (run : call.run H sys s = some r) (ends : ∀ lacks, Ends H sys lacks O call r)
    (step : O.step H (call, r) = O) (heap : r.heap = s) (none : r.frees = []) :
    Store.Done H sys start s O frees call := by
  refine ⟨r, live, cells, run, ends _, ?_, by rw [heap]⟩
  rw [step, heap, none, List.append_nil]
  exact store

theorem Store.set (store : Store H start s O live cells frees) (here : O p = some (argsNum, M))
    (c : SetCall) : Store.Done H sys start s O frees (.args (some p) (.set c)) := by
  obtain ⟨M', rep, fillers⟩ := store.represents p argsNum M here
  obtain ⟨r, ran, outcome⟩ := rep.op (H := H) (.set c)
  obtain ⟨nodes', object', moves⟩ := (store.object p argsNum M here).set_moves ran
  obtain ⟨r', ran', grants, ends⟩ := rep.set (H := H) c
  obtain rfl := Option.some.inj (ran.symm.trans ran')
  refine ⟨{ ret := r.ret, pointer := none, errno := r.errno, issued := none, frees := [],
            heap := r.heap }, live, Function.update cells p nodes', ?_, ?_, ?_, grants⟩
  · simp only [ApiCall.run, ran, Option.bind_eq_bind, Option.bind_some]
    rfl
  · cases ends with
    | stored accepted ret errno _ => exact .stored accepted ret
    | rejected rejected ret errno _ => exact .rejected rejected ret errno
    | noMemory accepted ret errno refused same =>
      exact .noMemory accepted (by rw [same]; exact Heap.tried_lastFails refused) ret errno
  · have changed := store.change here moves object' outcome.rep (fillers.step (.set c) r.ret)
    simpa only [Objects.step, here, Option.map_some] using changed

theorem Store.clear (store : Store H start s O live cells frees)
    (here : O p = some (argsNum, M)) :
    Store.Done H sys start s O frees (.args (some p) .clear) := by
  obtain ⟨M', rep, fillers⟩ := store.represents p argsNum M here
  obtain ⟨r, ran, outcome⟩ := rep.op (H := H) .clear
  obtain ⟨s', cleared, object', moves⟩ := (store.object p argsNum M here).clear_moves
  have result : r = { ret := 0, errno := none, heap := s' } := by
    simp only [ArgsOp.run, cleared, Option.bind_eq_bind, Option.bind_some] at ran
    exact (Option.some.inj ran).symm
  subst result
  refine ⟨_, live, Function.update cells p [p], by rw [ApiCall.run, ran]; rfl, trivial, ?_,
    outcome.grants⟩
  have changed := store.change here moves object' outcome.rep (fillers.step .clear 0)
  simpa only [Objects.step, ArgsOp.frees, here, Option.map_some] using changed

theorem Store.free (store : Store H start s O live cells frees)
    (here : O p = some (argsNum, M)) : Store.Done H sys start s O frees (.free (some p)) := by
  obtain ⟨s', freed, moves⟩ := (store.object p argsNum M here).free_moves
  refine ⟨_, live.erase p, cells, by rw [ApiCall.run, freed]; rfl, trivial, ?_, moves.grants⟩
  exact store.remove here moves

/-- The call ends as on an object without the fillers of earlier invokes. -/
theorem Invoked.invokeEnds {M' : ArgMap} {symid : Int} {retval m : Nat} {r : InvokeResult}
    (fillers : Fillers H argsNum M M')
    (invoked : Invoked H M' s p argsNum sys symid retval (some r) m (Misses argsNum M'))
    (size : CallSize argsNum M' m) :
    InvokeEnds H sys (s.LastFails r.heap) symid retval argsNum M
      { ret := r.ret, pointer := none, errno := r.errno, issued := r.issued, frees := r.frees,
        heap := r.heap } := by
  cases invoked with
  | issued heap ok sends reached rep grants =>
    obtain ⟨recs, call, sent, same, done⟩ := sends
    obtain rfl := Option.some.inj done
    rw [fillers.payload_eq] at sent
    refine .issued m recs call (fillers.misses_iff.not.mp ok) ⟨fun plain _ => ?_, size.counted⟩
      sent same rfl rfl
    rw [← fillers.plain plain]
    exact size.plain plain ok
  | refused heap j failed refused reached rep grants =>
    obtain rfl := Option.some.inj refused
    exact .refused (fillers.misses_iff.mp failed) rfl rfl rfl
  | noMemory heap j lacks noMemory reached rep grants =>
    obtain rfl := Option.some.inj noMemory
    exact .noMemory lacks rfl rfl rfl

theorem Store.invoke (store : Store H start s O live cells frees)
    (here : O p = some (argsNum, M)) (symid : Int) (retval : Nat) (uninit : VhcallData) :
    Store.Done H sys start s O frees (.invoke (some p) symid retval uninit) := by
  obtain ⟨M', rep, fillers⟩ := store.represents p argsNum M here
  obtain ⟨m, invoked, size⟩ := rep.invoke H sys uninit symid retval (store.kind p argsNum M here)
  obtain ⟨r, ran⟩ := invoked.ends
  rw [ran] at invoked
  obtain ⟨j, reached, rep', grants⟩ := invoked.after
  obtain ⟨nodes', object', moves⟩ := (store.object p argsNum M here).invoke_moves ran
  refine ⟨_, live, Function.update cells p nodes', by rw [ApiCall.run, ran]; rfl,
    ⟨argsNum, M, here, invoked.invokeEnds fillers size⟩, ?_, grants⟩
  have changed := store.change here moves object' rep' (fillers.filled size reached)
  rwa [← here, Function.update_eq_self] at changed

theorem Store.call (store : Store H start s O live cells frees) {call : ApiCall}
    (onLive : call.OnLive O) : Store.Done H sys start s O frees call := by
  have small : ∀ num : BitVec 32, num.toInt < 2 ^ 31 := fun num => BitVec.toInt_lt
  have present : ∀ p, call.object = some p → ∃ n M, O p = some (n, M) := by
    intro p about
    obtain ⟨⟨n, M⟩, here⟩ := Option.ne_none_iff_exists'.mp (onLive p about)
    exact ⟨n, M, here⟩
  cases call with
  | alloc =>
    have below : (-1 : Int) < 2 ^ 31 := by decide
    exact store.allocated below rfl (fun _ => rfl) (fun _ _ => Iff.rfl)
  | allocNum num => exact store.allocated (small num) rfl (fun _ => rfl) (fun _ _ => Iff.rfl)
  | args ca op =>
    cases ca with
    | none =>
      cases op with
      | set c =>
        have run : c.run H s none = some { ret := -1, errno := some einval, heap := s } := by
          rw [SetCall.run_eq]
          rfl
        refine store.null (by rw [ApiCall.run, ArgsOp.run, run]; rfl) (fun _ => ⟨rfl, rfl, rfl⟩)
          rfl rfl rfl
      | clear => exact store.null rfl (fun _ => rfl) rfl rfl rfl
    | some p =>
      obtain ⟨n, M, here⟩ := present p rfl
      cases op with
      | set c => exact store.set here c
      | clear => exact store.clear here
  | free ca =>
    cases ca with
    | none => exact store.null rfl (fun _ => rfl) rfl rfl rfl
    | some p =>
      obtain ⟨n, M, here⟩ := present p rfl
      exact store.free here
  | invoke ca symid retval uninit =>
    cases ca with
    | none => exact store.null rfl (fun _ => ⟨rfl, rfl, rfl⟩) rfl rfl rfl
    | some p =>
      obtain ⟨n, M, here⟩ := present p rfl
      exact store.invoke here symid retval uninit

/-! ## Whole programs -/

def freesOf (trace : List (ApiCall × ApiReturn)) : List Nat := trace.flatMap fun x => x.2.frees

theorem Store.initial (s : Heap) : Store H s.fresh s .empty [] (fun _ => []) [] where
  first := le_rfl
  nodup := List.nodup_nil
  mem p := by simp [Objects.empty]
  object _ _ _ there := absurd there (by simp [Objects.empty])
  represents _ _ _ there := absurd there (by simp [Objects.empty])
  kind _ _ _ there := absurd there (by simp [Objects.empty])
  ledger := List.Perm.of_eq s.granted_self.symm

theorem Store.program {calls : List ApiCall} {trace : List (ApiCall × ApiReturn)}
    (store : Store H start s O live cells frees)
    (ran : runProgram H sys s calls = some (trace, s')) (uses : UsesLive H O trace) :
    ∃ live cells, Store H start s' (trace.foldl (Objects.step H) O) live cells
      (frees ++ freesOf trace) ∧ s'.grants = s.grants := by
  induction calls generalizing s O live cells frees trace with
  | nil =>
    obtain ⟨rfl, rfl⟩ := Prod.mk.inj (Option.some.inj ran)
    exact ⟨live, cells, by rw [freesOf, List.flatMap_nil, List.append_nil]; exact store, rfl⟩
  | cons call rest ih =>
    obtain ⟨r, one, more⟩ := Option.bind_eq_some_iff.mp ran
    obtain ⟨⟨later, s₁⟩, done, last⟩ := Option.bind_eq_some_iff.mp more
    obtain ⟨rfl, rfl⟩ := Prod.mk.inj (Option.some.inj last)
    obtain ⟨onLive, uses'⟩ := uses
    have done' : Store.Done H sys start s O frees call := store.call onLive
    obtain ⟨r', live₁, cells₁, one', _, store₁, grants⟩ := done'
    obtain rfl := Option.some.inj (one.symm.trans one')
    obtain ⟨live', cells', store', grants'⟩ := ih store₁ done uses'
    refine ⟨live', cells', ?_, grants'.trans grants⟩
    rw [freesOf, List.flatMap_cons, ← List.append_assoc]
    exact store'

/-- Whatever calls were made before, with any allocations that fail: the next one ends as the
setters of its own object say, with ENOMEM only when an allocation of its own fails. -/
theorem objects_kept_apart (H : VhcallH) (sys : InvokeCall → Int) (s₀ s : Heap)
    (calls : List ApiCall) (trace : List (ApiCall × ApiReturn))
    (ran : runProgram H sys s₀ calls = some (trace, s)) (uses : UsesLive H .empty trace)
    (next : ApiCall) (onLive : next.OnLive (.after H trace)) :
    ∃ r, next.run H sys s = some r ∧
      s.grants = s₀.grants ∧ Ends H sys (s.LastFails r.heap) (.after H trace) next r := by
  obtain ⟨live, cells, store, grants⟩ := (Store.initial s₀).program ran uses
  have answered : Store.Done H sys s₀.fresh s (.after H trace) ([] ++ freesOf trace) next :=
    store.call onLive
  obtain ⟨r, _, _, done, ends, _⟩ := answered
  exact ⟨r, done, grants, ends⟩

/-- A heap in which the fifth allocation fails. -/
def shortHeap : Heap where
  node _ := .zero
  fresh := 0
  grants k := k ≠ 4

/-- The setter that fails is on the second object; its invoke inserts argument 0. -/
def twoObjects : List ApiCall :=
  [.alloc, .allocNum 2, .args (some 0) (.set (.u8 0 255)), .args (some 1) (.set (.i8 1 3)),
    .args (some 1) (.set (.i8 0 1)), .invoke (some 1) 7 0 .zero, .args none .clear, .free (some 0),
    .alloc, .args (some 7) (.set (.double 0 5)), .args (some 1) .clear]

theorem twoObjects_run : ∃ trace s,
    runProgram sampleH (fun _ => 0) shortHeap twoObjects = some (trace, s) ∧
      UsesLive sampleH .empty trace ∧ freesOf trace = [6, 2, 0, 5, 3] ∧
      Objects.after sampleH trace 7 ≠ none := by
  have checked : (runProgram sampleH (fun _ => 0) shortHeap twoObjects).any (fun done =>
      decide (UsesLive sampleH .empty done.1 ∧ freesOf done.1 = [6, 2, 0, 5, 3]) &&
        (Objects.after sampleH done.1 7).isSome) = true := by
    decide +kernel
  rw [Option.any_eq_true] at checked
  obtain ⟨⟨trace, s⟩, ran, holds⟩ := checked
  obtain ⟨usage, present⟩ := Bool.and_eq_true_iff.mp holds
  obtain ⟨uses, frees⟩ := of_decide_eq_true usage
  exact ⟨trace, s, ran, uses, frees, Option.isSome_iff_ne_none.mp present⟩

theorem objects_kept_apart_two : ∃ trace s r,
    runProgram sampleH (fun _ => 0) shortHeap twoObjects = some (trace, s) ∧
      (ApiCall.invoke (some 7) 7 0 .zero).run sampleH (fun _ => 0) s = some r ∧
      Ends sampleH (fun _ => 0) (s.LastFails r.heap) (.after sampleH trace)
        (.invoke (some 7) 7 0 .zero) r := by
  obtain ⟨trace, s, ran, uses, _, present⟩ := twoObjects_run
  have live : (ApiCall.invoke (some 7) 7 0 .zero).OnLive (.after sampleH trace) := by
    intro p about
    obtain rfl := Option.some.inj about
    exact present
  obtain ⟨r, done, _, ends⟩ := objects_kept_apart sampleH (fun _ => 0) shortHeap s twoObjects
    trace ran uses (.invoke (some 7) 7 0 .zero) live
  exact ⟨trace, s, r, ran, done, ends⟩

/-- After any calls the cells that calloc gave, each once, are those that were freed and those
of the lists of the objects that were not. -/
theorem cells_freed_once (H : VhcallH) (sys : InvokeCall → Int) (s₀ s : Heap)
    (calls : List ApiCall) (trace : List (ApiCall × ApiReturn))
    (ran : runProgram H sys s₀ calls = some (trace, s)) (uses : UsesLive H .empty trace) :
    ∃ (live : List Nat) (cells : Nat → List Nat), live.Nodup ∧
      (∀ p, p ∈ live ↔ Objects.after H trace p ≠ none) ∧
      (∀ p n M, Objects.after H trace p = some (n, M) → Object s p n (cells p)) ∧
      (s.granted s₀.fresh).Nodup ∧ freesOf trace ++ live.flatMap cells ~ s.granted s₀.fresh ∧
      (freesOf trace).Nodup ∧
      (Objects.after H trace = .empty → freesOf trace ~ s.granted s₀.fresh) := by
  obtain ⟨live, cells, store, _⟩ := (Store.initial s₀).program ran uses
  have ledger : freesOf trace ++ live.flatMap cells ~ s.granted s₀.fresh := store.ledger
  have nodup := ledger.nodup_iff.mpr Heap.granted_nodup
  refine ⟨live, cells, store.nodup, store.mem, store.object, Heap.granted_nodup, ledger,
    (List.nodup_append.mp nodup).1, fun empty => ?_⟩
  have none : live = [] := by
    refine List.eq_nil_iff_forall_not_mem.mpr (fun p member => (store.mem p).mp member ?_)
    exact congrFun empty p
  rwa [none, List.flatMap_nil, List.append_nil] at ledger

theorem cells_freed_once_two : ∃ (trace : List (ApiCall × ApiReturn)) (s : Heap),
    freesOf trace = [6, 2, 0, 5, 3] ∧ ∃ (live : List Nat) (cells : Nat → List Nat),
      live.Nodup ∧ freesOf trace ++ live.flatMap cells ~ s.granted 0 := by
  obtain ⟨trace, s, ran, uses, frees, _⟩ := twoObjects_run
  obtain ⟨live, cells, nodup, _, _, _, ledger, _⟩ :=
    cells_freed_once sampleH (fun _ => 0) shortHeap s twoObjects trace ran uses
  exact ⟨trace, s, frees, live, cells, nodup, ledger⟩

end Libsysve.Vhcall
