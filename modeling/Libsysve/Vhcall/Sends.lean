import Libsysve.Vhcall.Marshal

/-!
# The arguments that are sent

The system call is issued when no argument is missing, or when the missing ones are below the
number of arguments that was given.  It is passed one record for each argument, in the order of
their numbers, with what the last setter has stored.
-/

set_option autoImplicit false

namespace Libsysve.Vhcall

/-- What a record says: `count` bytes of the value words matter. -/
structure Argument where
  cl : Int
  inout : Int
  size : Nat
  count : Nat
  value : Nat → Byte

structure Carries (x : Argument) (d : VhcallData) : Prop where
  cl : d.cl = x.cl
  inout : d.inout = x.inout
  size : d.size = x.size
  value : ∀ k, k < x.count → ∃ fits : k < 16, d.val ⟨k, fits⟩ = x.value k

section
variable (H : VhcallH)

def SetCall.argument (c : SetCall) : Argument where
  cl := c.cl H
  inout := c.inout H
  size := c.size
  count := c.count
  value := c.value H

def doublePart (word : BitVec 64) : Argument where
  cl := H.classDbl
  inout := H.intentIn
  size := 8
  count := 8
  value := bytesOf word

def SetCall.records : SetCall → List Argument
  | .complexDouble _ val =>
    [doublePart H (val.extractLsb' 0 64), doublePart H (val.extractLsb' 64 64)]
  | c => [c.argument H]

/-- The setter of argument `i`; one that is missing counts as 0. -/
def setterOf (last : Int → Option SetCall) (i : Nat) : SetCall :=
  (last i).getD (.u64 (BitVec.ofNat 32 i) 0)

def arguments (last : Int → Option SetCall) (m : Nat) : List SetCall :=
  (List.range m).map (setterOf last)

def Sends (records : SetCall → List Argument) (sys : InvokeCall → Int) (symid : Int)
    (retval : Nat) (cs : List SetCall) (outcome : Option InvokeResult) : Prop :=
  ∃ recs call heap, List.Forall₂ Carries (cs.flatMap records) recs ∧
    call = ({ symid := symid, inptr := 0, insize := (recs.flatMap H.encode).length,
              buffer := recs.flatMap H.encode, retval := retval } : InvokeCall) ∧
    outcome = some { ret := sys call, errno := none, issued := some call, heap := heap }

/-- The numbers that were set are those below `m`. -/
def Contiguous (last : Int → Option SetCall) (m : Nat) : Prop :=
  ∀ i : Int, last i ≠ none ↔ 0 ≤ i ∧ i < m

end

variable {H : VhcallH} {M : ArgMap} {last : Int → Option SetCall}

theorem SetCall.cl_eq_cdb {c : SetCall} (cdb : c.cl H = H.classCdb) :
    ∃ argnum val, c = .complexDouble argnum val := by
  cases c with
  | complexDouble argnum val => exact ⟨argnum, val, rfl⟩
  | pointer inout argnum buff len => exact absurd cdb H.ptr_ne_cdb
  | veoshandle argnum => exact absurd cdb H.hdl_ne_cdb
  | float argnum val => exact absurd cdb H.dbl_ne_cdb
  | double argnum val => exact absurd cdb H.dbl_ne_cdb
  | complexFloat argnum val => exact absurd cdb H.dbl_ne_cdb
  | _ => exact absurd cdb H.int_ne_cdb

theorem SetCall.records_plain {c : SetCall} (notCdb : c.cl H ≠ H.classCdb) :
    c.records H = [c.argument H] := by
  cases c with
  | complexDouble argnum val => exact absurd rfl notCdb
  | _ => rfl

theorem Stored.carries {c : SetCall} {d : VhcallData} (stored : Stored H c d) :
    Carries (c.argument H) d :=
  ⟨stored.cl, stored.inout, stored.size, stored.value⟩

theorem bytesOf_word (val : BitVec 128) (i : Nat) {k : Nat} (inside : k < 8) :
    bytesOf (val.extractLsb' (64 * i) 64) k = bytesOf val (8 * i + k) := by
  ext b below
  have within : 8 * k + b < 64 := by omega
  have place : 64 * i + (8 * k + b) = 8 * (8 * i + k) + b := by omega
  simp [bytesOf, within, place]

theorem Stored.carries_part {argnum : BitVec 32} {val : BitVec 128} {d : VhcallData}
    (stored : Stored H (.complexDouble argnum val) d) (v : VhcallData) (i : Fin 2) :
    Carries (doublePart H (val.extractLsb' (64 * i.val) 64)) (partData H v d i) := by
  refine ⟨rfl, rfl, rfl, fun k inside => ?_⟩
  have word : 8 * i.val + k < 16 := by
    have := i.isLt
    change k < 8 at inside
    omega
  obtain ⟨_, byte⟩ := stored.value (8 * i.val + k) word
  refine ⟨by omega, ?_⟩
  change k < 8 at inside
  change copyVal v.val (wordBytes d.val i) 8 ⟨k, by omega⟩ =
    bytesOf (val.extractLsb' (64 * i.val) 64) k
  rw [copyVal, if_pos inside, wordBytes, dif_pos word, byte]
  exact (bytesOf_word val i.val inside).symm

theorem SentAs.carries {cs : List SetCall} {ds recs : List VhcallData} (sent : SentAs H ds recs)
    (stored : List.Forall₂ (Stored H) cs ds) :
    List.Forall₂ Carries (cs.flatMap (SetCall.records H)) recs := by
  induction sent generalizing cs with
  | nil =>
    cases stored
    exact .nil
  | plain d notCdb rest ih =>
    cases stored with
    | @cons c _ cs _ here later =>
      rw [List.flatMap_cons, SetCall.records_plain (here.cl ▸ notCdb)]
      exact .cons here.carries (ih later)
  | complex d v w cdb rest ih =>
    cases stored with
    | @cons c _ cs _ here later =>
      obtain ⟨argnum, val, rfl⟩ := SetCall.cl_eq_cdb (here.cl.symm.trans cdb)
      rw [List.flatMap_cons]
      exact .cons (here.carries_part v 0) (.cons (here.carries_part w 1) (ih later))

theorem Matches.sent (fits : Matches H last M) (i : Nat) :
    Stored H (setterOf last i) (sent H M i) := by
  have stored := fits.stored i
  rw [setterOf, Vhcall.sent]
  cases here : last i with
  | none =>
    rw [here] at stored
    cases none : M i with
    | none => exact SetCall.store_stored H (.u64 (BitVec.ofNat 32 i) 0) .zero
    | some d =>
      rw [none] at stored
      cases stored
  | some c =>
    rw [here] at stored
    cases data : M i with
    | none =>
      rw [data] at stored
      cases stored
    | some d =>
      rw [data] at stored
      cases stored with
      | some holds => exact holds

theorem Matches.payload (fits : Matches H last M) (m : Nat) :
    List.Forall₂ (Stored H) (arguments last m) (payload H M m) := by
  rw [arguments, Vhcall.payload, List.forall₂_map_left_iff, List.forall₂_map_right_iff,
    List.forall₂_same]
  exact fun i _ => fits.sent i

theorem Matches.none_iff (fits : Matches H last M) (i : Nat) : M i = none ↔ last i = none := by
  have stored := fits.stored i
  constructor
  · intro absent
    rw [absent] at stored
    cases here : last i with
    | none => rfl
    | some c =>
      rw [here] at stored
      cases stored
  · intro absent
    rw [absent] at stored
    cases here : M i with
    | none => rfl
    | some c =>
      rw [here] at stored
      cases stored

theorem Matches.contiguous_iff (fits : Matches H last M) (m : Nat) :
    Contiguous last m ↔ ∀ i, M i ≠ none ↔ i < m := by
  constructor
  · intro all i
    rw [Ne, fits.none_iff, ← Ne, all]
    omega
  · intro all i
    constructor
    · intro some
      have index := fits.index i some
      obtain ⟨i, rfl⟩ := Int.eq_ofNat_of_zero_le index
      have below := (all i).mp (fun absent => some ((fits.none_iff i).mp absent))
      exact ⟨index, by omega⟩
    · rintro ⟨index, below⟩ absent
      obtain ⟨i, rfl⟩ := Int.eq_ofNat_of_zero_le index
      exact (all i).mpr (by omega) ((fits.none_iff i).mpr absent)

theorem Issued.sends {sys : InvokeCall → Int} {symid : Int} {retval m : Nat}
    {outcome : Option InvokeResult} {heap : Heap} (fits : Matches H last M)
    (issued : Issued H sys symid retval (payload H M m) outcome heap) :
    Sends H (SetCall.records H) sys symid retval (arguments last m) outcome := by
  obtain ⟨recs, call, sent, rfl, same⟩ := issued
  refine ⟨recs, _, heap, sent.carries (fits.payload m), ?_, same⟩
  rw [flatMap_encode_length]

section
variable {s : Heap} {args : Nat} {sys : InvokeCall → Int} {uninit : VhcallData} {symid : Int}
  {retval : Nat}

theorem Represents.sends_plain (rep : Represents s args (-1) M) (fits : Matches H last M)
    (plenty : ¬∃ k, s.grants k = false) {outcome : Option InvokeResult}
    (invoke : outcome = vhcallInvokeWithArgs H sys uninit s symid (some args) retval) :
    (∀ m, Contiguous last m →
      Sends H (SetCall.records H) sys symid retval (arguments last m) outcome) ∧
    ((¬∃ m, Contiguous last m) → ∃ heap, Refused outcome heap) := by
  obtain ⟨k, invoked, domain⟩ := rep.invoke_plain H sys uninit symid retval
  rw [← invoke] at invoked
  simp only [← fits.contiguous_iff] at invoked domain
  cases invoked with
  | noMemory heap j lacks noMemory reached rep' grants =>
    obtain ⟨k, _, _, refused⟩ := lacks
    exact absurd ⟨k, refused⟩ plenty
  | refused heap j gap refused reached rep' grants =>
    exact ⟨fun m all => absurd ⟨m, all⟩ gap, fun _ => ⟨heap, refused⟩⟩
  | issued heap ok issued reached rep' grants =>
    have whole := not_not.mp ok
    refine ⟨fun m all => ?_, fun gap => absurd whole gap⟩
    obtain rfl : m = k := by
      have below := all m
      have below' := all k
      have here := domain whole m
      have here' := domain whole k
      rw [below] at here
      rw [below'] at here'
      omega
    exact issued.sends fits

theorem Represents.sends_count {n : Nat} (rep : Represents s args n M) (small : n < 2 ^ 31)
    (fits : Matches H last M) (plenty : ¬∃ k, s.grants k = false)
    {outcome : Option InvokeResult}
    (invoke : outcome = vhcallInvokeWithArgs H sys uninit s symid (some args) retval) :
    ((∀ i, last i ≠ none → i < n) →
      Sends H (SetCall.records H) sys symid retval (arguments last n) outcome) ∧
    ((∃ i, (n : Int) ≤ i ∧ last i ≠ none) → ∃ heap, Refused outcome heap) := by
  have invoked := rep.invoke_count H sys uninit symid retval small
  rw [← invoke] at invoked
  have beyond : (∃ i, n ≤ i ∧ M i ≠ none) ↔ ∃ i, (n : Int) ≤ i ∧ last i ≠ none := by
    constructor
    · rintro ⟨i, above, some⟩
      exact ⟨i, by omega, fun absent => some ((fits.none_iff i).mpr absent)⟩
    · rintro ⟨i, above, some⟩
      obtain ⟨i, rfl⟩ := Int.eq_ofNat_of_zero_le (fits.index i some)
      exact ⟨i, by omega, fun absent => some ((fits.none_iff i).mp absent)⟩
  rw [beyond] at invoked
  cases invoked with
  | noMemory heap j lacks noMemory reached rep' grants =>
    obtain ⟨k, _, _, refused⟩ := lacks
    exact absurd ⟨k, refused⟩ plenty
  | refused heap j found refused reached rep' grants =>
    refine ⟨fun below => ?_, fun _ => ⟨heap, refused⟩⟩
    obtain ⟨i, above, some⟩ := found
    exact absurd (below i some) (not_lt.mpr above)
  | issued heap ok issued reached rep' grants =>
    exact ⟨fun _ => issued.sends fits, fun found => absurd found ok⟩

end

theorem Created.kind {s₀ s : Heap} {args : Nat} {argsNum : Int}
    (created : Created s₀ args argsNum s) :
    argsNum = -1 ∨ ∃ n : Nat, argsNum = n ∧ n < 2 ^ 31 := by
  cases created with
  | alloc allocated => exact .inl rfl
  | allocNum num allocated =>
    have small : num.toInt < 2 ^ 31 := BitVec.toInt_lt
    by_cases negative : num.toInt < 0
    · exact .inl (if_pos negative)
    · exact .inr ⟨num.toInt.toNat, by rw [if_neg negative]; omega, by omega⟩

theorem Created.ran {s₀ s s' : Heap} {args : Nat} {argsNum : Int} {ops : List ArgsOp}
    {trace : List (ArgsOp × Int)} (created : Created s₀ args argsNum s)
    (ran : runOps H (some args) s ops = some (trace, s')) :
    Represents s' args argsNum (trace.foldl (ArgMap.step H) .empty) ∧
      Matches H (lastSet trace) (trace.foldl (ArgMap.step H) .empty) ∧ s'.grants = s₀.grants := by
  obtain ⟨empty, grants₀⟩ := created.represents
  obtain ⟨_, _, done, _, grants, rep, fits⟩ := empty.ops Matches.empty ops
  obtain ⟨rfl, rfl⟩ := Prod.mk.inj (Option.some.inj (done.symm.trans ran))
  exact ⟨rep, fits, grants.trans grants₀⟩

/-- After any calls, on an object of either kind. -/
theorem invoke_sends_arguments (H : VhcallH) (sys : InvokeCall → Int) (uninit : VhcallData)
    (symid : Int) (retval : Nat) (s₀ s : Heap) (args : Nat) (argsNum : Int)
    (created : Created s₀ args argsNum s) (plenty : ∀ k, s₀.grants k = true)
    (ops : List ArgsOp) :
    ∃ trace s' outcome, runOps H (some args) s ops = some (trace, s') ∧ trace.map Prod.fst = ops ∧
      outcome = vhcallInvokeWithArgs H sys uninit s' symid (some args) retval ∧
      (argsNum = -1 →
        (∀ m, Contiguous (lastSet trace) m →
          Sends H (SetCall.records H) sys symid retval (arguments (lastSet trace) m) outcome) ∧
        ((¬∃ m, Contiguous (lastSet trace) m) → ∃ heap, Refused outcome heap)) ∧
      (∀ n : Nat, argsNum = n →
        ((∀ i, lastSet trace i ≠ none → i < n) →
          Sends H (SetCall.records H) sys symid retval (arguments (lastSet trace) n) outcome) ∧
        ((∃ i, (n : Int) ≤ i ∧ lastSet trace i ≠ none) → ∃ heap, Refused outcome heap)) := by
  obtain ⟨empty, grants₀⟩ := created.represents
  obtain ⟨trace, s', done, same, grants, rep, fits⟩ := empty.ops Matches.empty ops
  have granted : ¬∃ k, s'.grants k = false := by
    rintro ⟨k, refused⟩
    rw [grants, grants₀, plenty k] at refused
    exact absurd refused (by simp)
  refine ⟨trace, s', _, done, same, rfl, fun plain => ?_, fun n counted => ?_⟩
  · subst plain
    exact rep.sends_plain fits granted rfl
  · subst counted
    have small : n < 2 ^ 31 := by
      have kind := created.kind
      omega
    exact rep.sends_count small fits granted rfl

/-- A complex double behind a gap, set for the second time, and a pointer. -/
def mixedOps : List ArgsOp :=
  [.set (.i8 2 1), .set (.complexDouble 2 3), .set (.pointer 1 0 ⟨0x1000, fun _ => 1⟩ 20)]

theorem invoke_sends_arguments_mixed :
    ∃ s₀ s args, Created s₀ args 4 s ∧
      ∃ trace s' outcome, runOps sampleH (some args) s mixedOps = some (trace, s') ∧
        trace.map Prod.fst = mixedOps ∧
        outcome = vhcallInvokeWithArgs sampleH (fun _ => 0) .zero s' 7 (some args) 0 ∧
        ((4 : Int) = -1 →
          (∀ m, Contiguous (lastSet trace) m →
            Sends sampleH (SetCall.records sampleH) (fun _ => 0) 7 0
              (arguments (lastSet trace) m) outcome) ∧
          ((¬∃ m, Contiguous (lastSet trace) m) → ∃ heap, Refused outcome heap)) ∧
        (∀ n : Nat, (4 : Int) = n →
          ((∀ i, lastSet trace i ≠ none → i < n) →
            Sends sampleH (SetCall.records sampleH) (fun _ => 0) 7 0
              (arguments (lastSet trace) n) outcome) ∧
          ((∃ i, (n : Int) ≤ i ∧ lastSet trace i ≠ none) → ∃ heap, Refused outcome heap)) :=
  ⟨sampleHeap, (vhcallArgsAllocNum sampleHeap 4).2, 0, .allocNum 4 rfl,
    invoke_sends_arguments sampleH (fun _ => 0) .zero 7 0 sampleHeap _ 0 4 (.allocNum 4 rfl)
      (fun _ => rfl) mixedOps⟩

/-- The first `size` bytes behind the parameter `val`, for every argument. -/
def SetCall.literalRecords (H : VhcallH) : SetCall → List Argument
  | .complexDouble _ val =>
    [doublePart H (val.extractLsb' 0 64), doublePart H (val.extractLsb' 64 64)]
  | c => [{ cl := c.cl H, inout := c.inout H, size := c.size, count := c.size,
            value := (c.val H).bytes }]

/-- The record of a pointer to 20 bytes has no room for them. -/
theorem invoke_pointer_bytes :
    ¬ ∀ s₀ s args, Created s₀ args (-1) s → (∀ k, s₀.grants k = true) → ∀ ops trace s',
      runOps sampleH (some args) s ops = some (trace, s') → ∀ m, Contiguous (lastSet trace) m →
        Sends sampleH (SetCall.literalRecords sampleH) (fun _ => 0) 7 0
          (arguments (lastSet trace) m)
          (vhcallInvokeWithArgs sampleH (fun _ => 0) .zero s' 7 (some args) 0) := by
  intro always
  obtain ⟨s', ran⟩ : ∃ s', runOps sampleH (some 0) (vhcallArgsAlloc sampleHeap).2 pointerOps =
      some ([(.set samplePointer, 0)], s') := ⟨_, rfl⟩
  have last : lastSet [(.set samplePointer, 0)] =
      Function.update (fun _ => none) 0 (some samplePointer) := rfl
  have only : Contiguous (lastSet [(.set samplePointer, 0)]) 1 := by
    intro i
    rw [last]
    by_cases here : i = 0
    · simp [here]
    · rw [Function.update_of_ne here]
      exact ⟨fun some => absurd rfl some, by omega⟩
  obtain ⟨recs, call, heap, carried, _⟩ :=
    always sampleHeap _ 0 (.alloc rfl) (fun _ => rfl) pointerOps _ s' ran 1 only
  cases carried with
  | cons first rest =>
    obtain ⟨fits, _⟩ := first.value 16 (by decide)
    exact Nat.lt_irrefl 16 fits

end Libsysve.Vhcall
