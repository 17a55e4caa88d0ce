import Libsysve.Vhcall.ArgOps
import Libsysve.Vhcall.Validate

/-!
# What vhcall_invoke_with_args sends

The filling loop writes one record after the other and ends exactly where the validation loop
has counted to.  Whether the system call is issued depends on the argument numbers that were
set, and the records on what was last set for each of them.
-/

set_option autoImplicit false

namespace Libsysve.Vhcall

open Libsysve.LinkedList

/-- The records of some arguments: a complex double becomes two, made in the local `data`. -/
inductive SentAs (H : VhcallH) : List VhcallData → List VhcallData → Prop
  | nil : SentAs H [] []
  | plain {ds recs : List VhcallData} (d : VhcallData) (notCdb : d.cl ≠ H.classCdb)
      (rest : SentAs H ds recs) : SentAs H (d :: ds) (d :: recs)
  | complex {ds recs : List VhcallData} (d v w : VhcallData) (cdb : d.cl = H.classCdb)
      (rest : SentAs H ds recs) :
      SentAs H (d :: ds) (partData H v d realPart :: partData H w d imagPart :: recs)

variable {H : VhcallH} {M : ArgMap} {s : Heap} {args : Nat} {argsNum : Int}
  {ds recs : List VhcallData}

theorem SentAs.total (sent : SentAs H ds recs) :
    totalRecords H ds = recs.length * H.sizeofData := by
  induction sent with
  | nil => rw [List.length_nil, Nat.zero_mul]; rfl
  | plain d notCdb rest ih =>
    simp only [totalRecords, List.map_cons, List.sum_cons, recordSize, if_neg notCdb,
      List.length_cons] at ih ⊢
    rw [ih, Nat.succ_mul, Nat.add_comm]
  | complex d v w cdb rest ih =>
    simp only [totalRecords, List.map_cons, List.sum_cons, recordSize, if_pos cdb,
      List.length_cons] at ih ⊢
    rw [ih]
    simp only [Nat.add_mul, Nat.one_mul]
    omega

theorem flatMap_encode_length (recs : List VhcallData) :
    (recs.flatMap H.encode).length = recs.length * H.sizeofData := by
  induction recs with
  | nil => simp
  | cons d recs ih =>
    rw [List.flatMap_cons, List.length_append, H.encode_length, ih, List.length_cons,
      Nat.succ_mul, Nat.add_comm]

/-! ## The filling loop -/

structure Filled (f : Filling) (written : List Byte) (room : Nat) : Prop where
  buffer : ∃ rest : List Byte, f.buffer = written ++ rest ∧ rest.length = room
  inptr : f.inptr = written.length

theorem Filled.put {f : Filling} {written : List Byte} {room : Nat}
    (filled : Filled f written (H.sizeofData + room)) (d : VhcallData) :
    ∃ f', f.put H d = some f' ∧ f'.data = f.data ∧ Filled f' (written ++ H.encode d) room := by
  obtain ⟨rest, buffer, length⟩ := filled.buffer
  have fits : f.inptr + H.sizeofData ≤ f.buffer.length := by
    rw [buffer, List.length_append, filled.inptr]
    omega
  refine ⟨_, if_pos fits, rfl, ⟨rest.drop H.sizeofData, ?_, ?_⟩, ?_⟩
  · simp only [buffer, filled.inptr, List.take_left', List.drop_append, List.append_assoc]
    simp
  · rw [List.length_drop]
    omega
  · simp only [filled.inptr, List.length_append, H.encode_length]

theorem Filled.node {f : Filling} {written : List Byte} {room : Nat} {d : VhcallData}
    (filled : Filled f written (recordSize H d + room)) :
    ∃ f' recs, f.node H d = some f' ∧ SentAs H [d] recs ∧
      Filled f' (written ++ recs.flatMap H.encode) room := by
  by_cases cdb : d.cl = H.classCdb
  · have size : recordSize H d = H.sizeofData + H.sizeofData := by
      rw [recordSize, if_pos cdb]
      omega
    rw [size, Nat.add_assoc] at filled
    have filled₀ : Filled { f with data := partData H f.data d realPart } written
        (H.sizeofData + (H.sizeofData + room)) := ⟨filled.buffer, filled.inptr⟩
    obtain ⟨f₁, put₁, data₁, filled₁⟩ := filled₀.put (partData H f.data d realPart)
    have filled₁' : Filled { f₁ with data := partData H f₁.data d imagPart }
        (written ++ H.encode (partData H f.data d realPart)) (H.sizeofData + room) :=
      ⟨filled₁.buffer, filled₁.inptr⟩
    obtain ⟨f₂, put₂, _, filled₂⟩ := filled₁'.put (partData H f₁.data d imagPart)
    refine ⟨f₂, [partData H f.data d realPart, partData H f₁.data d imagPart], ?_,
      .complex d f.data f₁.data cdb .nil, ?_⟩
    · rw [Filling.node, if_pos cdb, put₁]
      exact put₂
    · simpa [List.append_assoc] using filled₂
  · have size : recordSize H d = H.sizeofData := by rw [recordSize, if_neg cdb]
    rw [size] at filled
    obtain ⟨f', put, _, filled'⟩ := filled.put d
    refine ⟨f', [d], ?_, .plain d cdb .nil, ?_⟩
    · rw [Filling.node, if_neg cdb, put]
    · simpa using filled'

theorem SentAs.append_one {d : VhcallData} {first : List VhcallData} (one : SentAs H [d] first)
    (rest : SentAs H ds recs) : SentAs H (d :: ds) (first ++ recs) := by
  cases one with
  | plain _ notCdb nothing =>
    cases nothing with
    | nil => exact .plain d notCdb rest
  | complex _ v w cdb nothing =>
    cases nothing with
    | nil => exact .complex d v w cdb rest

theorem fillLoop_spec {rest : List Nat} {fuel : Nat} {f : Filling} {written : List Byte}
    (linked : Linked VhcallArgs.next s.node rest none)
    (filled : Filled f written (totalRecords H (rest.map fun a => (s.node a).data)))
    (enough : rest.length ≤ fuel) :
    ∃ f' recs, fillLoop H s fuel rest.head? f = some f' ∧
      SentAs H (rest.map fun a => (s.node a).data) recs ∧
      Filled f' (written ++ recs.flatMap H.encode) 0 := by
  induction rest generalizing fuel f written with
  | nil =>
    refine ⟨f, [], ?_, .nil, by simpa [totalRecords] using filled⟩
    cases fuel <;> rfl
  | cons a rest ih =>
    obtain ⟨fuel, rfl⟩ := Nat.exists_eq_add_of_le' (by
      rw [List.length_cons] at enough
      omega : 1 ≤ fuel)
    have room : totalRecords H ((a :: rest).map fun a => (s.node a).data) =
        recordSize H (s.node a).data + totalRecords H (rest.map fun a => (s.node a).data) := by
      simp [totalRecords]
    rw [room] at filled
    obtain ⟨f₁, first, node, one, filled₁⟩ := filled.node
    obtain ⟨f', recs, looped, sent, filled'⟩ := ih linked.2 filled₁
      (by rw [List.length_cons] at enough; omega : rest.length ≤ fuel)
    refine ⟨f', first ++ recs, ?_, one.append_one sent, ?_⟩
    · have link : (s.node a).next = rest.head? := by rw [linked.1, Option.or_none]
      rw [List.head?_cons, fillLoop, node, link]
      exact looped
    · rw [List.flatMap_append, ← List.append_assoc]
      exact filled'

/-! ## The call -/

/-- The system call with the records of `ds`. -/
def Issued (H : VhcallH) (sys : InvokeCall → Int) (symid : Int) (retval : Nat)
    (ds : List VhcallData) (outcome : Option InvokeResult) (heap : Heap) : Prop :=
  ∃ recs call, SentAs H ds recs ∧
    call = ({ symid := symid, inptr := 0, insize := recs.length * H.sizeofData,
              buffer := recs.flatMap H.encode, retval := retval } : InvokeCall) ∧
    outcome = some { ret := sys call, errno := none, issued := some call, heap := heap }

def Refused (outcome : Option InvokeResult) (heap : Heap) : Prop :=
  outcome = some { ret := -1, errno := some einval, issued := none, heap := heap }

/-- Memory was short for a missing argument or for the buffer. -/
def NoMemory (outcome : Option InvokeResult) (heap : Heap) : Prop :=
  outcome = some { ret := -1, errno := some enomem, issued := none, heap := heap }

/-- How a call ends on an object that is `M`, and the object after it. -/
inductive Invoked (H : VhcallH) (M : ArgMap) (s : Heap) (args : Nat) (argsNum : Int)
    (sys : InvokeCall → Int) (symid : Int) (retval : Nat) (outcome : Option InvokeResult)
    (m : Nat) (fails : Prop) : Prop
  | issued (heap : Heap) (ok : ¬fails)
      (issued : Issued H sys symid retval (payload H M m) outcome heap)
      (reached : Reached argsNum M m fails m)
      (rep : Represents heap args argsNum (M.filled H m)) (grants : heap.grants = s.grants)
  | refused (heap : Heap) (j : Nat) (failed : fails) (refused : Refused outcome heap)
      (reached : Reached argsNum M m fails j) (rep : Represents heap args argsNum (M.filled H j))
      (grants : heap.grants = s.grants)
  | noMemory (heap : Heap) (j : Nat) (lacks : s.LastFails heap)
      (noMemory : NoMemory outcome heap) (reached : Reached argsNum M m fails j)
      (rep : Represents heap args argsNum (M.filled H j)) (grants : heap.grants = s.grants)

variable {sys : InvokeCall → Int} {uninit : VhcallData} {symid : Int} {retval : Nat}

section
variable {outcome : Option InvokeResult} {m : Nat} {fails : Prop} {r : InvokeResult}

theorem Invoked.ends (invoked : Invoked H M s args argsNum sys symid retval outcome m fails) :
    ∃ r, outcome = some r := by
  cases invoked with
  | issued heap ok issued reached rep grants =>
    obtain ⟨recs, call, _, _, done⟩ := issued
    exact ⟨_, done⟩
  | refused heap j fails refused reached rep grants => exact ⟨_, refused⟩
  | noMemory heap j lacks noMemory reached rep grants => exact ⟨_, noMemory⟩

theorem Invoked.records (invoked : Invoked H M s args argsNum sys symid retval (some r) m fails)
    {call : InvokeCall} (issued : r.issued = some call) :
    ¬fails ∧ ∃ recs, SentAs H (payload H M m) recs ∧
      call = ({ symid := symid, inptr := 0, insize := recs.length * H.sizeofData,
                buffer := recs.flatMap H.encode, retval := retval } : InvokeCall) := by
  cases invoked with
  | issued heap ok sends reached rep grants =>
    obtain ⟨recs, call', sent, same, done⟩ := sends
    obtain rfl := Option.some.inj done
    obtain rfl := Option.some.inj issued
    exact ⟨ok, recs, sent, same⟩
  | refused heap j fails refused reached rep grants =>
    obtain rfl := Option.some.inj refused
    exact absurd issued (by simp)
  | noMemory heap j lacks noMemory reached rep grants =>
    obtain rfl := Option.some.inj noMemory
    exact absurd issued (by simp)

theorem Invoked.after (invoked : Invoked H M s args argsNum sys symid retval (some r) m fails) :
    ∃ j, Reached argsNum M m fails j ∧ Represents r.heap args argsNum (M.filled H j) ∧
      r.heap.grants = s.grants := by
  cases invoked with
  | issued heap ok sends reached rep grants =>
    obtain ⟨recs, call, sent, same, done⟩ := sends
    obtain rfl := Option.some.inj done
    exact ⟨m, reached, rep, grants⟩
  | refused heap j fails refused reached rep grants =>
    obtain rfl := Option.some.inj refused
    exact ⟨j, reached, rep, grants⟩
  | noMemory heap j lacks noMemory reached rep grants =>
    obtain rfl := Option.some.inj noMemory
    exact ⟨j, reached, rep, grants⟩

theorem Invoked.answer (invoked : Invoked H M s args argsNum sys symid retval (some r) m fails)
    (memory : r.errno ≠ some enomem) :
    (∃ call, r.issued = some call) ∨
      (fails ∧ r.issued = none ∧ r.ret = -1 ∧ r.errno = some einval) := by
  cases invoked with
  | issued heap ok sends reached rep grants =>
    obtain ⟨recs, call, sent, same, done⟩ := sends
    obtain rfl := Option.some.inj done
    exact .inl ⟨call, rfl⟩
  | refused heap j failed refused reached rep grants =>
    obtain rfl := Option.some.inj refused
    exact .inr ⟨failed, rfl, rfl, rfl⟩
  | noMemory heap j lacks noMemory reached rep grants =>
    obtain rfl := Option.some.inj noMemory
    exact absurd rfl memory

theorem Invoked.memory (invoked : Invoked H M s args argsNum sys symid retval (some r) m fails)
    (plenty : ∀ k, s.grants k = true) : r.errno ≠ some enomem := by
  cases invoked with
  | issued heap ok sends reached rep grants =>
    obtain ⟨recs, call, sent, same, done⟩ := sends
    obtain rfl := Option.some.inj done
    simp
  | refused heap j failed refused reached rep grants =>
    obtain rfl := Option.some.inj refused
    simp [einval, enomem]
  | noMemory heap j lacks noMemory reached rep grants =>
    obtain ⟨k, _, _, refused⟩ := lacks
    exact absurd ((plenty k).symm.trans refused) (by simp)

theorem Invoked.issued_none_iff
    (invoked : Invoked H M s args argsNum sys symid retval (some r) m fails)
    (plenty : ∀ k, s.grants k = true) : r.issued = none ↔ fails := by
  cases invoked with
  | issued heap ok sends reached rep grants =>
    obtain ⟨recs, call, sent, same, done⟩ := sends
    obtain rfl := Option.some.inj done
    exact ⟨fun none => absurd none (by simp), fun fails => absurd fails ok⟩
  | refused heap j fails refused reached rep grants =>
    obtain rfl := Option.some.inj refused
    exact ⟨fun _ => fails, fun _ => rfl⟩
  | noMemory heap j lacks noMemory reached rep grants =>
    obtain ⟨k, _, _, refused⟩ := lacks
    exact absurd ((plenty k).symm.trans refused) (by simp)

end

theorem Validation.invoke {m : Nat} {fails : Prop} (count : (s.node args).argsNum = argsNum)
    (validation : Validation H M s args argsNum
      (validateLoop H args argsNum (s.fresh + argsNum.toNat + 2) s (some args) 0) m fails) :
    Invoked H M s args argsNum sys symid retval
      (vhcallInvokeWithArgs H sys uninit s symid (some args) retval) m fails := by
  cases validation with
  | refused s' j fails done reached rep grants =>
    refine .refused s' j fails ?_ reached rep grants
    simp only [Refused, vhcallInvokeWithArgs, count, done, Option.bind_eq_bind, Option.bind_some]
    rfl
  | noMemory s' j lacks done reached rep grants =>
    refine .noMemory s' j lacks ?_ reached rep grants
    simp only [NoMemory, vhcallInvokeWithArgs, count, done, Option.bind_eq_bind, Option.bind_some]
    rfl
  | complete s' ok done complete rep reached grants fresh =>
    obtain ⟨rest, object, filled⟩ := complete
    have datas : rest.map (fun a => (s'.node a).data) = payload H M m := by
      have seconds := congrArg (List.map Prod.snd) filled
      rw [entries, List.map_map, List.map_map] at seconds
      exact seconds
    have length := object.chain.length_le
    rw [List.length_cons] at length
    have empty : Filled
        { buffer := List.replicate (totalRecords H (payload H M m)) 0
          inptr := 0
          data := uninit } [] (totalRecords H (rest.map fun a => (s'.node a).data)) :=
      ⟨⟨_, rfl, by rw [List.length_replicate, datas]⟩, rfl⟩
    obtain ⟨f, recs, looped, sent, whole⟩ :=
      fillLoop_spec object.chain.linked.2 empty (by omega : rest.length ≤ s'.fresh)
    rw [datas] at sent
    obtain ⟨none, buffer, nothing⟩ := whole.buffer
    rw [List.eq_nil_of_length_eq_zero nothing, List.append_nil, List.nil_append] at buffer
    have inptr : f.inptr = recs.length * H.sizeofData := by
      rw [whole.inptr, List.nil_append, flatMap_encode_length]
    have link : (s'.node args).next = rest.head? := by
      rw [object.chain.linked.1, Option.or_none]
    by_cases memory : 0 < totalRecords H (payload H M m) ∧ s'.grants s'.fresh = false
    · have lacks := (Heap.tried_lastFails memory.2).earlier grants fresh
      refine .noMemory s'.tried m lacks ?_ reached rep.tried grants
      simp only [NoMemory, vhcallInvokeWithArgs, count, done, Option.bind_eq_bind,
        Option.bind_some]
      rw [if_pos memory]
      rfl
    · refine .issued
        (if 0 < totalRecords H (payload H M m) then { s' with fresh := s'.fresh + 1 } else s') ok
        ⟨recs, _, sent, rfl, ?_⟩ reached ?_ ?_
      · simp only [vhcallInvokeWithArgs, count, done, Option.bind_eq_bind, Option.bind_some]
        rw [if_neg memory, link, looped, sent.total]
        simp only [Option.bind_some, buffer, inptr, Int.sub_self]
        rfl
      · split
        · exact rep.tried
        · exact rep
      · split
        · exact grants
        · exact grants

/-- The arguments that were set are not ones a call can be made with. -/
def Misses (argsNum : Int) (M : ArgMap) : Prop :=
  if argsNum = -1 then ¬∃ m, ∀ i, M i ≠ none ↔ i < m
  else ∃ i : Nat, argsNum ≤ i ∧ M i ≠ none

structure CallSize (argsNum : Int) (M : ArgMap) (m : Nat) : Prop where
  plain : argsNum = -1 → ¬Misses argsNum M → ∀ i, M i ≠ none ↔ i < m
  counted : argsNum ≠ -1 → argsNum = m

theorem Misses.congr {M₁ M₂ : ArgMap} (same : ∀ i, M₁ i ≠ none ↔ M₂ i ≠ none) :
    Misses argsNum M₁ ↔ Misses argsNum M₂ := by
  simp only [Misses, same]

theorem CallSize.unique {M₁ M₂ : ArgMap} {m₁ m₂ : Nat} (size₁ : CallSize argsNum M₁ m₁)
    (size₂ : CallSize argsNum M₂ m₂) (same : argsNum = -1 → ∀ i, M₁ i ≠ none ↔ M₂ i ≠ none)
    (whole : ¬Misses argsNum M₁) : m₁ = m₂ := by
  by_cases plain : argsNum = -1
  · have below₁ := size₁.plain plain whole
    have below₂ := size₂.plain plain ((Misses.congr (same plain)).not.mp whole)
    have first := (below₁ m₂).symm.trans ((same plain m₂).trans (below₂ m₂))
    have second := (below₁ m₁).symm.trans ((same plain m₁).trans (below₂ m₁))
    omega
  · have here₁ := size₁.counted plain
    have here₂ := size₂.counted plain
    omega

section
variable (H sys uninit symid retval)

theorem Represents.invoke_count {n : Nat} (rep : Represents s args n M) (small : n < 2 ^ 31) :
    Invoked H M s args n sys symid retval
      (vhcallInvokeWithArgs H sys uninit s symid (some args) retval) n
      (∃ i, n ≤ i ∧ M i ≠ none) := by
  obtain ⟨nodes, object, map⟩ := rep
  obtain ⟨rest, walking⟩ := Represents.walking (H := H) object map
  exact (walking.validate_count small (Nat.zero_add n).symm (by
    rw [Int.toNat_natCast]
    omega)).invoke object.headArgs

theorem Represents.invoke_plain (rep : Represents s args (-1) M) :
    ∃ m, Invoked H M s args (-1) sys symid retval
      (vhcallInvokeWithArgs H sys uninit s symid (some args) retval) m
      (¬∃ m, ∀ i, M i ≠ none ↔ i < m) ∧
        ((∃ m, ∀ i, M i ≠ none ↔ i < m) → ∀ i, M i ≠ none ↔ i < m) := by
  obtain ⟨nodes, object, map⟩ := rep
  obtain ⟨rest, walking⟩ := Represents.walking (H := H) object map
  have length := walking.object.chain.length_le
  rw [List.nil_append, List.length_cons] at length
  obtain ⟨m, validation, domain⟩ := walking.validate_plain
    (fun i below => absurd below (Nat.not_lt_zero i))
    (by omega : rest.length + 1 ≤ s.fresh + (-1 : Int).toNat + 2)
  exact ⟨m, validation.invoke object.headArgs, domain⟩

theorem Represents.invoke (rep : Represents s args argsNum M)
    (kind : argsNum = -1 ∨ ∃ n : Nat, argsNum = n ∧ n < 2 ^ 31) :
    ∃ m, Invoked H M s args argsNum sys symid retval
      (vhcallInvokeWithArgs H sys uninit s symid (some args) retval) m (Misses argsNum M) ∧
        CallSize argsNum M m := by
  rcases kind with plain | ⟨n, counted, small⟩
  · subst plain
    obtain ⟨m, invoked, domain⟩ := rep.invoke_plain H sys uninit symid retval
    refine ⟨m, invoked, ⟨fun _ whole => ?_, fun other => absurd rfl other⟩⟩
    exact domain (not_not.mp whole)
  · subst counted
    have other : (n : Int) ≠ -1 := by omega
    have misses : Misses n M = ∃ i, n ≤ i ∧ M i ≠ none := by
      simp only [Misses, if_neg other, Int.ofNat_le]
    refine ⟨n, ?_, ⟨fun plain => absurd plain other, fun _ => rfl⟩⟩
    rw [misses]
    exact rep.invoke_count H sys uninit symid retval small

end

end Libsysve.Vhcall
