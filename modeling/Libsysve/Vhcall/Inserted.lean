import Libsysve.Vhcall.Sends

/-!
# Invokes between the setters

A vhcall_invoke_with_args that is called on the way leaves fillers in the object.  `Fillers`
relates it to the object without that call: it differs by zeros at numbers that are not set, and
these are numbers a later invoke would fill itself or refuse anyway.
-/

set_option autoImplicit false

namespace Libsysve.Vhcall

inductive ObjectCall where
  | args (op : ArgsOp)
  | invoke (symid : Int) (retval : Nat) (uninit : VhcallData)

def ObjectCall.isArgs : ObjectCall → Bool
  | .args _ => true
  | .invoke .. => false

section
variable (H : VhcallH) (sys : InvokeCall → Int)

def ObjectCall.run (s : Heap) (ca : Option Nat) : ObjectCall → Option CallReturn
  | .args op => op.run H s ca
  | .invoke symid retval uninit => do
    let r ← vhcallInvokeWithArgs H sys uninit s symid ca retval
    return { ret := r.ret, errno := r.errno, heap := r.heap }

def runCalls (ca : Option Nat) : Heap → List ObjectCall → Option (List (ObjectCall × Int) × Heap)
  | s, [] => some ([], s)
  | s, call :: rest => do
    let r ← call.run H sys s ca
    let (trace, s') ← runCalls ca r.heap rest
    return ((call, r.ret) :: trace, s')

def argsCalls (trace : List (ObjectCall × Int)) : List (ArgsOp × Int) :=
  trace.filterMap fun call =>
    match call.1 with
    | .args op => some (op, call.2)
    | .invoke .. => none

/-- The records of a part of a complex double, whose second value word is never set. -/
structure SamePart (a b : VhcallData) : Prop where
  cl : a.cl = b.cl
  inout : a.inout = b.inout
  size : a.size = b.size
  word : ∀ k : Fin 16, k.val < 8 → a.val k = b.val k

/-- The records of some arguments in both system calls.  They are equal, both value words
included, unless the last setter of the argument is that of a complex double. -/
inductive RecordsKept (last : Int → Option SetCall) :
    List Nat → List VhcallData → List VhcallData → Prop
  | nil : RecordsKept last [] [] []
  | plain {is : List Nat} {recs₁ recs₂ : List VhcallData} (i : Nat) (d : VhcallData)
      (notCdb : (setterOf last i).cl H ≠ H.classCdb)
      (carries : Carries ((setterOf last i).argument H) d)
      (rest : RecordsKept last is recs₁ recs₂) :
      RecordsKept last (i :: is) (d :: recs₁) (d :: recs₂)
  | complex {is : List Nat} {recs₁ recs₂ : List VhcallData} (i : Nat)
      (re₁ im₁ re₂ im₂ : VhcallData) (cdb : (setterOf last i).cl H = H.classCdb)
      (re : SamePart re₁ re₂) (im : SamePart im₁ im₂)
      (rest : RecordsKept last is recs₁ recs₂) :
      RecordsKept last (i :: is) (re₁ :: im₁ :: recs₁) (re₂ :: im₂ :: recs₂)

/-- Two invokes are accepted with the same records, or refused. -/
inductive SameOutcome (last : Int → Option SetCall) (r₁ r₂ : InvokeResult) : Prop
  | accepted (call₁ call₂ : InvokeCall) (m : Nat) (recs₁ recs₂ : List VhcallData)
      (issued₁ : r₁.issued = some call₁) (issued₂ : r₂.issued = some call₂)
      (insize : call₁.insize = call₂.insize) (buffer₁ : call₁.buffer = recs₁.flatMap H.encode)
      (buffer₂ : call₂.buffer = recs₂.flatMap H.encode)
      (same : RecordsKept H last (List.range m) recs₁ recs₂)
  | refused (issued₁ : r₁.issued = none) (issued₂ : r₂.issued = none) (ret₁ : r₁.ret = -1)
      (ret₂ : r₂.ret = -1) (errno₁ : r₁.errno = some einval) (errno₂ : r₂.errno = some einval)

def SameAnswers (trace₁ trace₂ : List (ObjectCall × Int)) : Prop :=
  trace₁.filter (fun call => call.1.isArgs) = trace₂

/-- The numbers at which an invoke may have left a filler. -/
def MayFill (argsNum : Int) (M : ArgMap) (i : Nat) : Prop :=
  argsNum ≠ -1 ∧ (i < argsNum ∨ ∃ k : Nat, argsNum ≤ k ∧ M k ≠ none)

def Fillers (argsNum : Int) (M M' : ArgMap) : Prop :=
  ∀ i, M' i = M i ∨ (M i = none ∧ M' i = some (fillerData H) ∧ MayFill argsNum M i)

end

variable {H : VhcallH} {sys : InvokeCall → Int} {M M' : ArgMap} {s s' : Heap} {args args' : Nat}
  {argsNum : Int} {last : Int → Option SetCall}

/-! ## The fillers -/

theorem Fillers.refl : Fillers H argsNum M M := fun _ => .inl rfl

theorem Fillers.eq_or_none (fillers : Fillers H argsNum M M') (i : Nat) :
    M' i = M i ∨ M i = none := by
  rcases fillers i with same | ⟨absent, _, _⟩
  · exact .inl same
  · exact .inr absent

theorem Fillers.sent_eq (fillers : Fillers H argsNum M M') (i : Nat) :
    sent H M' i = sent H M i := by
  rcases fillers i with same | ⟨absent, filled, _⟩
  · rw [sent, sent, same]
  · rw [sent, sent, absent, filled]
    rfl

theorem Fillers.payload_eq (fillers : Fillers H argsNum M M') (m : Nat) :
    payload H M' m = payload H M m :=
  List.map_congr_left (fun i _ => fillers.sent_eq i)

theorem MayFill.set {i : Nat} (may : MayFill argsNum M i) (c : SetCall) :
    MayFill argsNum (M.set H c) i := by
  obtain ⟨counted, below | ⟨k, above, present⟩⟩ := may
  · exact ⟨counted, .inl below⟩
  · refine ⟨counted, .inr ⟨k, above, ?_⟩⟩
    by_cases here : k = c.argnum.toInt.toNat
    · rw [ArgMap.set, here, Function.update_self]
      simp
    · rw [ArgMap.set, Function.update_of_ne here]
      exact present

theorem Fillers.set (fillers : Fillers H argsNum M M') (c : SetCall) :
    Fillers H argsNum (M.set H c) (M'.set H c) := by
  intro i
  by_cases here : i = c.argnum.toInt.toNat
  · refine .inl ?_
    rw [ArgMap.set, ArgMap.set, here, Function.update_self, Function.update_self]
    rcases fillers c.argnum.toInt.toNat with same | ⟨absent, filled, _⟩
    · rw [same]
    · rw [absent, filled, Option.getD_none, Option.getD_some, c.store_congr H fillerData_val]
  · rw [ArgMap.set, ArgMap.set, Function.update_of_ne here, Function.update_of_ne here]
    rcases fillers i with same | ⟨absent, filled, may⟩
    · exact .inl same
    · exact .inr ⟨absent, filled, may.set c⟩

theorem Fillers.step (fillers : Fillers H argsNum M M') (op : ArgsOp) (ret : Int) :
    Fillers H argsNum (M.step H (op, ret)) (M'.step H (op, ret)) := by
  cases op with
  | set c =>
    by_cases stored : ret = 0
    · rw [ArgMap.step, ArgMap.step, if_pos stored, if_pos stored]
      exact fillers.set c
    · rw [ArgMap.step, ArgMap.step, if_neg stored, if_neg stored]
      exact fillers
  | clear => exact .refl

theorem Fillers.plain (fillers : Fillers H argsNum M M') (plain : argsNum = -1) : M' = M := by
  funext i
  rcases fillers i with same | ⟨_, _, counted, _⟩
  · exact same
  · exact absurd plain counted

theorem Fillers.misses_iff (fillers : Fillers H argsNum M M') :
    Misses argsNum M' ↔ Misses argsNum M := by
  by_cases plain : argsNum = -1
  · rw [fillers.plain plain]
  · rw [Misses, Misses, if_neg plain, if_neg plain]
    constructor
    · rintro ⟨i, above, present⟩
      rcases fillers i with same | ⟨_, _, _, below | beyond⟩
      · exact ⟨i, above, same ▸ present⟩
      · omega
      · exact beyond
    · rintro ⟨i, above, present⟩
      rcases fillers.eq_or_none i with same | absent
      · exact ⟨i, above, same ▸ present⟩
      · exact absurd absent present

theorem Fillers.filled {m j : Nat} (fillers : Fillers H argsNum M M')
    (size : CallSize argsNum M' m) (reached : Reached argsNum M' m (Misses argsNum M') j) :
    Fillers H argsNum M (M'.filled H j) := by
  intro i
  by_cases below : i < j
  · have here : M'.filled H j i = some (sent H M' i) := if_pos below
    rw [here]
    cases present : M' i with
    | some d =>
      rw [sent, present, Option.getD_some, ← present]
      exact fillers i
    | none =>
      have absent : M i = none := by
        rcases fillers.eq_or_none i with same | absent
        · exact same ▸ present
        · exact absent
      have counted : argsNum ≠ -1 := fun plain => reached.plain plain i below present
      have number := size.counted counted
      refine .inr ⟨absent, by rw [sent, present, Option.getD_none], counted, ?_⟩
      rcases reached.le with within | ⟨misses, beyond⟩
      · exact .inl (by omega)
      · rw [fillers.misses_iff, Misses, if_neg counted] at misses
        exact .inr misses
  · have here : M'.filled H j i = M' i := if_neg below
    rw [here]
    exact fillers i

/-! ## The runs -/

variable (H sys) in
theorem Represents.runCalls (rep : Represents s args argsNum M)
    (kind : argsNum = -1 ∨ ∃ n : Nat, argsNum = n ∧ n < 2 ^ 31) (calls : List ObjectCall) :
    ∃ trace s₁ M₁, Vhcall.runCalls H sys (some args) s calls = some (trace, s₁) ∧
      Represents s₁ args argsNum M₁ ∧ s₁.grants = s.grants := by
  induction calls generalizing s M with
  | nil => exact ⟨[], s, M, rfl, rep, rfl⟩
  | cons call rest ih =>
    have one : ∃ r M₁, call.run H sys s (some args) = some r ∧
        Represents r.heap args argsNum M₁ ∧ r.heap.grants = s.grants := by
      cases call with
      | args op =>
        obtain ⟨r, ran, outcome⟩ := rep.op op
        exact ⟨r, _, ran, outcome.rep, outcome.grants⟩
      | invoke symid retval uninit =>
        obtain ⟨m, invoked, _⟩ := rep.invoke H sys uninit symid retval kind
        obtain ⟨r, done⟩ := invoked.ends
        rw [done] at invoked
        obtain ⟨j, _, rep', grants⟩ := invoked.after
        refine ⟨{ ret := r.ret, errno := r.errno, heap := r.heap }, _, ?_, rep', grants⟩
        rw [ObjectCall.run, done]
        rfl
    obtain ⟨r, M₁, ran, rep₁, grants₁⟩ := one
    obtain ⟨trace, s₁, M₂, done, rep₂, grants₂⟩ := ih rep₁
    refine ⟨(call, r.ret) :: trace, s₁, M₂, ?_, rep₂, grants₂.trans grants₁⟩
    simp only [Vhcall.runCalls, ran, done, Option.bind_eq_bind, Option.bind_some]
    rfl

theorem runCalls_cons {call : ObjectCall} {rest : List ObjectCall} {ca : Option Nat}
    {trace : List (ObjectCall × Int)} {s₁ : Heap}
    (ran : runCalls H sys ca s (call :: rest) = some (trace, s₁)) :
    ∃ r later, call.run H sys s ca = some r ∧
      runCalls H sys ca r.heap rest = some (later, s₁) ∧ trace = (call, r.ret) :: later := by
  rw [runCalls] at ran
  obtain ⟨r, one, more⟩ := Option.bind_eq_some_iff.mp ran
  obtain ⟨⟨later, s₂⟩, done, last⟩ := Option.bind_eq_some_iff.mp more
  obtain ⟨rfl, rfl⟩ := Prod.mk.inj (Option.some.inj last)
  exact ⟨r, later, one, done, rfl⟩

theorem Fillers.runCalls (fillers : Fillers H argsNum M M')
    (rep : Represents s args argsNum M) (rep' : Represents s' args' argsNum M')
    (fits : Matches H last M)
    (kind : argsNum = -1 ∨ ∃ n : Nat, argsNum = n ∧ n < 2 ^ 31) {calls : List ObjectCall}
    {trace trace' : List (ObjectCall × Int)} {s₁ s₁' : Heap}
    (ran' : Vhcall.runCalls H sys (some args') s' calls = some (trace', s₁'))
    (ran : Vhcall.runCalls H sys (some args) s (calls.filter ObjectCall.isArgs) = some (trace, s₁))
    (answers : SameAnswers trace' trace) :
    ∃ M₁ M₁', Represents s₁ args argsNum M₁ ∧ Represents s₁' args' argsNum M₁' ∧
      Fillers H argsNum M₁ M₁' ∧ Matches H ((argsCalls trace).foldl lastStep last) M₁ := by
  induction calls generalizing s s' M M' trace trace' last with
  | nil =>
    obtain ⟨rfl, rfl⟩ := Prod.mk.inj (Option.some.inj ran')
    obtain ⟨rfl, rfl⟩ := Prod.mk.inj (Option.some.inj ran)
    exact ⟨M, M', rep, rep', fillers, fits⟩
  | cons call rest ih =>
    obtain ⟨r', later', one', done', rfl⟩ := runCalls_cons ran'
    cases call with
    | args op =>
      obtain ⟨r, later, one, done, rfl⟩ := runCalls_cons ran
      obtain ⟨_, ran₁, outcome⟩ := rep.op op
      obtain rfl := Option.some.inj (one.symm.trans ran₁)
      obtain ⟨_, ran₁', outcome'⟩ := rep'.op op
      obtain rfl := Option.some.inj (one'.symm.trans ran₁')
      obtain ⟨first, more⟩ := List.cons.inj answers
      have ret : r'.ret = r.ret := congrArg Prod.snd first
      exact ih (ret ▸ fillers.step op r.ret) outcome.rep outcome'.rep (outcome.fits last fits)
        done' done more
    | invoke symid retval uninit =>
      obtain ⟨m, invoked, size⟩ := rep'.invoke H sys uninit symid retval kind
      obtain ⟨r, called⟩ := invoked.ends
      rw [called] at invoked
      obtain ⟨j, reached, rep₁', _⟩ := invoked.after
      rw [ObjectCall.run, called] at one'
      obtain rfl := Option.some.inj one'
      exact ih (fillers.filled size reached) rep rep₁' fits done' ran answers

theorem sameAnswers (rep : Represents s args argsNum M) (rep' : Represents s' args' argsNum M')
    (kind : argsNum = -1 ∨ ∃ n : Nat, argsNum = n ∧ n < 2 ^ 31)
    (plenty : ∀ k, s.grants k = true) (plenty' : ∀ k, s'.grants k = true)
    {calls : List ObjectCall} {trace trace' : List (ObjectCall × Int)} {s₁ s₁' : Heap}
    (ran' : runCalls H sys (some args') s' calls = some (trace', s₁'))
    (ran : runCalls H sys (some args) s (calls.filter ObjectCall.isArgs) = some (trace, s₁)) :
    SameAnswers trace' trace := by
  induction calls generalizing s s' M M' trace trace' with
  | nil =>
    obtain ⟨rfl, rfl⟩ := Prod.mk.inj (Option.some.inj ran')
    obtain ⟨rfl, rfl⟩ := Prod.mk.inj (Option.some.inj ran)
    rfl
  | cons call rest ih =>
    obtain ⟨r', later', one', done', rfl⟩ := runCalls_cons ran'
    cases call with
    | args op =>
      obtain ⟨r, later, one, done, rfl⟩ := runCalls_cons ran
      obtain ⟨_, ran₁, outcome⟩ := rep.op op
      obtain rfl := Option.some.inj (one.symm.trans ran₁)
      obtain ⟨_, ran₁', outcome'⟩ := rep'.op op
      obtain rfl := Option.some.inj (one'.symm.trans ran₁')
      have more := ih outcome.rep outcome'.rep (outcome.grants ▸ plenty)
        (outcome'.grants ▸ plenty') done' done
      have ret : r'.ret = r.ret := by
        have valid := outcome.valid (plenty _)
        have valid' := outcome'.valid (plenty' _)
        have answer := outcome.answer
        have answer' := outcome'.answer
        have same : r'.ret = 0 ↔ r.ret = 0 := valid'.trans valid.symm
        omega
      exact congrArg₂ List.cons (Prod.ext rfl ret) more
    | invoke symid retval uninit =>
      obtain ⟨m, invoked, _⟩ := rep'.invoke H sys uninit symid retval kind
      obtain ⟨r, called⟩ := invoked.ends
      rw [called] at invoked
      obtain ⟨j, _, rep₁', grants⟩ := invoked.after
      rw [ObjectCall.run, called] at one'
      obtain rfl := Option.some.inj one'
      have more : SameAnswers later' trace :=
        ih rep rep₁' plenty (grants ▸ plenty') done' ran
      exact more

/-! ## The last invoke -/

theorem samePart_partData (d v w : VhcallData) (i : Fin 2) :
    SamePart (partData H v d i) (partData H w d i) := by
  refine ⟨rfl, rfl, rfl, fun k inside => ?_⟩
  change copyVal v.val (wordBytes d.val i) 8 k = copyVal w.val (wordBytes d.val i) 8 k
  rw [copyVal, copyVal, if_pos inside, if_pos inside]

theorem SentAs.kept {f : Nat → VhcallData} {is : List Nat} {recs₁ recs₂ : List VhcallData}
    (sent₁ : SentAs H (is.map f) recs₁) (sent₂ : SentAs H (is.map f) recs₂)
    (stored : ∀ i, Stored H (setterOf last i) (f i)) : RecordsKept H last is recs₁ recs₂ := by
  induction is generalizing recs₁ recs₂ with
  | nil =>
    cases sent₁
    cases sent₂
    exact .nil
  | cons i is ih =>
    rw [List.map_cons] at sent₁ sent₂
    have cl := (stored i).cl
    cases sent₁ with
    | plain _ notCdb rest₁ =>
      cases sent₂ with
      | plain _ _ rest₂ =>
        exact .plain i (f i) (cl ▸ notCdb) (stored i).carries (ih rest₁ rest₂)
      | complex _ _ _ cdb _ => exact absurd cdb notCdb
    | complex _ v₁ w₁ cdb rest₁ =>
      cases sent₂ with
      | plain _ notCdb _ => exact absurd cdb notCdb
      | complex _ v₂ w₂ _ rest₂ =>
        exact .complex i _ _ _ _ (cl ▸ cdb) (samePart_partData (f i) v₁ v₂ realPart)
          (samePart_partData (f i) w₁ w₂ imagPart) (ih rest₁ rest₂)

theorem RecordsKept.length_eq {is : List Nat} {recs₁ recs₂ : List VhcallData}
    (same : RecordsKept H last is recs₁ recs₂) : recs₁.length = recs₂.length := by
  induction same with
  | nil => rfl
  | plain _ _ _ _ _ ih => rw [List.length_cons, List.length_cons, ih]
  | complex _ _ _ _ _ _ _ _ _ ih => simp only [List.length_cons, ih]

theorem Fillers.sameOutcome {symid : Int} {retval m m' : Nat} {r r' : InvokeResult}
    (fillers : Fillers H argsNum M M') (fits : Matches H last M)
    (invoked : Invoked H M s args argsNum sys symid retval (some r) m (Misses argsNum M))
    (invoked' : Invoked H M' s' args' argsNum sys symid retval (some r') m' (Misses argsNum M'))
    (size : CallSize argsNum M m) (size' : CallSize argsNum M' m')
    (memory : r.errno ≠ some enomem) (memory' : r'.errno ≠ some enomem) :
    SameOutcome H last r' r := by
  have misses := fillers.misses_iff
  rcases invoked.answer memory with ⟨call, issued⟩ | ⟨failed, issued, ret, errno⟩
  · rcases invoked'.answer memory' with ⟨call', issued'⟩ | ⟨failed', _⟩
    · obtain ⟨ok, recs, sent, rfl⟩ := invoked.records issued
      obtain ⟨_, recs', sent', rfl⟩ := invoked'.records issued'
      obtain rfl : m = m' := size.unique size' (fun plain i => by rw [fillers.plain plain]) ok
      rw [fillers.payload_eq] at sent'
      have same := sent'.kept sent fits.sent
      refine .accepted _ _ m recs' recs issued' issued ?_ rfl rfl same
      rw [same.length_eq]
    · exact absurd (misses.mp failed') (invoked.records issued).1
  · rcases invoked'.answer memory' with ⟨call', issued'⟩ | ⟨_, issued', ret', errno'⟩
    · exact absurd (misses.mpr failed) (invoked'.records issued').1
    · exact .refused issued' issued ret' ret errno' errno

/-- For any calls, with invokes between them or without: when the setters return the same and
memory is not short for the last invoke, it is accepted with the same records or refused. -/
theorem invoke_keeps_arguments (H : VhcallH) (sys : InvokeCall → Int) (symid : Int) (retval : Nat)
    (uninit₁ uninit₂ : VhcallData) (s₀₁ s₀₂ s₁ s₂ : Heap) (args₁ args₂ : Nat) (argsNum : Int)
    (created₁ : Created s₀₁ args₁ argsNum s₁) (created₂ : Created s₀₂ args₂ argsNum s₂)
    (calls : List ObjectCall) :
    ∃ trace₁ trace₂ s₁' s₂' r₁ r₂, runCalls H sys (some args₁) s₁ calls = some (trace₁, s₁') ∧
      runCalls H sys (some args₂) s₂ (calls.filter ObjectCall.isArgs) = some (trace₂, s₂') ∧
      vhcallInvokeWithArgs H sys uninit₁ s₁' symid (some args₁) retval = some r₁ ∧
      vhcallInvokeWithArgs H sys uninit₂ s₂' symid (some args₂) retval = some r₂ ∧
      (SameAnswers trace₁ trace₂ → r₁.errno ≠ some enomem → r₂.errno ≠ some enomem →
        SameOutcome H (lastSet (argsCalls trace₂)) r₁ r₂) ∧
      ((∀ k, s₀₁.grants k = true) → (∀ k, s₀₂.grants k = true) →
        SameAnswers trace₁ trace₂ ∧ r₁.errno ≠ some enomem ∧ r₂.errno ≠ some enomem) := by
  obtain ⟨empty₁, grants₁⟩ := created₁.represents
  obtain ⟨empty₂, grants₂⟩ := created₂.represents
  obtain ⟨trace₁, s₁', M₁, ran₁, rep₁, same₁⟩ := empty₁.runCalls H sys created₁.kind calls
  obtain ⟨trace₂, s₂', M₂, ran₂, rep₂, same₂⟩ :=
    empty₂.runCalls H sys created₂.kind (calls.filter ObjectCall.isArgs)
  obtain ⟨m₁, invoked₁, size₁⟩ := rep₁.invoke H sys uninit₁ symid retval created₁.kind
  obtain ⟨m₂, invoked₂, size₂⟩ := rep₂.invoke H sys uninit₂ symid retval created₂.kind
  obtain ⟨r₁, done₁⟩ := invoked₁.ends
  obtain ⟨r₂, done₂⟩ := invoked₂.ends
  rw [done₁] at invoked₁
  rw [done₂] at invoked₂
  refine ⟨trace₁, trace₂, s₁', s₂', r₁, r₂, ran₁, ran₂, done₁, done₂,
    fun answers memory₁ memory₂ => ?_, fun plenty₁ plenty₂ => ?_⟩
  · obtain ⟨M₂', M₁', rep₂', rep₁', fillers, fits⟩ :=
      Fillers.runCalls .refl empty₂ empty₁ .empty created₁.kind ran₁ ran₂ answers
    obtain ⟨m₁', invoked₁', size₁'⟩ := rep₁'.invoke H sys uninit₁ symid retval created₁.kind
    obtain ⟨m₂', invoked₂', size₂'⟩ := rep₂'.invoke H sys uninit₂ symid retval created₂.kind
    rw [done₁] at invoked₁'
    rw [done₂] at invoked₂'
    exact fillers.sameOutcome fits invoked₂' invoked₁' size₂' size₁' memory₂ memory₁
  · have granted₁ : ∀ k, s₁'.grants k = true := fun k => by rw [same₁, grants₁, plenty₁ k]
    have granted₂ : ∀ k, s₂'.grants k = true := fun k => by rw [same₂, grants₂, plenty₂ k]
    have answers := sameAnswers empty₂ empty₁ created₁.kind (grants₂ ▸ plenty₂)
      (grants₁ ▸ plenty₁) ran₁ ran₂
    exact ⟨answers, invoked₁.memory granted₁, invoked₂.memory granted₂⟩

/-- The first invoke fills numbers 0 and 1, the second one fails and fills number 3. -/
def insertedCalls : List ObjectCall :=
  [.args (.set (.complexDouble 2 5)), .invoke 7 0 .zero, .args (.set (.i8 4 1)),
    .invoke 7 0 .zero, .args (.set (.i8 1 3)), .args .clear, .args (.set (.float 2 1))]

theorem invoke_keeps_arguments_inserted :
    ∃ s₀ s args, Created s₀ args 3 s ∧
      ∃ trace₁ trace₂ s₁' s₂' r₁ r₂,
        runCalls sampleH (fun _ => 0) (some args) s insertedCalls = some (trace₁, s₁') ∧
        runCalls sampleH (fun _ => 0) (some args) s (insertedCalls.filter ObjectCall.isArgs) =
          some (trace₂, s₂') ∧
        vhcallInvokeWithArgs sampleH (fun _ => 0) .zero s₁' 7 (some args) 0 = some r₁ ∧
        vhcallInvokeWithArgs sampleH (fun _ => 0) .zero s₂' 7 (some args) 0 = some r₂ ∧
        (SameAnswers trace₁ trace₂ → r₁.errno ≠ some enomem → r₂.errno ≠ some enomem →
          SameOutcome sampleH (lastSet (argsCalls trace₂)) r₁ r₂) ∧
        ((∀ k, s₀.grants k = true) → (∀ k, s₀.grants k = true) →
          SameAnswers trace₁ trace₂ ∧ r₁.errno ≠ some enomem ∧ r₂.errno ≠ some enomem) :=
  ⟨sampleHeap, (vhcallArgsAllocNum sampleHeap 3).2, 0, .allocNum 3 rfl,
    invoke_keeps_arguments sampleH (fun _ => 0) 7 0 .zero .zero sampleHeap sampleHeap _ _ 0 0 3
      (.allocNum 3 rfl) (.allocNum 3 rfl) insertedCalls⟩

end Libsysve.Vhcall
