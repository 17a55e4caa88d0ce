import Libsysve.Vhcall.Sends

/-!
# The last setter of an argument

Two sequences of calls may set an argument several times before the same last setter.  The
record shows what that setter has written.  Behind it are bytes of earlier setters, when one of
these wrote more of the value words.
-/

set_option autoImplicit false

namespace Libsysve.Vhcall

/-- A setter of argument `i` since the last clear wrote byte `k`. -/
def Wrote (trace : List (ArgsOp × Int)) (i : Nat) (k : Fin 16) : Prop :=
  ∃ before c after, trace = before ++ (.set c, 0) :: after ∧
    (∀ call ∈ after, call.1 ≠ ArgsOp.clear) ∧ c.argnum.toInt.toNat = i ∧ k.val < c.count

/-- Byte `k` is behind those of the last setter, and an earlier one wrote it. -/
def WroteBehind (trace : List (ArgsOp × Int)) (i : Nat) (k : Fin 16) : Prop :=
  (setterOf (lastSet trace) i).count ≤ k.val ∧ Wrote trace i k

/-- The data of an argument that has the same last setter in both sequences: `behind` are the
bytes that may differ. -/
structure SameData (behind : Fin 16 → Prop) (d₁ d₂ : VhcallData) : Prop where
  cl : d₁.cl = d₂.cl
  inout : d₁.inout = d₂.inout
  size : d₁.size = d₂.size
  value : ∀ k, ¬behind k → d₁.val k = d₂.val k

/-- The records of some arguments in both system calls. -/
inductive SameRecords (H : VhcallH) (last : Int → Option SetCall) (behind : Nat → Fin 16 → Prop) :
    List Nat → List VhcallData → List VhcallData → Prop
  | nil : SameRecords H last behind [] [] []
  | plain {is : List Nat} {recs₁ recs₂ : List VhcallData} (i : Nat) (d₁ d₂ : VhcallData)
      (notCdb : (setterOf last i).cl H ≠ H.classCdb)
      (carries : Carries ((setterOf last i).argument H) d₁)
      (same : SameData (behind i) d₁ d₂)
      (rest : SameRecords H last behind is recs₁ recs₂) :
      SameRecords H last behind (i :: is) (d₁ :: recs₁) (d₂ :: recs₂)
  | complex {is : List Nat} {recs₁ recs₂ : List VhcallData} (i : Nat)
      (re₁ im₁ re₂ im₂ : VhcallData) (cdb : (setterOf last i).cl H = H.classCdb)
      (rest : SameRecords H last behind is recs₁ recs₂) :
      SameRecords H last behind (i :: is) (re₁ :: im₁ :: recs₁) (re₂ :: im₂ :: recs₂)

variable {H : VhcallH} {M : ArgMap} {last : Int → Option SetCall} {i : Nat} {k : Fin 16}

/-! ## Bytes that no setter wrote -/

/-- Byte `k` of argument `i` is still what calloc made it. -/
def Untouched (M : ArgMap) (i : Nat) (k : Fin 16) : Prop := ∀ d, M i = some d → d.val k = 0

theorem Untouched.getD (untouched : Untouched M i k) : ((M i).getD .zero).val k = 0 := by
  cases here : M i with
  | none => rfl
  | some d => exact untouched d here

theorem Untouched.set {c : SetCall} (untouched : Untouched M i k)
    (short : c.argnum.toInt.toNat = i → c.count ≤ k.val) : Untouched (M.set H c) i k := by
  intro d found
  by_cases here : c.argnum.toInt.toNat = i
  · subst here
    rw [ArgMap.set, Function.update_self, Option.some.injEq] at found
    rw [← found, c.store_val H, copyVal, if_neg (not_lt.mpr (short rfl))]
    exact untouched.getD
  · rw [ArgMap.set, Function.update_of_ne (Ne.symm here)] at found
    exact untouched d found

theorem Untouched.step {op : ArgsOp} {ret : Int} (untouched : Untouched M i k)
    (short : ∀ c, op = .set c → ret = 0 → c.argnum.toInt.toNat = i → c.count ≤ k.val) :
    Untouched (M.step H (op, ret)) i k := by
  cases op with
  | set c =>
    by_cases stored : ret = 0
    · rw [ArgMap.step, if_pos stored]
      exact untouched.set (short c rfl stored)
    · rw [ArgMap.step, if_neg stored]
      exact untouched
  | clear => exact fun d found => absurd found (by simp [ArgMap.step, ArgMap.empty])

theorem Wrote.snoc {trace : List (ArgsOp × Int)} {call : ArgsOp × Int} (wrote : Wrote trace i k)
    (keeps : call.1 ≠ .clear) : Wrote (trace ++ [call]) i k := by
  obtain ⟨before, c, after, rfl, kept, number, wide⟩ := wrote
  refine ⟨before, c, after ++ [call], by simp, fun other member => ?_, number, wide⟩
  rcases List.mem_append.mp member with earlier | last
  · exact kept other earlier
  · exact List.mem_singleton.mp last ▸ keeps

theorem Untouched.steps {trace : List (ArgsOp × Int)} (untouched : Untouched M i k)
    (not : ¬Wrote trace i k) : Untouched (trace.foldl (ArgMap.step H) M) i k := by
  induction trace using List.reverseRecOn with
  | nil => exact untouched
  | append_singleton trace call ih =>
    rw [List.foldl_append, List.foldl_cons, List.foldl_nil]
    obtain ⟨op, ret⟩ := call
    cases op with
    | clear => exact fun d found => absurd found (by simp [ArgMap.step, ArgMap.empty])
    | set c =>
      refine Untouched.step (ih fun wrote => not (wrote.snoc (by simp))) ?_
      rintro c' same rfl number
      obtain rfl := ArgsOp.set.inj same
      by_contra wide
      exact not ⟨trace, c, [], rfl, by simp, number, by omega⟩

/-! ## The records -/

theorem Stored.same {c : SetCall} {behind : Fin 16 → Prop} {d₁ d₂ : VhcallData}
    (stored₁ : Stored H c d₁) (stored₂ : Stored H c d₂)
    (rest : ∀ k : Fin 16, c.count ≤ k.val → ¬behind k → d₁.val k = d₂.val k) :
    SameData behind d₁ d₂ := by
  refine ⟨stored₁.cl.trans stored₂.cl.symm, stored₁.inout.trans stored₂.inout.symm,
    stored₁.size.trans stored₂.size.symm, fun k still => ?_⟩
  by_cases inside : k.val < c.count
  · obtain ⟨_, here₁⟩ := stored₁.value k.val inside
    obtain ⟨_, here₂⟩ := stored₂.value k.val inside
    exact here₁.trans here₂.symm
  · exact rest k (not_lt.mp inside) still

theorem sent_behind {trace : List (ArgsOp × Int)} (not : ¬WroteBehind trace i k)
    (behind : (setterOf (lastSet trace) i).count ≤ k.val) :
    (sent H (trace.foldl (ArgMap.step H) .empty) i).val k = 0 := by
  have untouched : Untouched (trace.foldl (ArgMap.step H) .empty) i k :=
    Untouched.steps (fun d found => absurd found (by simp [ArgMap.empty]))
      (fun wrote => not ⟨behind, wrote⟩)
  rw [sent]
  cases here : trace.foldl (ArgMap.step H) .empty i with
  | none =>
    rw [Option.getD_none, fillerData_val]
    rfl
  | some d => exact untouched d here

theorem SentAs.same {behind : Nat → Fin 16 → Prop} {f₁ f₂ : Nat → VhcallData} {is : List Nat}
    {recs₁ recs₂ : List VhcallData} (sent₁ : SentAs H (is.map f₁) recs₁)
    (sent₂ : SentAs H (is.map f₂) recs₂) (stored₁ : ∀ i, Stored H (setterOf last i) (f₁ i))
    (stored₂ : ∀ i, Stored H (setterOf last i) (f₂ i))
    (rest : ∀ i k, (setterOf last i).count ≤ k.val → ¬behind i k →
      (f₁ i).val k = (f₂ i).val k) :
    SameRecords H last behind is recs₁ recs₂ := by
  induction is generalizing recs₁ recs₂ with
  | nil =>
    cases sent₁
    cases sent₂
    exact .nil
  | cons i is ih =>
    rw [List.map_cons] at sent₁ sent₂
    have cl₁ := (stored₁ i).cl
    have cl₂ := (stored₂ i).cl
    cases sent₁ with
    | plain _ notCdb rest₁ =>
      cases sent₂ with
      | plain _ _ rest₂ =>
        exact .plain i _ _ (cl₁ ▸ notCdb) (stored₁ i).carries
          ((stored₁ i).same (stored₂ i) (rest i)) (ih rest₁ rest₂)
      | complex _ v w cdb rest₂ => exact absurd (cl₁.trans (cl₂.symm.trans cdb)) notCdb
    | complex _ v w cdb rest₁ =>
      cases sent₂ with
      | plain _ notCdb rest₂ => exact absurd (cl₂.trans (cl₁.symm.trans cdb)) notCdb
      | complex _ _ _ _ rest₂ => exact .complex i _ _ _ _ (cl₁ ▸ cdb) (ih rest₁ rest₂)

theorem SameRecords.length_eq {behind : Nat → Fin 16 → Prop} {is : List Nat}
    {recs₁ recs₂ : List VhcallData} (same : SameRecords H last behind is recs₁ recs₂) :
    recs₁.length = recs₂.length := by
  induction same with
  | nil => rfl
  | plain _ _ _ _ _ _ _ ih => rw [List.length_cons, List.length_cons, ih]
  | complex _ _ _ _ _ _ _ ih => simp only [List.length_cons, ih]

/-- For any calls on two new objects of one kind with the same last setters: the system calls,
when there is memory for them, have the same records but for bytes behind a shorter value. -/
theorem last_set_wins (H : VhcallH) (sys : InvokeCall → Int) (symid : Int) (retval : Nat)
    (uninit₁ uninit₂ : VhcallData) (s₀₁ s₀₂ s₁ s₂ s₁' s₂' : Heap) (args₁ args₂ : Nat)
    (argsNum : Int) (created₁ : Created s₀₁ args₁ argsNum s₁)
    (created₂ : Created s₀₂ args₂ argsNum s₂) (ops₁ ops₂ : List ArgsOp)
    (trace₁ trace₂ : List (ArgsOp × Int))
    (ran₁ : runOps H (some args₁) s₁ ops₁ = some (trace₁, s₁'))
    (ran₂ : runOps H (some args₂) s₂ ops₂ = some (trace₂, s₂'))
    (last : lastSet trace₁ = lastSet trace₂) :
    ∃ r₁ r₂, vhcallInvokeWithArgs H sys uninit₁ s₁' symid (some args₁) retval = some r₁ ∧
      vhcallInvokeWithArgs H sys uninit₂ s₂' symid (some args₂) retval = some r₂ ∧
      ((∀ k, s₀₁.grants k = true) → (∀ k, s₀₂.grants k = true) →
        (r₁.issued = none ↔ r₂.issued = none)) ∧
      ∀ call₁ call₂, r₁.issued = some call₁ → r₂.issued = some call₂ →
        call₁.insize = call₂.insize ∧ ∃ m recs₁ recs₂,
          SameRecords H (lastSet trace₁)
            (fun i k => WroteBehind trace₁ i k ∨ WroteBehind trace₂ i k)
            (List.range m) recs₁ recs₂ ∧
          call₁.buffer = recs₁.flatMap H.encode ∧ call₂.buffer = recs₂.flatMap H.encode := by
  obtain ⟨rep₁, fits₁, grants₁⟩ := created₁.ran ran₁
  obtain ⟨rep₂, fits₂, grants₂⟩ := created₂.ran ran₂
  rw [← last] at fits₂
  obtain ⟨m₁, invoked₁, size₁⟩ := rep₁.invoke H sys uninit₁ symid retval created₁.kind
  obtain ⟨m₂, invoked₂, size₂⟩ := rep₂.invoke H sys uninit₂ symid retval created₂.kind
  obtain ⟨r₁, done₁⟩ := invoked₁.ends
  obtain ⟨r₂, done₂⟩ := invoked₂.ends
  rw [done₁] at invoked₁
  rw [done₂] at invoked₂
  have domain : ∀ i, trace₁.foldl (ArgMap.step H) .empty i ≠ none ↔
      trace₂.foldl (ArgMap.step H) .empty i ≠ none := fun i =>
    not_congr ((fits₁.none_iff i).trans (fits₂.none_iff i).symm)
  refine ⟨r₁, r₂, done₁, done₂, fun plenty₁ plenty₂ => ?_, fun call₁ call₂ issued₁ issued₂ => ?_⟩
  · rw [invoked₁.issued_none_iff (fun k => by rw [grants₁, plenty₁]),
      invoked₂.issued_none_iff (fun k => by rw [grants₂, plenty₂]), Misses.congr domain]
  · obtain ⟨ok₁, recs₁, sent₁, rfl⟩ := invoked₁.records issued₁
    obtain ⟨ok₂, recs₂, sent₂, rfl⟩ := invoked₂.records issued₂
    obtain rfl : m₁ = m₂ := size₁.unique size₂ (fun _ => domain) ok₁
    have same : SameRecords H (lastSet trace₁)
        (fun i k => WroteBehind trace₁ i k ∨ WroteBehind trace₂ i k)
        (List.range m₁) recs₁ recs₂ := by
      refine SentAs.same sent₁ sent₂ fits₁.sent fits₂.sent (fun i k behind not => ?_)
      obtain ⟨not₁, not₂⟩ := not_or.mp not
      rw [sent_behind not₁ behind, sent_behind not₂ (last ▸ behind)]
    refine ⟨?_, m₁, recs₁, recs₂, same, rfl, rfl⟩
    rw [same.length_eq]

def shorterTrace : List (ArgsOp × Int) := [(.set (.i64 0 (-1)), 0), (.set (.i8 0 1), 0)]

def onlyTrace : List (ArgsOp × Int) := [(.set (.i8 0 1), 0)]

theorem lastSet_shorter : lastSet shorterTrace = lastSet onlyTrace :=
  Function.update_idem ..

theorem shorterTrace_run : ∃ s', runOps sampleH (some 0) (vhcallArgsAlloc sampleHeap).2
    (shorterTrace.map Prod.fst) = some (shorterTrace, s') := ⟨_, rfl⟩

theorem onlyTrace_run : ∃ s', runOps sampleH (some 0) (vhcallArgsAlloc sampleHeap).2
    (onlyTrace.map Prod.fst) = some (onlyTrace, s') := ⟨_, rfl⟩

theorem last_set_wins_shorter :
    ∃ s₀ s args s₁ s₂, Created s₀ args (-1) s ∧
      runOps sampleH (some args) s (shorterTrace.map Prod.fst) = some (shorterTrace, s₁) ∧
      runOps sampleH (some args) s (onlyTrace.map Prod.fst) = some (onlyTrace, s₂) ∧
      ∃ r₁ r₂,
        vhcallInvokeWithArgs sampleH (fun _ => 0) .zero s₁ 7 (some args) 0 = some r₁ ∧
        vhcallInvokeWithArgs sampleH (fun _ => 0) .zero s₂ 7 (some args) 0 = some r₂ ∧
        ((∀ k, s₀.grants k = true) → (∀ k, s₀.grants k = true) →
          (r₁.issued = none ↔ r₂.issued = none)) ∧
        ∀ call₁ call₂, r₁.issued = some call₁ → r₂.issued = some call₂ →
          call₁.insize = call₂.insize ∧ ∃ m recs₁ recs₂,
            SameRecords sampleH (lastSet shorterTrace)
              (fun i k => WroteBehind shorterTrace i k ∨ WroteBehind onlyTrace i k)
              (List.range m) recs₁ recs₂ ∧
            call₁.buffer = recs₁.flatMap sampleH.encode ∧
            call₂.buffer = recs₂.flatMap sampleH.encode := by
  obtain ⟨s₁, ran₁⟩ := shorterTrace_run
  obtain ⟨s₂, ran₂⟩ := onlyTrace_run
  exact ⟨sampleHeap, (vhcallArgsAlloc sampleHeap).2, 0, s₁, s₂, .alloc rfl, ran₁, ran₂,
    last_set_wins sampleH (fun _ => 0) 7 0 .zero .zero sampleHeap sampleHeap _ _ s₁ s₂ 0 0 (-1)
      (.alloc rfl) (.alloc rfl) _ _ shorterTrace onlyTrace ran₁ ran₂ lastSet_shorter⟩

def sentByte (trace : List (ArgsOp × Int)) : Option Byte := do
  let done ← runOps sampleH (some 0) (vhcallArgsAlloc sampleHeap).2 (trace.map Prod.fst)
  let r ← vhcallInvokeWithArgs sampleH (fun _ => 0) .zero done.2 7 (some 0) 0
  let buffer ← r.issued.map InvokeCall.buffer
  buffer[1]?

/-- The other seven bytes of the first setter are still sent. -/
theorem last_set_leaves_bytes :
    ¬ ∀ s₀₁ s₀₂ s₁ s₂ args₁ args₂ argsNum, Created s₀₁ args₁ argsNum s₁ →
      Created s₀₂ args₂ argsNum s₂ → ∀ ops₁ ops₂ trace₁ trace₂ s₁' s₂',
      runOps sampleH (some args₁) s₁ ops₁ = some (trace₁, s₁') →
      runOps sampleH (some args₂) s₂ ops₂ = some (trace₂, s₂') →
      (∀ call ∈ trace₁ ++ trace₂, (∃ c, call.1 = .set c) ∧ call.2 = 0) →
      lastSet trace₁ = lastSet trace₂ →
      (∀ i c, lastSet trace₁ i = some c → c.cl sampleH ≠ sampleH.classCdb) →
      ∀ r₁ r₂, vhcallInvokeWithArgs sampleH (fun _ => 0) .zero s₁' 7 (some args₁) 0 = some r₁ →
        vhcallInvokeWithArgs sampleH (fun _ => 0) .zero s₂' 7 (some args₂) 0 = some r₂ →
        r₁.issued.map InvokeCall.buffer = r₂.issued.map InvokeCall.buffer := by
  intro always
  obtain ⟨s₁, ran₁⟩ := shorterTrace_run
  obtain ⟨s₂, ran₂⟩ := onlyTrace_run
  have first : sentByte shorterTrace = some 255 := by decide +kernel
  have second : sentByte onlyTrace = some 0 := by decide +kernel
  simp only [sentByte, ran₁, Option.bind_eq_bind, Option.bind_some] at first
  simp only [sentByte, ran₂, Option.bind_eq_bind, Option.bind_some] at second
  obtain ⟨r₁, done₁, byte₁⟩ := Option.bind_eq_some_iff.mp first
  obtain ⟨r₂, done₂, byte₂⟩ := Option.bind_eq_some_iff.mp second
  have stored : ∀ call ∈ shorterTrace ++ onlyTrace, (∃ c, call.1 = .set c) ∧ call.2 = 0 := by
    simp [shorterTrace, onlyTrace]
  have plain : ∀ i c, lastSet shorterTrace i = some c → c.cl sampleH ≠ sampleH.classCdb := by
    intro i c here
    rw [lastSet_shorter] at here
    change Function.update (fun _ => none) 0 (some (.i8 0 1)) i = some c at here
    by_cases first : i = 0
    · rw [first, Function.update_self, Option.some.injEq] at here
      rw [← here]
      decide
    · rw [Function.update_of_ne first] at here
      exact absurd here (by simp)
  have same := always sampleHeap sampleHeap _ _ 0 0 (-1) (.alloc rfl) (.alloc rfl) _ _ _ _ s₁ s₂
    ran₁ ran₂ stored lastSet_shorter plain r₁ r₂ done₁ done₂
  rw [same, byte₂] at byte₁
  exact absurd byte₁ (by decide)

end Libsysve.Vhcall
