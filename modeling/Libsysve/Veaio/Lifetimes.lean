import Mathlib.Data.Fintype.Basic
import Libsysve.Veaio.OneInFlight
import Libsysve.Veaio.Process

/-!
# Contexts live apart

What happens to a context between `calloc` and `free` is a run of the machine of one context,
whatever the other contexts do, as long as calls use contexts that `ve_aio_init` has returned and
`ve_aio_fini` gets a context no thread is in a call on.  A request in flight keeps `ve_aio_fini`
from releasing the context, so VH never writes a result to memory that was released.
-/

set_option autoImplicit false

namespace Libsysve.Veaio

variable {Context Thread : Type}

/-! ## When a context is busy -/

/-- A busy context has a request in flight, or a thread between its two sections. -/
def Engaged (x : AioState Thread) : Prop :=
  x.result.active = true → x.flight ≠ [] ∨ ∃ t, (x.call t).holdsMark = true

section
variable [DecidableEq Thread] {x x' : AioState Thread} {t : Thread} {call : AioCall}
  {label : AioLabel Thread} {code : Option AioReturn}

theorem Engaged.setCall (engaged : Engaged x) (same : call.holdsMark = (x.call t).holdsMark) :
    Engaged (x.setCall t call) := by
  intro active
  rcases engaged active with flying | ⟨t', holds⟩
  · exact .inl flying
  · refine .inr ⟨t', ?_⟩
    by_cases here : t' = t
    · rw [here, AioState.setCall_self, same, ← here]
      exact holds
    · rw [AioState.setCall_other here]
      exact holds

theorem Engaged.step (engaged : Engaged x) (effect : Effect x label code x') : Engaged x' := by
  cases effect with
  | nullContext t outside => exact engaged
  | submitBusy t request outside busy => exact engaged
  | submit t request outside free =>
    exact fun _ => .inr ⟨t, by rw [AioState.setCall_self]; rfl⟩
  | accept t request here => exact fun _ => .inl (by simp)
  | reject t request errno here => exact engaged.setCall (by rw [here]; rfl)
  | submitted t here => exact engaged.setCall (by rw [here]; rfl)
  | unmark t errno here => exact fun never => absurd never Bool.false_ne_true
  | complete request retval errnoval flying => exact fun never => absurd never Bool.false_ne_true
  | queryBusy t out outside busy => exact engaged
  | query t out outside free => exact engaged.setCall (by rw [outside]; rfl)
  | waitBusy t out outside busy => exact engaged.setCall (by rw [outside]; rfl)
  | wait t out outside free => exact engaged.setCall (by rw [outside]; rfl)
  | waitFail t out code errno here fails => exact engaged.setCall (by rw [here]; rfl)
  | waitReturn t out errno here => exact engaged.setCall (by rw [here]; rfl)
  | waitCheckBusy t out here busy => exact engaged.setCall (by rw [here]; rfl)
  | waitCheck t out here free => exact engaged.setCall (by rw [here]; rfl)
  | readRetval t out here => exact engaged.setCall (by rw [here]; rfl)
  | readErrnoval t out retval here => exact engaged.setCall (by rw [here]; rfl)

theorem engaged_of_run {trace : List (AioEntry Thread)}
    (run : (aioMachine Thread).Run .initial trace x) : MarkInv x ∧ Engaged x := by
  induction run with
  | nil => exact ⟨markInv_initial, fun never => absurd never Bool.false_ne_true⟩
  | snoc ran stepped ih =>
    have effect := aioStep_effect stepped
    exact ⟨ih.1.step effect, ih.2.step effect⟩

/-- A context on which no thread is in a call is busy exactly while it has a request in flight. -/
theorem busy_iff_flying {trace : List (AioEntry Thread)}
    (run : (aioMachine Thread).Run .initial trace x) (outside : ∀ t, x.call t = .outside) :
    x.result.active = true ↔ x.flight ≠ [] := by
  obtain ⟨mark, engaged⟩ := engaged_of_run run
  refine ⟨fun busy => ?_, mark.flying⟩
  rcases engaged busy with flying | ⟨t, holds⟩
  · exact flying
  · rw [outside t] at holds
    exact absurd holds Bool.false_ne_true

theorem aioStep_others (effect : Effect x label code x') {t' : Thread}
    (other : ∀ t ∈ label.thread, t' ≠ t) : x'.call t' = x.call t' := by
  cases effect with
  | nullContext t outside => rfl
  | submitBusy t request outside busy => rfl
  | queryBusy t out outside busy => rfl
  | complete request retval errnoval flying => rfl
  | submit t request outside free => exact AioState.setCall_other (other t rfl)
  | accept t request here => exact AioState.setCall_other (other t rfl)
  | reject t request errno here => exact AioState.setCall_other (other t rfl)
  | submitted t here => exact AioState.setCall_other (other t rfl)
  | unmark t errno here => exact AioState.setCall_other (other t rfl)
  | query t out outside free => exact AioState.setCall_other (other t rfl)
  | waitBusy t out outside busy => exact AioState.setCall_other (other t rfl)
  | wait t out outside free => exact AioState.setCall_other (other t rfl)
  | waitFail t out code errno here fails => exact AioState.setCall_other (other t rfl)
  | waitReturn t out errno here => exact AioState.setCall_other (other t rfl)
  | waitCheckBusy t out here busy => exact AioState.setCall_other (other t rfl)
  | waitCheck t out here free => exact AioState.setCall_other (other t rfl)
  | readRetval t out here => exact AioState.setCall_other (other t rfl)
  | readErrnoval t out retval here => exact AioState.setCall_other (other t rfl)

theorem flying_of_host (effect : Effect x label code x') (host : label.thread = none) :
    x.flight ≠ [] := by
  cases effect with
  | complete request retval errnoval flying => exact List.ne_nil_of_mem flying
  | _ => exact absurd host (by simp [AioLabel.thread])

end

/-! ## The lifetime of a context -/

/-- `handed` are the contexts that `ve_aio_init` has returned and `ve_aio_fini` is not releasing;
`lifetime` are the steps on a context since `calloc` gave it. -/
structure AioHistory (Context Thread : Type) where
  handed : Context → Bool
  lifetime : Context → List (AioEntry Thread)

def AioHistory.blank : AioHistory Context Thread where
  handed _ := false
  lifetime _ := []

def AioProcessReturn.ofCall : AioProcessReturn Context → Option AioReturn
  | .call ret => some ret
  | _ => none

section
variable [DecidableEq Context]

def AioHistory.snoc (r : AioHistory Context Thread) (c : Context) (step : AioEntry Thread) :
    AioHistory Context Thread :=
  { r with lifetime := Function.update r.lifetime c (r.lifetime c ++ [step]) }

def AioHistory.clear (r : AioHistory Context Thread) (c : Context) : AioHistory Context Thread :=
  { r with lifetime := Function.update r.lifetime c [] }

def AioHistory.setHanded (r : AioHistory Context Thread) (c : Context) (handed : Bool) :
    AioHistory Context Thread :=
  { r with handed := Function.update r.handed c handed }

def observeHistory (r : AioHistory Context Thread) (e : AioProcessEntry Context Thread) :
    AioHistory Context Thread :=
  match e.label, e.out with
  | .call c label, out =>
    r.snoc c ⟨e.before.context c, label, out.bind AioProcessReturn.ofCall, e.after.context c⟩
  | .calloc _ (some c), _ => r.clear c
  | .mutexInit _ _, some (.context c) => r.setHanded c true
  | .fini _ c, none => r.setHanded c false
  | _, _ => r

/-- A call starts on a context that was returned, and `ve_aio_fini` gets one that no thread is in
a call on. -/
def UsesHanded (r : AioHistory Context Thread) (e : AioProcessEntry Context Thread) : Prop :=
  match e.label with
  | .call c label => ∀ t ∈ label.thread, e.before.point t = .outside → r.handed c = true
  | .fini _ c => r.handed c = true ∧ ∀ t, e.before.point t ≠ .call c
  | _ => True

/-- The context whose memory a step reads or writes. -/
def AioProcess.touched (s : AioProcess Context Thread) :
    AioProcessLabel Context Thread → Option Context
  | .call c _ | .fini _ c => some c
  | .mutexInit t _ | .initFree t | .finiFree t => (s.point t).unshared
  | _ => none

/-- No step touches memory that is not allocated, and `ve_aio_fini` refuses exactly a context
with a request in flight. -/
structure Lived (e : AioProcessEntry Context Thread) : Prop where
  touches : ∀ c, e.before.touched e.label = some c → e.before.allocated c = true
  refused : ∀ t c, e.label = .fini t c →
    (e.out = some (.call (.fail (-1) ebusy)) ↔ (e.before.context c).flight ≠ [])

end

section
variable [DecidableEq Context] {r : AioHistory Context Thread} {c d : Context} {handed : Bool}
  {step : AioEntry Thread}

@[simp] theorem AioHistory.snoc_self : (r.snoc c step).lifetime c = r.lifetime c ++ [step] :=
  Function.update_self ..

theorem AioHistory.snoc_other (other : d ≠ c) : (r.snoc c step).lifetime d = r.lifetime d :=
  Function.update_of_ne other ..

@[simp] theorem AioHistory.clear_self : (r.clear c).lifetime c = [] := Function.update_self ..

theorem AioHistory.clear_other (other : d ≠ c) : (r.clear c).lifetime d = r.lifetime d :=
  Function.update_of_ne other ..

@[simp] theorem AioHistory.setHanded_self : (r.setHanded c handed).handed c = handed :=
  Function.update_self ..

theorem AioHistory.setHanded_other (other : d ≠ c) :
    (r.setHanded c handed).handed d = r.handed d := Function.update_of_ne other ..

end

structure LifeInv [DecidableEq Thread] (r : AioHistory Context Thread)
    (s : AioProcess Context Thread) : Prop where
  run : ∀ c, s.allocated c = true →
    (aioMachine Thread).Run .initial (r.lifetime c) (s.context c)
  handed : ∀ c, r.handed c = true → s.allocated c = true
  quiet : ∀ c, r.handed c = false →
    (s.context c).flight = [] ∧ ∀ t, (s.context c).call t = .outside
  calling : ∀ t c, s.point t = .call c ↔ (s.context c).call t ≠ .outside
  unshared : ∀ t c, (s.point t).unshared = some c → s.allocated c = true ∧ r.handed c = false
  one : ∀ t t' c, (s.point t).unshared = some c → (s.point t').unshared = some c → t = t'
  fresh : ∀ t c, s.point t = .mutexInit c → r.lifetime c = [] ∧ s.context c = .initial

variable [DecidableEq Thread] {r : AioHistory Context Thread} {s s' : AioProcess Context Thread}
  {t : Thread} {p : AioPoint Context} {c : Context} {x : AioState Thread}
  {label : AioProcessLabel Context Thread} {ret : Option (AioProcessReturn Context)}

theorem lifeInv_initial :
    LifeInv (.blank : AioHistory Context Thread) (.initial : AioProcess Context Thread) where
  run _ allocated := absurd allocated Bool.false_ne_true
  handed _ handed := absurd handed Bool.false_ne_true
  quiet _ _ := ⟨rfl, fun _ => rfl⟩
  calling _ _ := ⟨fun here => absurd here (by simp [AioProcess.initial]), fun ne => absurd rfl ne⟩
  unshared _ _ here := absurd here (by simp [AioProcess.initial, AioPoint.unshared])
  one _ _ _ here := absurd here (by simp [AioProcess.initial, AioPoint.unshared])
  fresh _ _ here := absurd here (by simp [AioProcess.initial])

theorem LifeInv.setup (inv : LifeInv r s) (lock : Bool) (setup : Int) (ready : Nat) :
    LifeInv r { s with veAioSetupLock := lock, veAioSetup := setup, ready := ready } :=
  ⟨inv.run, inv.handed, inv.quiet, inv.calling, inv.unshared, inv.one, inv.fresh⟩

theorem LifeInv.setPoint (inv : LifeInv r s) (before : ∀ c, s.point t ≠ .call c)
    (after : ∀ c, p ≠ .call c)
    (unshared : ∀ c, p.unshared = some c → (s.point t).unshared = some c)
    (fresh : ∀ c, p = .mutexInit c → s.point t = .mutexInit c) : LifeInv r (s.setPoint t p) := by
  have fewer : ∀ t' c, ((s.setPoint t p).point t').unshared = some c →
      (s.point t').unshared = some c := by
    intro t' c here
    rcases s.setPoint_cases t p t' with ⟨rfl, now⟩ | ⟨_, now⟩
    · exact unshared c (now ▸ here)
    · rwa [now] at here
  refine ⟨inv.run, inv.handed, inv.quiet, fun t' c => ?_, fun t' c here =>
    inv.unshared t' c (fewer t' c here), fun t₁ t₂ c here here' =>
    inv.one t₁ t₂ c (fewer t₁ c here) (fewer t₂ c here'), fun t' c here => ?_⟩
  · rcases s.setPoint_cases t p t' with ⟨rfl, now⟩ | ⟨_, now⟩
    · rw [now]
      exact ⟨fun here => absurd here (after c),
        fun inside => absurd ((inv.calling t' c).mpr inside) (before c)⟩
    · rw [now]
      exact inv.calling t' c
  · rcases s.setPoint_cases t p t' with ⟨rfl, now⟩ | ⟨_, now⟩
    · exact inv.fresh t' c (fresh c (now ▸ here))
    · exact inv.fresh t' c (now ▸ here)

/-- The thread is in no call on a context and has none to itself. -/
def AioPoint.bare : AioPoint Context → Bool
  | .call _ | .mutexInit _ | .initFree _ | .finiFree _ => false
  | _ => true

theorem LifeInv.setBare (inv : LifeInv r s) (before : ∀ c, s.point t ≠ .call c)
    (bare : p.bare = true) : LifeInv r (s.setPoint t p) := by
  refine inv.setPoint before (fun c => ?_) (fun c has => ?_) (fun c fresh => ?_)
  · rintro rfl
    exact absurd bare Bool.false_ne_true
  · cases p with
    | mutexInit | initFree | finiFree => exact absurd bare Bool.false_ne_true
    | _ => exact absurd has (by simp [AioPoint.unshared])
  · rw [fresh] at bare
    exact absurd bare Bool.false_ne_true

theorem LifeInv.outside (inv : LifeInv r s) (unhanded : r.handed c = false) (t : Thread) :
    s.point t ≠ .call c :=
  fun here => (inv.calling t c).mp here ((inv.quiet c unhanded).2 t)

variable [DecidableEq Context]

def AioPoint.On (c : Context) (p : AioPoint Context) : Prop := p = .outside ∨ p = .call c

omit [DecidableEq Context] in
theorem AioPoint.On.unshared (on : p.On c) : p.unshared = none := by
  rcases on with rfl | rfl <;> rfl

theorem LifeInv.moved {step : AioLabel Thread} {code : Option AioReturn} (inv : LifeInv r s)
    (handed : r.handed c = true) (stepped : aioStep (s.context c) step = some (code, x))
    {point : Thread → AioPoint Context}
    (moves : ∀ t, point t = s.point t ∨ (s.point t).On c ∧ (point t).On c)
    (calling : ∀ t, point t = .call c ↔ x.call t ≠ .outside) :
    LifeInv (r.snoc c ⟨s.context c, step, code, x⟩)
      { s with context := Function.update s.context c x, point := point } := by
  have fewer : ∀ t d, (point t).unshared = some d → (s.point t).unshared = some d := by
    intro t d here
    rcases moves t with same | ⟨_, on⟩
    · rwa [same] at here
    · exact absurd (on.unshared.symm.trans here) (by simp)
  refine ⟨fun d allocated => ?_, inv.handed, fun d quiet => ?_, fun t d => ?_, fun t d here =>
    inv.unshared t d (fewer t d here), fun t t' d here here' =>
    inv.one t t' d (fewer t d here) (fewer t' d here'), fun t d here => ?_⟩
  · by_cases this : d = c
    · subst this
      rw [AioHistory.snoc_self]
      simp only [Function.update_self]
      exact (inv.run d allocated).snoc stepped
    · rw [AioHistory.snoc_other this]
      simp only [Function.update_of_ne this]
      exact inv.run d allocated
  · have other : d ≠ c := fun same => Bool.false_ne_true (quiet.symm.trans (same ▸ handed))
    simp only [Function.update_of_ne other]
    exact inv.quiet d quiet
  · by_cases this : d = c
    · subst this
      simp only [Function.update_self]
      exact calling t
    · simp only [Function.update_of_ne this]
      rw [← inv.calling t d]
      rcases moves t with same | ⟨was, now⟩
      · rw [same]
      · constructor
        · intro here
          rcases now with now | now <;> rw [now] at here
          · exact absurd here (by simp)
          · exact absurd (AioPoint.call.inj here).symm this
        · intro here
          rcases was with was | was <;> rw [was] at here
          · exact absurd here (by simp)
          · exact absurd (AioPoint.call.inj here).symm this
  · have before : s.point t = .mutexInit d := by
      rcases moves t with same | ⟨_, on⟩
      · rw [← same]
        exact here
      · have at' : point t = .mutexInit d := here
        rw [at'] at on
        exact absurd on.unshared (by simp [AioPoint.unshared])
    have unhanded := (inv.unshared t d (by rw [before]; rfl)).2
    have other : d ≠ c := fun same => Bool.false_ne_true (unhanded.symm.trans (same ▸ handed))
    rw [AioHistory.snoc_other other]
    simp only [Function.update_of_ne other]
    exact inv.fresh t d before

theorem LifeInv.call {step : AioLabel Thread} {code : Option AioReturn} (inv : LifeInv r s)
    (handed : r.handed c = true) (stepped : aioStep (s.context c) step = some (code, x))
    (actor : step.thread = some t) (here : (s.point t).On c) :
    LifeInv (r.snoc c ⟨s.context c, step, code, x⟩)
      ((s.setContext c x).setPoint t (if x.call t = .outside then .outside else .call c)) := by
  refine inv.moved handed stepped (fun t' => ?_) (fun t' => ?_)
  · by_cases this : t' = t
    · refine .inr ⟨this ▸ here, ?_⟩
      rw [this, Function.update_self]
      split
      · exact .inl rfl
      · exact .inr rfl
    · exact .inl (Function.update_of_ne this ..)
  · by_cases this : t' = t
    · rw [this, Function.update_self]
      by_cases outside : x.call t = .outside
      · simp [outside]
      · simp [outside]
    · have same : x.call t' = (s.context c).call t' := by
        refine aioStep_others (aioStep_effect stepped) (fun u acts => ?_)
        rw [actor] at acts
        exact Option.some.inj acts ▸ this
      rw [Function.update_of_ne this, same]
      exact inv.calling t' c

theorem LifeInv.host {step : AioLabel Thread} {code : Option AioReturn} (inv : LifeInv r s)
    (stepped : aioStep (s.context c) step = some (code, x)) (host : step.thread = none) :
    r.handed c = true ∧ LifeInv (r.snoc c ⟨s.context c, step, code, x⟩) (s.setContext c x) := by
  have effect := aioStep_effect stepped
  have handed : r.handed c = true := by
    by_contra unhanded
    exact flying_of_host effect host (inv.quiet c (eq_false_of_ne_true unhanded)).1
  refine ⟨handed, inv.moved handed stepped (fun t => .inl rfl) (fun t => ?_)⟩
  rw [aioStep_others effect (fun u acts => absurd (host.symm.trans acts) (by simp))]
  exact inv.calling t c

/-! ## From `calloc` to `free` -/

omit [DecidableEq Context] [DecidableEq Thread] in
theorem initial_of_quiet {x : AioState Thread}
    (quiet : x.flight = [] ∧ ∀ t, x.call t = .outside) :
    { x with result := .initial } = .initial := by
  obtain ⟨result, flight, call⟩ := x
  obtain ⟨rfl, outside⟩ := quiet
  obtain rfl : call = fun _ => .outside := funext outside
  rfl

omit [DecidableEq Thread] in
theorem AioProcess.storeResult_initial (initial : s.context c = .initial) :
    s.storeResult c = s := by
  have same : { s.context c with result := .initial } = s.context c := by rw [initial]; rfl
  rw [AioProcess.storeResult, same, AioProcess.setContext, Function.update_eq_self]

theorem LifeInv.allocate (inv : LifeInv r s) (free : s.allocated c = false) :
    LifeInv (r.clear c)
      ((s.setAllocated c true).storeResult c) := by
  have unhanded : r.handed c = false :=
    eq_false_of_ne_true (fun handed => Bool.false_ne_true (free.symm.trans (inv.handed c handed)))
  have cleared : ((s.setAllocated c true).storeResult c).context c = .initial := by
    rw [AioProcess.storeResult, AioProcess.setContext_self]
    exact initial_of_quiet (inv.quiet c unhanded)
  have others : ∀ d, d ≠ c → ((s.setAllocated c true).storeResult c).context d = s.context d :=
    fun d other => AioProcess.setContext_other other
  refine ⟨fun d allocated => ?_, fun d handed => ?_, fun d quiet => ?_, fun t d => ?_,
    fun t d here => ⟨?_, (inv.unshared t d here).2⟩, inv.one, fun t d here => ?_⟩
  · by_cases this : d = c
    · rw [this, cleared, AioHistory.clear_self]
      exact Machine.Run.nil
    · rw [others d this, AioHistory.clear_other this]
      refine inv.run d ?_
      rwa [← AioProcess.setAllocated_other this]
  · by_cases this : d = c
    · exact this ▸ AioProcess.setAllocated_self
    · exact (AioProcess.setAllocated_other this).trans (inv.handed d handed)
  · by_cases this : d = c
    · rw [this, cleared]
      exact ⟨rfl, fun _ => rfl⟩
    · rw [others d this]
      exact inv.quiet d quiet
  · by_cases this : d = c
    · rw [this, cleared]
      exact ⟨fun here => absurd here (inv.outside unhanded t), fun inside => absurd rfl inside⟩
    · rw [others d this]
      exact inv.calling t d
  · by_cases this : d = c
    · exact this ▸ AioProcess.setAllocated_self
    · exact (AioProcess.setAllocated_other this).trans (inv.unshared t d here).1
  · have other : d ≠ c := by
      rintro rfl
      have allocated := (inv.unshared t d (by rw [show s.point t = .mutexInit d from here]; rfl)).1
      exact Bool.false_ne_true (free.symm.trans allocated)
    rw [others d other, AioHistory.clear_other other]
    exact inv.fresh t d here

omit [DecidableEq Context] in
theorem LifeInv.take (inv : LifeInv r s) (before : ∀ d, s.point t ≠ .call d)
    (takes : p.unshared = some c) (allocated : s.allocated c = true) (unhanded : r.handed c = false)
    (nobody : ∀ t', (s.point t').unshared ≠ some c)
    (fresh : p = .mutexInit c → r.lifetime c = [] ∧ s.context c = .initial) :
    LifeInv r (s.setPoint t p) := by
  have taken : ∀ d, p.unshared = some d → d = c := fun d has =>
    Option.some.inj (has.symm.trans takes)
  have after : ∀ d, p ≠ .call d := by
    rintro d rfl
    exact absurd takes (by simp [AioPoint.unshared])
  refine ⟨inv.run, inv.handed, inv.quiet, fun t' d => ?_, fun t' d here => ?_,
    fun t₁ t₂ d here here' => ?_, fun t' d here => ?_⟩
  · rcases s.setPoint_cases t p t' with ⟨rfl, now⟩ | ⟨_, now⟩
    · rw [now]
      exact ⟨fun here => absurd here (after d),
        fun inside => absurd ((inv.calling t' d).mpr inside) (before d)⟩
    · rw [now]
      exact inv.calling t' d
  · rcases s.setPoint_cases t p t' with ⟨_, now⟩ | ⟨_, now⟩
    · rw [taken d (now ▸ here)]
      exact ⟨allocated, unhanded⟩
    · exact inv.unshared t' d (now ▸ here)
  · rcases s.setPoint_cases t p t₁ with ⟨same, now⟩ | ⟨_, now⟩
    · rcases s.setPoint_cases t p t₂ with ⟨same', _⟩ | ⟨_, now'⟩
      · exact same.trans same'.symm
      · rw [taken d (now ▸ here)] at here'
        exact absurd (now' ▸ here') (nobody t₂)
    · rcases s.setPoint_cases t p t₂ with ⟨_, now'⟩ | ⟨_, now'⟩
      · rw [taken d (now' ▸ here')] at here
        exact absurd (now ▸ here) (nobody t₁)
      · exact inv.one t₁ t₂ d (now ▸ here) (now' ▸ here')
  · rcases s.setPoint_cases t p t' with ⟨_, now⟩ | ⟨_, now⟩
    · rw [now] at here
      have same := taken d (by rw [here]; rfl)
      subst same
      exact fresh here
    · exact inv.fresh t' d (now ▸ here)

omit [DecidableEq Context] in
theorem LifeInv.nobody (inv : LifeInv r s) (has : (s.point t).unshared = some c)
    (gives : p.unshared = none) (t' : Thread) : ((s.setPoint t p).point t').unshared ≠ some c := by
  intro here
  rcases s.setPoint_cases t p t' with ⟨_, now⟩ | ⟨other, now⟩
  · rw [now, gives] at here
    exact absurd here (by simp)
  · exact other (inv.one t' t c (now ▸ here) has)

theorem LifeInv.hand (inv : LifeInv r s) (allocated : s.allocated c = true)
    (nobody : ∀ t, (s.point t).unshared ≠ some c) :
    LifeInv (r.setHanded c true) s := by
  refine ⟨inv.run, fun d handed => ?_, fun d quiet => ?_, inv.calling, fun t d here => ?_, inv.one,
    inv.fresh⟩
  · by_cases this : d = c
    · exact this ▸ allocated
    · exact inv.handed d (by rwa [AioHistory.setHanded_other this] at handed)
  · by_cases this : d = c
    · rw [this, AioHistory.setHanded_self] at quiet
      exact absurd quiet (by simp)
    · exact inv.quiet d (by rwa [AioHistory.setHanded_other this] at quiet)
  · have other : d ≠ c := fun same => nobody t (same ▸ here)
    rw [AioHistory.setHanded_other other]
    exact inv.unshared t d here

theorem LifeInv.unhand (inv : LifeInv r s)
    (quiet : (s.context c).flight = [] ∧ ∀ t, (s.context c).call t = .outside) :
    LifeInv (r.setHanded c false) s := by
  refine ⟨inv.run, fun d handed => ?_, fun d unhanded => ?_, inv.calling, fun t d here => ?_,
    inv.one, inv.fresh⟩
  · by_cases this : d = c
    · rw [this, AioHistory.setHanded_self] at handed
      exact absurd handed (by simp)
    · exact inv.handed d (by rwa [AioHistory.setHanded_other this] at handed)
  · by_cases this : d = c
    · exact this ▸ quiet
    · exact inv.quiet d (by rwa [AioHistory.setHanded_other this] at unhanded)
  · refine ⟨(inv.unshared t d here).1, ?_⟩
    by_cases this : d = c
    · rw [this, AioHistory.setHanded_self]
    · rw [AioHistory.setHanded_other this]
      exact (inv.unshared t d here).2

theorem LifeInv.release (inv : LifeInv r s) (unhanded : r.handed c = false)
    (nobody : ∀ t, (s.point t).unshared ≠ some c) : LifeInv r (s.setAllocated c false) := by
  refine ⟨fun d allocated => ?_, fun d handed => ?_, inv.quiet, inv.calling, fun t d here => ?_,
    inv.one, inv.fresh⟩
  · by_cases this : d = c
    · rw [this, AioProcess.setAllocated_self] at allocated
      exact absurd allocated (by simp)
    · exact inv.run d (by rwa [AioProcess.setAllocated_other this] at allocated)
  · have other : d ≠ c := fun same => Bool.false_ne_true (unhanded.symm.trans (same ▸ handed))
    exact (AioProcess.setAllocated_other other).trans (inv.handed d handed)
  · have other : d ≠ c := fun same => nobody t (same ▸ here)
    rw [AioProcess.setAllocated_other other]
    exact inv.unshared t d here

/-! ## Steps and runs -/

omit [DecidableEq Context] in
theorem ofCall_map (code : Option AioReturn) :
    ((code.map .call : Option (AioProcessReturn Context)).bind AioProcessReturn.ofCall) = code := by
  cases code <;> rfl

omit [DecidableEq Context] in
theorem LifeInv.idle (inv : LifeInv r s) (handed : r.handed c = true)
    (outside : ∀ t, s.point t ≠ .call c) :
    ((s.context c).result.active = true ↔ (s.context c).flight ≠ []) ∧
      ∀ t, (s.context c).call t = .outside := by
  have calls : ∀ t, (s.context c).call t = .outside := fun t => by
    by_contra inside
    exact outside t ((inv.calling t c).mpr inside)
  exact ⟨busy_iff_flying (inv.run c (inv.handed c handed)) calls, calls⟩

omit [DecidableEq Context] in
theorem LifeInv.inCall (inv : LifeInv r s) (here : s.point t = .call c) : r.handed c = true := by
  by_contra unhanded
  exact (inv.calling t c).mp here ((inv.quiet c (eq_false_of_ne_true unhanded)).2 t)

theorem LifeInv.finished (inv : LifeInv r s) (has : (s.point t).unshared = some c) :
    LifeInv r ((s.setAllocated c false).setPoint t .outside) := by
  have before : ∀ d, s.point t ≠ .call d := fun d here => by
    rw [here] at has
    exact absurd has (by simp [AioPoint.unshared])
  exact (inv.setBare before rfl).release (inv.unshared t c has).2 (inv.nobody has rfl)

theorem LifeInv.step (inv : LifeInv r s) (effect : ProcessEffect s label ret s')
    (uses : UsesHanded r ⟨s, label, ret, s'⟩) :
    LifeInv (observeHistory r ⟨s, label, ret, s'⟩) s' := by
  cases effect with
  | nullContext t outside => exact inv
  | host c step code after stepped host =>
    have next := (inv.host stepped host).2
    simp only [observeHistory, ofCall_map, AioProcess.setContext_self]
    exact next
  | call c step code after t stepped actor here =>
    have handed : r.handed c = true := here.elim (uses t actor) inv.inCall
    have next := inv.call handed stepped actor here
    simp only [observeHistory, ofCall_map, AioProcess.setPoint_context, AioProcess.setContext_self]
    exact next
  | lockSetup t outside free =>
    exact (inv.setup true s.veAioSetup s.ready).setBare (fun c => by simp [outside]) rfl
  | testSetup t here =>
    refine inv.setBare (fun c => by simp [here]) ?_
    split <;> rfl
  | aio2InitFail t code errno here fails => exact inv.setBare (fun c => by simp [here]) rfl
  | aio2Init t errno here =>
    exact (inv.setup s.veAioSetupLock (s.veAioSetup + 1) (s.ready + 1)).setBare
      (fun c => by simp [here]) rfl
  | unlockSetup t here =>
    exact (inv.setup false s.veAioSetup s.ready).setBare (fun c => by simp [here]) rfl
  | unlockSetupFail t errno here =>
    exact (inv.setup false s.veAioSetup s.ready).setBare (fun c => by simp [here]) rfl
  | callocFail t here => exact inv.setBare (fun c => by simp [here]) rfl
  | calloc t c here free =>
    have unhanded : r.handed c = false := eq_false_of_ne_true
      (fun handed => Bool.false_ne_true (free.symm.trans (inv.handed c handed)))
    refine (inv.allocate free).take (fun d => ?_) rfl AioProcess.setAllocated_self unhanded
      (fun t' has => ?_) (fun _ => ⟨AioHistory.clear_self, ?_⟩)
    · simp [AioProcess.storeResult, AioProcess.setContext, AioProcess.setAllocated, here]
    · exact Bool.false_ne_true (free.symm.trans (inv.unshared t' c has).1)
    · rw [AioProcess.storeResult, AioProcess.setContext_self]
      exact initial_of_quiet (inv.quiet c unhanded)
  | mutexInitFail t c code here fails =>
    exact inv.setPoint (fun d => by simp [here]) (fun d => by simp)
      (fun d has => by rw [here]; exact has) (fun d never => absurd never (by simp))
  | mutexInit t c here =>
    have has : (s.point t).unshared = some c := by rw [here]; rfl
    rw [AioProcess.storeResult_initial (inv.fresh t c here).2]
    exact (inv.setBare (fun d => by simp [here]) rfl).hand (inv.unshared t c has).1
      (inv.nobody has rfl)
  | initFree t c here => exact inv.finished (by rw [here]; rfl)
  | finiBusy t c outside busy => exact inv
  | fini t c outside idle =>
    obtain ⟨handed, free⟩ := uses
    obtain ⟨busy, calls⟩ := inv.idle handed free
    have landed : (s.context c).flight = [] := by
      by_contra flying
      exact Bool.false_ne_true (idle.symm.trans (busy.mpr flying))
    refine (inv.unhand ⟨landed, calls⟩).take (fun d => by simp [outside]) rfl
      (inv.handed c handed) AioHistory.setHanded_self (fun t' has => ?_)
      (fun never => absurd never (by simp))
    exact Bool.false_ne_true ((inv.unshared t' c has).2.symm.trans handed)
  | finiFree t c here => exact inv.finished (by rw [here]; rfl)

theorem LifeInv.lived (inv : LifeInv r s) (effect : ProcessEffect s label ret s')
    (uses : UsesHanded r ⟨s, label, ret, s'⟩) : Lived ⟨s, label, ret, s'⟩ where
  touches c touched := by
    cases effect with
    | host d step code after stepped host =>
      obtain rfl : d = c := Option.some.inj touched
      exact inv.handed d (inv.host stepped host).1
    | call d step code after t stepped actor here =>
      obtain rfl : d = c := Option.some.inj touched
      exact inv.handed d (here.elim (uses t actor) inv.inCall)
    | finiBusy t d outside busy =>
      obtain rfl : d = c := Option.some.inj touched
      exact inv.handed d uses.1
    | fini t d outside idle =>
      obtain rfl : d = c := Option.some.inj touched
      exact inv.handed d uses.1
    | mutexInitFail t d code here fails => exact (inv.unshared t c touched).1
    | mutexInit t d here => exact (inv.unshared t c touched).1
    | initFree t d here => exact (inv.unshared t c touched).1
    | finiFree t d here => exact (inv.unshared t c touched).1
    | _ => exact absurd touched (by simp [AioProcess.touched])
  refused t c finishes := by
    obtain rfl : label = .fini t c := finishes
    obtain ⟨busy, _⟩ := inv.idle uses.1 uses.2
    cases effect with
    | finiBusy _ _ outside active => exact ⟨fun _ => busy.mp active, fun _ => rfl⟩
    | fini _ _ outside idle =>
      refine ⟨fun never => absurd never (by simp), fun flying => ?_⟩
      exact absurd (idle.symm.trans (busy.mpr flying)) Bool.false_ne_true

theorem contexts_live_apart (trace : List (AioProcessEntry Context Thread))
    (final : AioProcess Context Thread)
    (run : (aioProcessMachine Context Thread).Run .initial trace final)
    (uses : (Monitor.mk .blank observeHistory UsesHanded).Safe trace) :
    (∀ e ∈ trace, Lived e) ∧ ∀ c,
      (final.allocated c = true → (aioMachine Thread).Run .initial
        ((trace.foldl observeHistory .blank).lifetime c) (final.context c)) ∧
      (final.allocated c = false → (final.context c).flight = [] ∧
        ∀ t, (final.context c).call t = .outside) := by
  have initially : LifeInv (.blank : AioHistory Context Thread)
      (.initial : AioProcess Context Thread) := lifeInv_initial
  have inv := run.invariant initially
    (fun r s label out s' before stepped now => before.step (aioProcessStep_effect stepped) now)
    uses
  refine ⟨?_, fun c => ⟨inv.run c, fun freed => ?_⟩⟩
  · have always : (Monitor.mk .blank observeHistory (fun _ => Lived)).Safe trace :=
      run.guarantee initially (fun r s label out s' before stepped now =>
        ⟨before.lived (aioProcessStep_effect stepped) now,
          before.step (aioProcessStep_effect stepped) now⟩) uses
    intro e member
    obtain ⟨before, rest, split⟩ := List.append_of_mem member
    exact always before e rest split
  · refine inv.quiet c (eq_false_of_ne_true (fun handed => ?_))
    exact Bool.false_ne_true (freed.symm.trans (inv.handed c handed))

instance decidableUsesHanded [Fintype Thread] (r : AioHistory Context Thread)
    (e : AioProcessEntry Context Thread) : Decidable (UsesHanded r e) :=
  match e with
  | ⟨s, .call c step, _, _⟩ => inferInstanceAs (Decidable
      (∀ t ∈ step.thread, s.point t = .outside → r.handed c = true))
  | ⟨s, .fini _ c, _, _⟩ => inferInstanceAs (Decidable
      (r.handed c = true ∧ ∀ t, s.point t ≠ .call c))
  | ⟨_, .nullContext _, _, _⟩ | ⟨_, .lockSetup _, _, _⟩ | ⟨_, .testSetup _, _, _⟩
  | ⟨_, .aio2Init _ _ _, _, _⟩ | ⟨_, .unlockSetup _, _, _⟩ | ⟨_, .calloc _ _, _, _⟩
  | ⟨_, .mutexInit _ _, _, _⟩ | ⟨_, .initFree _, _, _⟩ | ⟨_, .finiFree _, _, _⟩ => isTrue trivial

/-- The thread makes a context and gives it to a request. -/
def openLabels (t : Bool) (c : Nat) (request : AioRequest) :
    List (AioProcessLabel Nat Bool) :=
  [.calloc t (some c), .mutexInit t 0, .call c (.submit t request), .call c (.accept t),
    .call c (.submitted t)]

/-- A context is refused while its request is in flight, released later, and its address given to
another thread, while a request on another context is in flight all the time. -/
def reusedLabels : List (AioProcessLabel Nat Bool) :=
  let request : AioRequest := { op := .write, fd := 3, count := 8, buf := 0, offset := 0 }
  [.lockSetup true, .testSetup true, .aio2Init true 0 0, .unlockSetup true] ++
    openLabels true 100 request ++
    [.lockSetup false, .testSetup false, .unlockSetup false] ++ openLabels false 200 request ++
    [.fini true 100, .call 100 (.complete request 8 0), .fini true 100, .finiFree true,
      .lockSetup false, .testSetup false, .unlockSetup false] ++ openLabels false 100 request

theorem contexts_live_apart_reused :
    ∃ trace final, (aioProcessMachine Nat Bool).exec .initial reusedLabels = some (trace, final) ∧
      (final.context 200).flight.length = 1 ∧ (∀ e ∈ trace, Lived e) ∧
      (aioMachine Bool).Run .initial ((trace.foldl observeHistory .blank).lifetime 100)
        (final.context 100) := by
  have checked : ((aioProcessMachine Nat Bool).exec .initial reusedLabels).any (fun done =>
      decide ((done.2.context 200).flight.length = 1 ∧ done.2.allocated 100 = true ∧
        (Monitor.mk .blank observeHistory UsesHanded).SafeFrom .blank done.1)) = true := by
    decide +kernel
  rw [Option.any_eq_true] at checked
  obtain ⟨⟨trace, final⟩, ran, holds⟩ := checked
  obtain ⟨flying, allocated, uses⟩ := of_decide_eq_true holds
  obtain ⟨lived, contexts⟩ := contexts_live_apart trace final (Machine.exec_run ran)
    (Monitor.safe_of_safeFrom _ trace uses)
  exact ⟨trace, final, ran, flying, lived, (contexts 100).1 allocated⟩

end Libsysve.Veaio
