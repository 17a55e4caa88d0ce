import Mathlib.Data.List.TakeWhile
import Libsysve.AccIo.ListExact

/-!
# The environment

`ve_accelerated_io_chk_env_init_dma` reads VE_PDMA_IO and VE_ATOMIC_IO with `strtol` to base 2.
A variable lets accelerated I/O on when it is unset, empty, or a binary number whose value,
cut to `int`, is 0.  A process with another value makes plain system calls only.
-/

set_option autoImplicit false

namespace Libsysve.AccIo

/-- A C string up to its NUL. -/
abbrev CString := List UInt8

/-- `isspace` of the C locale -/
def isspace (c : UInt8) : Bool := c == 32 || (decide (9 ≤ c) && decide (c ≤ 13))

def isBit (c : UInt8) : Bool := c == 48 || c == 49

def plus : UInt8 := 43

def minus : UInt8 := 45

def bitsValue (bits : CString) : Nat := bits.foldl (fun value c => 2 * value + (c.toNat - 48)) 0

def longMin : Int := -2 ^ 63

def longMax : Int := 2 ^ 63 - 1

/-- Is there a minus sign, and what follows a sign. -/
def takeSign (s : CString) : Bool × CString :=
  match s with
  | c :: rest => if c = minus then (true, rest) else if c = plus then (false, rest) else (false, s)
  | [] => (false, s)

/-- `strtol (nptr, &endptr, 2)`: the value and `endptr`. -/
def strtolBinary (nptr : CString) : Int × CString :=
  let (negative, subject) := takeSign (nptr.dropWhile isspace)
  let bits := subject.takeWhile isBit
  if bits = [] then (0, nptr)
  else
    let value : Int := if negative then -bitsValue bits else bitsValue bits
    (max longMin (min longMax value), subject.dropWhile isBit)

/-- The conversion from `long` to `int`. -/
def toInt (value : Int) : Int := value.bmod (2 ^ 32)

def acceleratedIo : Int := 0

def pdmaIo : Int := 1

def envRefuses : Option CString → Bool
  | none => false
  | some env =>
    let (value, ptr) := strtolBinary env
    toInt value != acceleratedIo || ptr.length != 0

/-- The value of `ve_accelerated_io_chk_env_init_dma`, and whether it has called `ve_dma_init`,
which returns `dmaInitRet`. -/
def veAcceleratedIoChkEnvInitDma (envValPdma envValAtomic : Option CString) (dmaInitRet : Int) :
    Int × Bool :=
  if envRefuses envValPdma then (pdmaIo, false)
  else if envRefuses envValAtomic then (pdmaIo, false)
  else (if dmaInitRet = 0 then acceleratedIo else -eio, true)

/-! ## What the variables may be -/

/-- Spaces, a sign and binary digits whose value is 0 in the low 32 bits.  A value that is too
large for `long` becomes LONG_MAX, which is not 0 there, or LONG_MIN, which is. -/
structure ZeroNumber (s spaces : CString) (sign : Option UInt8) (bits : CString) : Prop where
  text : s = spaces ++ (sign.toList ++ bits)
  blank : ∀ c ∈ spaces, isspace c = true
  signed : ∀ c, sign = some c → c = plus ∨ c = minus
  digits : bits ≠ []
  binary : ∀ c ∈ bits, isBit c = true
  value : bitsValue bits < 2 ^ 63 ∧ 2 ^ 32 ∣ bitsValue bits ∨
    2 ^ 63 ≤ bitsValue bits ∧ sign = some minus

def ZeroText (s : CString) : Prop := s = [] ∨ ∃ spaces sign bits, ZeroNumber s spaces sign bits

theorem toInt_clamp (negative : Bool) (value : Nat) :
    toInt (max longMin (min longMax (if negative then -(value : Int) else value))) = 0 ↔
      value < 2 ^ 63 ∧ 2 ^ 32 ∣ value ∨ 2 ^ 63 ≤ value ∧ negative = true := by
  have cut : ∀ x : Int, toInt x = 0 ↔ (4294967296 : Int) ∣ x := fun x =>
    (Int.dvd_iff_bmod_eq_zero (a := 2 ^ 32) (b := x)).symm
  rw [cut]
  simp only [longMin, longMax]
  cases negative with
  | false =>
    simp only [Bool.false_eq_true, if_false, and_false, or_false]
    omega
  | true =>
    simp only [if_true, and_true]
    omega

theorem isBit_not_space {c : UInt8} (bit : isBit c = true) : isspace c = false := by
  simp only [isBit, Bool.or_eq_true, beq_iff_eq] at bit
  rcases bit with rfl | rfl <;> decide

theorem isBit_not_sign {c : UInt8} (bit : isBit c = true) : c ≠ minus ∧ c ≠ plus := by
  simp only [isBit, Bool.or_eq_true, beq_iff_eq] at bit
  rcases bit with rfl | rfl <;> decide

theorem takeSign_text (s : CString) : ∃ sign : Option UInt8,
    s = sign.toList ++ (takeSign s).2 ∧ (∀ c, sign = some c → c = plus ∨ c = minus) ∧
      ((takeSign s).1 = true ↔ sign = some minus) := by
  cases s with
  | nil => exact ⟨none, rfl, by simp, by simp [takeSign]⟩
  | cons c rest =>
    by_cases isMinus : c = minus
    · subst isMinus
      exact ⟨some minus, rfl, by simp, by simp [takeSign]⟩
    · by_cases isPlus : c = plus
      · subst isPlus
        refine ⟨some plus, by simp [takeSign, isMinus], by simp, ?_⟩
        simp [takeSign, isMinus]
      · refine ⟨none, by simp [takeSign, isMinus, isPlus], by simp, ?_⟩
        simp [takeSign, isMinus, isPlus]

theorem takeSign_eq {sign : Option UInt8} {bits : CString}
    (signs : ∀ c, sign = some c → c = plus ∨ c = minus) (digits : bits ≠ [])
    (isBits : ∀ c ∈ bits, isBit c = true) :
    takeSign (sign.toList ++ bits) = (decide (sign = some minus), bits) ∧
      (sign.toList ++ bits).dropWhile isspace = sign.toList ++ bits := by
  obtain ⟨first, rest, rfl⟩ := List.exists_cons_of_ne_nil digits
  have bit := isBits first List.mem_cons_self
  cases sign with
  | none =>
    obtain ⟨notMinus, notPlus⟩ := isBit_not_sign bit
    exact ⟨by simp [takeSign, notMinus, notPlus], by simp [isBit_not_space bit]⟩
  | some c =>
    rcases signs c rfl with rfl | rfl
    · exact ⟨by simp [takeSign, plus, minus], by simp [isspace, plus]⟩
    · exact ⟨by simp [takeSign], by simp [isspace, minus]⟩

theorem strtolBinary_zeroNumber {s spaces bits : CString} {sign : Option UInt8}
    (text : s = spaces ++ (sign.toList ++ bits)) (blank : ∀ c ∈ spaces, isspace c = true)
    (signed : ∀ c, sign = some c → c = plus ∨ c = minus) (digits : bits ≠ [])
    (binary : ∀ c ∈ bits, isBit c = true) :
    strtolBinary s = (max longMin (min longMax
      (if decide (sign = some minus) then -(bitsValue bits : Int) else bitsValue bits)), []) := by
  obtain ⟨reads, stays⟩ := takeSign_eq signed digits binary
  have start : s.dropWhile isspace = sign.toList ++ bits := by
    rw [text, List.dropWhile_append_of_pos blank, stays]
  have taken : bits.takeWhile isBit = bits := List.takeWhile_eq_self_iff.mpr binary
  have dropped : bits.dropWhile isBit = [] := List.dropWhile_eq_nil_iff.mpr binary
  simp only [strtolBinary, start, reads, taken, dropped, if_neg digits]

theorem envRefuses_iff (s : CString) : envRefuses (some s) = false ↔ ZeroText s := by
  constructor
  · intro takes
    simp only [envRefuses, Bool.or_eq_false_iff, bne_eq_false_iff_eq, List.length_eq_zero_iff]
      at takes
    obtain ⟨zero, ended⟩ := takes
    obtain ⟨sign, text, signed, negative⟩ := takeSign_text (s.dropWhile isspace)
    by_cases none : (takeSign (s.dropWhile isspace)).2.takeWhile isBit = []
    · -- no conversion: `endptr` is the whole string
      simp only [strtolBinary, none, if_true] at ended
      exact .inl ended
    · simp only [strtolBinary, none, if_false] at ended zero
      have whole : (takeSign (s.dropWhile isspace)).2.takeWhile isBit =
          (takeSign (s.dropWhile isspace)).2 := by
        have parts := List.takeWhile_append_dropWhile (p := isBit)
          (l := (takeSign (s.dropWhile isspace)).2)
        rwa [ended, List.append_nil] at parts
      have value := (toInt_clamp _ _).mp zero
      refine .inr ⟨s.takeWhile isspace, sign,
        (takeSign (s.dropWhile isspace)).2.takeWhile isBit, ?_⟩
      constructor
      · rw [whole, ← text, List.takeWhile_append_dropWhile]
      · exact fun c member => List.mem_takeWhile_imp member
      · exact signed
      · exact none
      · exact fun c member => List.mem_takeWhile_imp member
      · rwa [negative] at value
  · rintro (rfl | ⟨spaces, sign, bits, number⟩)
    · decide
    · have read := strtolBinary_zeroNumber number.text number.blank number.signed number.digits
        number.binary
      have value := number.value
      rw [← decide_eq_true_iff (p := sign = some minus)] at value
      have zero := (toInt_clamp _ _).mpr value
      simp only [envRefuses, read, zero]
      rfl

/-- Taken: " -00".  Refused: " ", "0x" and "1". -/
example : envRefuses (some [32, 45, 48, 48]) = false ∧ envRefuses (some [32]) = true ∧
    envRefuses (some [48, 120]) = true ∧ envRefuses (some [49]) = true := by
  decide

theorem chkEnv_called {envValPdma envValAtomic : Option CString} {dmaInitRet : Int} :
    (veAcceleratedIoChkEnvInitDma envValPdma envValAtomic dmaInitRet).2 = true ↔
      envRefuses envValPdma = false ∧ envRefuses envValAtomic = false := by
  unfold veAcceleratedIoChkEnvInitDma
  cases envRefuses envValPdma <;> cases envRefuses envValAtomic <;> simp

theorem chkEnv_accepted {envValPdma envValAtomic : Option CString} {dmaInitRet : Int} :
    (veAcceleratedIoChkEnvInitDma envValPdma envValAtomic dmaInitRet).1 = acceleratedIo ↔
      (veAcceleratedIoChkEnvInitDma envValPdma envValAtomic dmaInitRet).2 = true ∧
        dmaInitRet = 0 := by
  unfold veAcceleratedIoChkEnvInitDma
  by_cases ready : dmaInitRet = 0
  · cases envRefuses envValPdma <;> cases envRefuses envValAtomic <;>
      simp [ready, acceleratedIo, pdmaIo]
  · cases envRefuses envValPdma <;> cases envRefuses envValAtomic <;>
      simp [ready, acceleratedIo, pdmaIo, eio]

theorem chkEnv_ready {envValPdma envValAtomic : Option CString} {dmaInitRet : Int}
    (accepted : (veAcceleratedIoChkEnvInitDma envValPdma envValAtomic dmaInitRet).1 =
      acceleratedIo) :
    (veAcceleratedIoChkEnvInitDma envValPdma envValAtomic 0).1 = acceleratedIo :=
  chkEnv_accepted.mpr ⟨chkEnv_called.mpr (chkEnv_called.mp (chkEnv_accepted.mp accepted).1), rfl⟩

/-- Accelerated I/O comes up exactly when neither variable forbids it and the DMA is initialised;
a variable that forbids it is noticed before the DMA is touched. -/
theorem chk_env_accepts (envValPdma envValAtomic : Option CString) (dmaInitRet : Int) :
    ((veAcceleratedIoChkEnvInitDma envValPdma envValAtomic dmaInitRet).2 = true ↔
        (∀ s, envValPdma = some s → ZeroText s) ∧ ∀ s, envValAtomic = some s → ZeroText s) ∧
      ((veAcceleratedIoChkEnvInitDma envValPdma envValAtomic dmaInitRet).1 = acceleratedIo ↔
        (veAcceleratedIoChkEnvInitDma envValPdma envValAtomic dmaInitRet).2 = true ∧
          dmaInitRet = 0) := by
  have taken : ∀ env : Option CString,
      envRefuses env = false ↔ ∀ s, env = some s → ZeroText s := by
    intro env
    cases env with
    | none => simp [envRefuses]
    | some s => simp [envRefuses_iff]
  rw [← taken, ← taken]
  exact ⟨chkEnv_called, chkEnv_accepted⟩

/-! ## Processes in which a variable forbids it -/

def chkAccepts {Thread : Type} : AccEvent Thread → Bool
  | .step before (.io t (.step .ok)) _ _ =>
    match (before.thread t).frames with
    | [] => false
    | f :: _ =>
      match f.call.point with
      | .chkEnvInitDma => true
      | _ => false
  | _ => false

def FollowsEnv {Thread : Type} (envValPdma envValAtomic : Option CString) (_ : ResourceRecord)
    (e : AccEvent Thread) : Prop :=
  chkAccepts e = true → ∃ dmaInitRet,
    (veAcceleratedIoChkEnvInitDma envValPdma envValAtomic dmaInitRet).1 = acceleratedIo

/-- Nothing is filled, linked, released or transferred. -/
def StaysPlain {Thread : Type} (_ : ResourceRecord) : AccEvent Thread → Prop
  | .step _ _ op _ => op = .other
  | .fork _ _ released _ => released = []

def IoPoint.bare : IoPoint → Bool
  | .malloc | .init2 _ | .free | .setspecific _ | .releaseResource | .listInsert _
  | .preReturned (.success _) | .transfer _ | .post => false
  | _ => true

structure BareThread (t : AccThread) : Prop where
  key : t.key = none
  dst : t.dst = .outside
  frames : ∀ f ∈ t.frames, f.call.point.bare = true

structure BareInv {Thread : Type} (h : ResourceHeap) (s : AccProcess Thread) : Prop where
  heap : s.heap = h
  threads : ∀ t, BareThread (s.thread t)

variable {env : Env} {pdma : Bool} {h : ResourceHeap} {f : AccFrame} {rest : List AccFrame}

theorem goOn_bare {t io : IoThread} {call : IoFrame} {action : IoAction} {point : IoPoint}
    (moved : t.goOn call (rest.map AccFrame.call) point = some (action, io))
    (stays : f.call.point ≠ .exit) (bare : point.bare = true) (acc : Option ObjectId) :
    ∀ f' ∈ AccThread.resumed f acc rest io.frames, f' ∈ rest ∨ f'.call.point.bare = true := by
  rw [resumed_goOn moved stays]
  intro f' member
  rcases List.mem_cons.mp member with rfl | old
  · exact .inr bare
  · exact .inl old

theorem stepFrame_bare {t io : IoThread} {answer : IoAnswer} {action : IoAction}
    (unset : t.resources = none) (bare : f.call.point.bare = true)
    (refused : f.call.point = .chkEnvInitDma → answer ≠ .ok)
    (stepped : t.stepFrame env pdma f.call (rest.map AccFrame.call) answer = some (action, io))
    (acc : Option ObjectId) :
    ∀ f' ∈ AccThread.resumed f acc rest io.frames, f' ∈ rest ∨ f'.call.point.bare = true := by
  obtain ⟨⟨request, point, swapped⟩, acc'⟩ := f
  cases point with
  | entry =>
    cases answer with
    | quiet =>
      refine goOn_bare stepped (by simp) ?_ acc
      split
      · rfl
      · split <;> rfl
    | _ => simp [IoThread.stepFrame] at stepped
  | pre =>
    cases answer with
    | quiet =>
      refine goOn_bare stepped (by simp) ?_ acc
      split <;> rfl
    | _ => simp [IoThread.stepFrame] at stepped
  | swap =>
    cases answer with
    | quiet =>
      refine goOn_bare (t := { t with veBuffUsingFlag := veBuffUsing }) stepped (by simp) ?_ acc
      split <;> rfl
    | _ => simp [IoThread.stepFrame] at stepped
  | getspecific =>
    cases answer with
    | quiet =>
      simp only [IoThread.stepFrame, unset] at stepped
      exact goOn_bare stepped (by simp) rfl acc
    | _ => simp [IoThread.stepFrame] at stepped
  | chkEnvInitDma =>
    cases answer with
    | ok => exact absurd rfl (refused rfl)
    | failed => exact goOn_bare stepped (by simp) rfl acc
    | _ => simp [IoThread.stepFrame] at stepped
  | unlock retval =>
    cases answer with
    | quiet =>
      refine goOn_bare (t := { t with veBuffUsingFlag := veBuffNotUsing }) stepped (by simp) ?_ acc
      cases retval <;> rfl
    | _ => simp [IoThread.stepFrame] at stepped
  | preReturned ret =>
    cases ret with
    | success info => exact absurd bare (by simp [IoPoint.bare])
    | fail =>
      cases answer with
      | quiet => exact goOn_bare stepped (by simp) rfl acc
      | _ => simp [IoThread.stepFrame] at stepped
    | noBuf =>
      cases answer with
      | quiet => exact goOn_bare stepped (by simp) rfl acc
      | _ => simp [IoThread.stepFrame] at stepped
  | freeIoHook =>
    cases answer with
    | quiet => exact goOn_bare stepped (by simp) rfl acc
    | _ => simp [IoThread.stepFrame] at stepped
  | plain =>
    cases answer with
    | quiet =>
      obtain ⟨rfl, rfl⟩ := Prod.mk.inj (Option.some.inj stepped)
      intro f' member
      rcases List.mem_cons.mp member with rfl | old
      · exact .inr rfl
      · exact .inl old
    | _ => simp [IoThread.stepFrame] at stepped
  | exit =>
    cases answer with
    | quiet =>
      obtain ⟨rfl, rfl⟩ := Prod.mk.inj (Option.some.inj stepped)
      intro f' member
      refine .inl ?_
      cases rest with
      | nil => exact member
      | cons f rest => exact member
    | _ => simp [IoThread.stepFrame] at stepped
  | _ => exact absurd bare (by simp [IoPoint.bare])

theorem effect_bare {answer : IoAnswer} {e : CallEffect} (bare : f.call.point.bare = true)
    (did : f.effect answer none h = some e) : e.op = .other ∧ e.heap = h ∧ e.key = none := by
  unfold AccFrame.effect at did
  split at did
  case h_1 => exact Option.some.inj did ▸ ⟨rfl, rfl, rfl⟩
  case h_9 => exact Option.some.inj did ▸ ⟨rfl, rfl, rfl⟩
  all_goals
    next here => exact absurd bare (by simp [here, IoPoint.bare])

variable {Thread : Type} [DecidableEq Thread] {s s' : AccProcess Thread}
  {label : AccLabel Thread} {op : ResourceOp} {R : ResourceRecord}
  {envValPdma envValAtomic : Option CString}

theorem BareInv.step (inv : BareInv h s)
    (refused : (veAcceleratedIoChkEnvInitDma envValPdma envValAtomic 0).1 ≠ acceleratedIo)
    (follows : FollowsEnv envValPdma envValAtomic R (.step s label op s'))
    (stepped : s.step env pdma label = some (op, s')) : op = .other ∧ BareInv h s' := by
  have puts : ∀ u left, BareThread left → BareInv h (s.put u s.heap left) := by
    intro u left bare
    refine ⟨inv.heap, fun v => ?_⟩
    by_cases same : v = u
    · subst same
      rw [AccProcess.put_self]
      exact bare
    · rw [AccProcess.put_other same]
      exact inv.threads v
  cases label with
  | io u label =>
    have own := inv.threads u
    simp only [AccProcess.step, Option.bind_eq_bind, Option.bind_eq_some_iff] at stepped
    obtain ⟨⟨op', h', left⟩, moved, result⟩ := stepped
    obtain ⟨rfl, rfl⟩ := Prod.mk.inj (Option.some.inj result)
    cases label with
    | call request =>
      simp only [AccThread.step, Option.some.injEq, Prod.mk.injEq] at moved
      obtain ⟨rfl, rfl, rfl⟩ := moved
      refine ⟨rfl, puts u _ ⟨own.key, own.dst, ?_⟩⟩
      intro f member
      rcases List.mem_cons.mp member with rfl | old
      · rfl
      · exact own.frames f old
    | step answer =>
      cases running : (s.thread u).frames with
      | nil => simp [AccThread.step, running] at moved
      | cons f rest =>
        simp only [AccThread.step, running, Option.bind_eq_bind, Option.bind_eq_some_iff,
          Option.some.injEq, Prod.mk.injEq] at moved
        obtain ⟨⟨action, io⟩, ran, e, did, rfl, rfl, rfl⟩ := moved
        have frames := own.frames
        rw [running] at frames
        rw [own.key] at did
        obtain ⟨other, same, key⟩ := effect_bare (frames f List.mem_cons_self) did
        have answered : f.call.point = .chkEnvInitDma → answer ≠ .ok := by
          rintro here rfl
          obtain ⟨dmaInitRet, accepted⟩ := follows (by simp [chkAccepts, running, here])
          exact refused (chkEnv_ready accepted)
        refine ⟨other, ?_⟩
        rw [same]
        refine puts u _ ⟨key, own.dst, fun f' member => ?_⟩
        have unset : ((s.thread u).io s.heap).resources = none := by
          rw [AccThread.io, own.key]
          rfl
        rcases stepFrame_bare unset (frames f List.mem_cons_self) answered ran _ f' member with
          old | bare
        · exact frames f' (List.mem_cons_of_mem f old)
        · exact bare
  | exit u =>
    simp only [AccProcess.step, (inv.threads u).key] at stepped
    split at stepped
    next here => exact absurd here (by simp)
    next => exact absurd stepped (by simp)
  | unlink u =>
    simp only [AccProcess.step, (inv.threads u).dst] at stepped
    exact absurd stepped (by simp)
  | release u =>
    simp only [AccProcess.step, (inv.threads u).dst] at stepped
    exact absurd stepped (by simp)

theorem BareInv.fork {how : ForkCall Thread} {released : List (ObjectId × List SysveCall)}
    {child : AccProcess Thread} (inv : BareInv h s) (empty : h.listHeadNext = none)
    (forked : s.fork how = some (released, child)) : released = [] ∧ BareInv h child := by
  have walks : s.heap.atforkChild how.fuel = some ([], s.heap) := by
    have head : s.heap.listHeadNext = none := by rw [inv.heap, empty]
    rw [ResourceHeap.atforkChild, head]
    cases how.fuel <;> simp [ResourceHeap.releaseAll, ← head]
  rw [AccProcess.fork, walks] at forked
  obtain ⟨rfl, rfl⟩ := Prod.mk.inj (Option.some.inj forked)
  refine ⟨rfl, inv.heap, fun u => ?_⟩
  by_cases same : u = how.thread
  · subst same
    have own := inv.threads how.thread
    simp only [Function.update_self]
    exact ⟨rfl, own.dst, own.frames⟩
  · simp only [Function.update_of_ne same]
    exact ⟨rfl, rfl, fun f member => absurd member List.not_mem_nil⟩

abbrev BareRecord (h : ResourceHeap) (_ : ResourceRecord) (s : AccProcess Thread) : Prop :=
  BareInv h s

theorem BareInv.event (refused :
      (veAcceleratedIoChkEnvInitDma envValPdma envValAtomic 0).1 ≠ acceleratedIo)
    (empty : h.listHeadNext = none) (e : AccEvent Thread) (inv : BareRecord h R e.source)
    (happens : (accForking Thread env pdma).Happens e)
    (follows : FollowsEnv envValPdma envValAtomic R e) :
    StaysPlain R e ∧ BareRecord h (R.observe e) e.target := by
  cases e with
  | step s label op s' => exact BareInv.step inv refused follows happens
  | fork s how released child => exact BareInv.fork inv empty happens

/-- Where the environment forbids it, no process ever fills an object, transfers through one or
gives one back, and its memory stays as it was. -/
theorem refused_env_stays_plain {Process : Type} [DecidableEq Process] (env : Env) (pdma : Bool)
    (envValPdma envValAtomic : Option CString)
    (refused : (veAcceleratedIoChkEnvInitDma envValPdma envValAtomic 0).1 ≠ acceleratedIo)
    (p : Process) (node : ObjectId → ResourceNode) (trace : List (AccEntry Process Thread))
    (final : Process → Option (AccProcess Thread)) (run : AccRun env pdma p node trace final)
    (follows : AccSafe (FollowsEnv envValPdma envValAtomic) trace) :
    AccSafe StaysPlain trace ∧ ∀ q s, final q = some s →
      s.heap = (AccProcess.initial node : AccProcess Thread).heap ∧
        ∀ t, (s.thread t).key = none := by
  have initially : BareRecord (AccProcess.initial node : AccProcess Thread).heap .blank
      (AccProcess.initial node : AccProcess Thread) :=
    ⟨rfl, fun _ => ⟨rfl, rfl, fun _ member => absurd member List.not_mem_nil⟩⟩
  constructor
  · exact Forking.family_guarantee initially
      (fun _ e inv happens now => (BareInv.event refused rfl e inv happens now).2)
      (fun _ e inv happens now => (BareInv.event refused rfl e inv happens now).1) run follows
  · intro q s here
    have inv := Forking.family_invariant initially
      (fun _ e inv happens now => (BareInv.event refused rfl e inv happens now).2) run follows
      q s here
    exact ⟨inv.heap, fun t => (inv.threads t).key⟩

instance decidableFollowsEnv (R : ResourceRecord) (e : AccEvent Thread) :
    Decidable (FollowsEnv envValPdma envValAtomic R e) :=
  decidable_of_iff (chkAccepts e = false ∨
      (veAcceleratedIoChkEnvInitDma envValPdma envValAtomic 0).1 = acceleratedIo) <| by
    rw [FollowsEnv, ← Bool.not_eq_true, ← imp_iff_not_or]
    refine imp_congr_right fun _ => ⟨fun accepted => ⟨0, accepted⟩, ?_⟩
    rintro ⟨dmaInitRet, accepted⟩
    exact chkEnv_ready accepted

/-- With VE_ATOMIC_IO=1 a thread reads twice, a handler of it forks in between, and the child
reads as well. -/
def refusedLabels : List (FamilyLabel Nat (AccLabel Nat) (ForkCall Nat)) :=
  let quiet := IoLabel.step .quiet
  let plainCall := [.call (.readPread .read 7 4096 1 0), quiet, quiet, quiet, quiet,
    .step .failed, quiet, quiet, quiet, quiet, quiet]
  steps 0 0 plainCall ++ steps 0 0 (plainCall.take 6) ++ [.fork 0 ⟨0, 0⟩ 1] ++
    steps 1 0 (plainCall.drop 6 ++ plainCall) ++ steps 0 0 (plainCall.drop 6)

theorem refused_env_stays_plain_atomic :
    ∃ trace final, (accForking Nat (.steady 0) false).family.exec aloneAtFirst refusedLabels =
        some (trace, final) ∧ trace.length = 39 ∧ AccSafe StaysPlain trace ∧
      ∀ q s, final q = some s →
        s.heap = (AccProcess.initial (fun _ => ⟨.sample, none, none⟩) : AccProcess Nat).heap ∧
          ∀ t, (s.thread t).key = none := by
  have checked : ((accForking Nat (.steady 0) false).family.exec aloneAtFirst refusedLabels).any
      (fun done => decide (done.1.length = 39 ∧
        (Forking.members ResourceRecord.blank ResourceRecord.observe
          (FollowsEnv none (some [49]))).SafeFrom (fun _ => .blank) done.1)) = true := by
    decide +kernel
  rw [Option.any_eq_true] at checked
  obtain ⟨⟨trace, final⟩, ran, holds⟩ := checked
  obtain ⟨length, follows⟩ := of_decide_eq_true holds
  obtain ⟨plain, same⟩ := refused_env_stays_plain (.steady 0) false none (some [49]) (by decide) 0
    _ trace final (Machine.exec_run ran) (Monitor.safe_of_safeFrom _ trace follows)
  exact ⟨trace, final, ran, length, plain, same⟩

end Libsysve.AccIo
