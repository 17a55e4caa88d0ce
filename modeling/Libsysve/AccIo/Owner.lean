import Libsysve.AccIo.Transfer
import Libsysve.Library.Machine

/-!
# Who has the I/O buffers of a thread

The calls of one thread, step by step.  A signal handler may start a further call at any step,
which ends before the interrupted one goes on: the calls form a stack, the running one first.
`ve_accelerated_io_pre` takes `ve_buff_using_flag` by a swap that writes the flag also when it
is taken already.  The resource list of the process and `errno` are left out.
-/

set_option autoImplicit false

namespace Libsysve.AccIo

def veBuffUsing : Int := 1

def veBuffNotUsing : Int := 0

/-- A call of one of the four functions. -/
inductive IoRequest where
  | readPread (num : SyscallNum) (fd : Int) (buf count : Nat) (ofs : Int)
  | readvPreadv (num : SyscallNum) (fd : Int) (iov : Option (List Iovec)) (count ofs : Int)
  | writePwrite (num : SyscallNum) (fd : Int) (buf count : Nat) (ofs : Int)
  | writevPwritev (num : SyscallNum) (fd : Int) (iov : Option (List Iovec)) (count ofs : Int)

namespace IoRequest

/-- `0 == count` -/
def empty : IoRequest → Bool
  | .readPread _ _ _ count _ | .writePwrite _ _ _ count _ => count = 0
  | .readvPreadv _ _ _ count _ | .writevPwritev _ _ _ count _ => count = 0

/-- The pointer to the buffer or to the segments is NULL. -/
def null : IoRequest → Bool
  | .readPread _ _ buf _ _ | .writePwrite _ _ buf _ _ => buf = 0
  | .readvPreadv _ _ iov _ _ | .writevPwritev _ _ iov _ _ => iov.isNone

/-- What the function does when `ve_accelerated_io_pre` succeeds: memory copies, DMAs and chunk
system calls. -/
def events (env : Env) (io : AccIoInfo) (w : World) (request : IoRequest) : List IoEvent :=
  let w := { w with log := [] }
  let result := match request with
    | .readPread num fd buf count ofs =>
      veAcceleratedIoReadPread env (.success io) num fd buf count ofs w
    | .readvPreadv num fd iov count ofs =>
      veAcceleratedIoReadvPreadv env (.success io) num fd iov count ofs w
    | .writePwrite num fd buf count ofs =>
      veAcceleratedIoWritePwrite env (.success io) num fd buf count ofs w
    | .writevPwritev num fd iov count ofs =>
      veAcceleratedIoWritevPwritev env (.success io) num fd iov count ofs w
  result.world.log

end IoRequest

/-- The errors of `ve_accelerated_io_pre` behind the swap. -/
inductive PreError where
  | fail
  | noBuf

def PreError.result : PreError → PreResult
  | .fail => .fail
  | .noBuf => .noBuf

/-- What a call does next.  From `pre` to `unlock` it is in `ve_accelerated_io_pre`. -/
inductive IoPoint where
  | entry
  | pre
  | swap
  | getspecific
  | chkEnvInitDma
  | malloc
  | init2 (veIoBuff : Nat)
  | free
  | setspecific (res : AccIoResources)
  | releaseResource
  | listInsert (res : AccIoResources)
  | unlock (retval : PreError)
  | preReturned (ret : PreResult)
  | freeIoHook
  | plain
  | transfer (rest : List IoEvent)
  | post
  | exit

/-- `swapped` is what `__libsysve_a_swap` has given the call. -/
structure IoFrame where
  request : IoRequest
  point : IoPoint
  swapped : Option Int

/-- `resources` is the value of `acc_io_resources_key`. -/
structure IoThread where
  veBuffUsingFlag : Int
  resources : Option AccIoResources
  frames : List IoFrame

/-- What the outside answers to the next step of the running call. -/
inductive IoAnswer where
  | quiet
  | ok
  | failed
  | address (veIoBuff : Nat)
  | vhBuffer (vhva vehva localVehva : Nat)
  | surroundings (env : Env) (w : World)

inductive IoLabel where
  | call (request : IoRequest)
  | step (answer : IoAnswer)

inductive IoAction where
  | quiet
  | plain
  | io (event : IoEvent)

namespace IoThread

def goOn (t : IoThread) (f : IoFrame) (rest : List IoFrame) (point : IoPoint) :
    Option (IoAction × IoThread) :=
  some (.quiet, { t with frames := { f with point := point } :: rest })

def stepFrame (env : Env) (constructorPdma : Bool) (t : IoThread) (f : IoFrame)
    (rest : List IoFrame) (answer : IoAnswer) : Option (IoAction × IoThread) :=
  match f.point, answer with
  | .entry, .quiet =>
    t.goOn f rest (if f.request.empty then .plain else if f.request.null then .exit else .pre)
  | .pre, .quiet => t.goOn f rest (if constructorPdma then .preReturned .fail else .swap)
  | .swap, .quiet =>
    let retval := t.veBuffUsingFlag
    { t with veBuffUsingFlag := veBuffUsing }.goOn { f with swapped := some retval } rest
      (if retval ≠ veBuffNotUsing then .preReturned .noBuf else .getspecific)
  | .getspecific, .quiet =>
    match t.resources with
    | none => t.goOn f rest .chkEnvInitDma
    | some res => t.goOn f rest (.preReturned (.success (res.info env)))
  | .chkEnvInitDma, .ok => t.goOn f rest .malloc
  | .chkEnvInitDma, .failed => t.goOn f rest (.unlock .fail)
  | .malloc, .address veIoBuff => t.goOn f rest (.init2 veIoBuff)
  | .malloc, .failed => t.goOn f rest (.unlock .fail)
  | .init2 veIoBuff, .vhBuffer vhva vehva localVehva =>
    t.goOn f rest (.setspecific
      { localVehva := localVehva, vehva := vehva, vhBuff := vhva, veIoBuff := veIoBuff })
  | .init2 _, .failed => t.goOn f rest .free
  | .free, .quiet => t.goOn f rest (.unlock .noBuf)
  | .setspecific res, .ok => { t with resources := some res }.goOn f rest (.listInsert res)
  | .setspecific _, .failed => t.goOn f rest .releaseResource
  | .releaseResource, .quiet => t.goOn f rest (.unlock .fail)
  | .listInsert res, .quiet => t.goOn f rest (.preReturned (.success (res.info env)))
  | .unlock retval, .quiet =>
    { t with veBuffUsingFlag := veBuffNotUsing }.goOn f rest (.preReturned retval.result)
  | .preReturned .fail, .quiet => t.goOn f rest .freeIoHook
  | .preReturned .noBuf, .quiet => t.goOn f rest .plain
  | .preReturned (.success io), .surroundings env w =>
    t.goOn f rest (.transfer (f.request.events env io w))
  | .freeIoHook, .quiet => t.goOn f rest .plain
  | .plain, .quiet => some (.plain, { t with frames := { f with point := .exit } :: rest })
  | .transfer (event :: events), .quiet =>
    some (.io event, { t with frames := { f with point := .transfer events } :: rest })
  | .transfer [], .quiet => t.goOn f rest .post
  | .post, .quiet => { t with veBuffUsingFlag := veBuffNotUsing }.goOn f rest .exit
  | .exit, .quiet => some (.quiet, { t with frames := rest })
  | _, _ => none

def step (env : Env) (constructorPdma : Bool) (t : IoThread) :
    IoLabel → Option (IoAction × IoThread)
  | .call request =>
    some (.quiet, { t with
      frames := { request := request, point := .entry, swapped := none } :: t.frames })
  | .step answer =>
    match t.frames with
    | [] => none
    | f :: rest => t.stepFrame env constructorPdma f rest answer

def machine (env : Env) (constructorPdma : Bool) : Machine IoThread IoLabel IoAction :=
  ⟨step env constructorPdma⟩

end IoThread

/-! ## One step -/

/-- The call has swapped the flag from "not using" and will write it back. -/
def IoPoint.holds : IoPoint → Bool
  | .entry | .pre | .swap | .preReturned .fail | .preReturned .noBuf | .freeIoHook | .plain
  | .exit => false
  | _ => true

/-- Between a successful `ve_accelerated_io_pre` and `ve_accelerated_io_post`. -/
def IoPoint.transfers : IoPoint → Bool
  | .preReturned (.success _) | .transfer _ | .post => true
  | _ => false

/-- What is left to do without the buffers. -/
def IoPoint.outside : IoPoint → Bool
  | .preReturned .noBuf | .plain | .exit => true
  | _ => false

def IoFrame.FoundTaken (f : IoFrame) : Prop := ∃ old, f.swapped = some old ∧ old ≠ veBuffNotUsing

def IoAction.Plain (action : IoAction) : Prop := action = .quiet ∨ action = .plain

inductive FrameMove (flag : Int) (f : IoFrame) (rest : List IoFrame) (t' : IoThread)
    (action : IoAction) : Prop
  | goesOn (f' : IoFrame) (frames : t'.frames = f' :: rest) (same : t'.veBuffUsingFlag = flag)
      (holds : f'.point.holds = f.point.holds) (swapped : f'.swapped = f.swapped)
      (outside : f.point.outside = true → f'.point.outside = true ∧ action.Plain)
  | takes (f' : IoFrame) (frames : t'.frames = f' :: rest) (free : flag = veBuffNotUsing)
      (taken : t'.veBuffUsingFlag = veBuffUsing) (before : f.point = .swap)
      (after : f'.point = .getspecific) (swapped : f'.swapped = some veBuffNotUsing)
  | finds (f' : IoFrame) (frames : t'.frames = f' :: rest) (busy : flag ≠ veBuffNotUsing)
      (taken : t'.veBuffUsingFlag = veBuffUsing) (before : f.point = .swap)
      (after : f'.point = .preReturned .noBuf)
  | releases (f' : IoFrame) (frames : t'.frames = f' :: rest)
      (free : t'.veBuffUsingFlag = veBuffNotUsing) (before : f.point.holds = true)
      (after : f'.point.holds = false) (swapped : f'.swapped = f.swapped)
  | returns (frames : t'.frames = rest) (same : t'.veBuffUsingFlag = flag)
      (before : f.point = .exit) (plain : action.Plain)

variable {env : Env} {pdma : Bool} {t t' : IoThread} {f : IoFrame} {rest : List IoFrame}
  {answer : IoAnswer} {action : IoAction}

theorem FrameMove.goOn {point : IoPoint} (moved : t.goOn f rest point = some (action, t'))
    (holds : point.holds = f.point.holds)
    (outside : f.point.outside = true → point.outside = true) :
    FrameMove t.veBuffUsingFlag f rest t' action := by
  obtain ⟨rfl, rfl⟩ := Prod.mk.inj (Option.some.inj moved)
  exact .goesOn _ rfl rfl holds rfl (fun left => ⟨outside left, .inl rfl⟩)

theorem FrameMove.unlock {point : IoPoint}
    (moved : { t with veBuffUsingFlag := veBuffNotUsing }.goOn f rest point = some (action, t'))
    (before : f.point.holds = true) (after : point.holds = false) :
    FrameMove t.veBuffUsingFlag f rest t' action := by
  obtain ⟨rfl, rfl⟩ := Prod.mk.inj (Option.some.inj moved)
  exact .releases _ rfl rfl before after rfl

theorem stepFrame_move (stepped : t.stepFrame env pdma f rest answer = some (action, t')) :
    FrameMove t.veBuffUsingFlag f rest t' action := by
  obtain ⟨request, point, swapped⟩ := f
  -- every point takes one kind of answer, or two
  cases point with
  | entry =>
    cases answer with
    | quiet =>
      refine FrameMove.goOn stepped ?_ (fun left => nomatch left)
      split
      · rfl
      · split <;> rfl
    | _ => nomatch stepped
  | pre =>
    cases answer with
    | quiet =>
      refine FrameMove.goOn stepped ?_ (fun left => nomatch left)
      split <;> rfl
    | _ => nomatch stepped
  | swap =>
    cases answer with
    | quiet =>
      obtain ⟨rfl, rfl⟩ := Prod.mk.inj (Option.some.inj stepped)
      by_cases free : t.veBuffUsingFlag = veBuffNotUsing
      · exact .takes _ rfl free rfl rfl (if_neg (not_not.mpr free)) (congrArg some free)
      · exact .finds _ rfl free rfl rfl (if_pos free)
    | _ => nomatch stepped
  | getspecific =>
    cases answer with
    | quiet =>
      have moved : (match t.resources with
        | none => t.goOn ⟨request, .getspecific, swapped⟩ rest .chkEnvInitDma
        | some res => t.goOn ⟨request, .getspecific, swapped⟩ rest
            (.preReturned (.success (res.info env)))) = some (action, t') := stepped
      cases found : t.resources with
      | none =>
        rw [found] at moved
        exact .goOn moved rfl (fun left => nomatch left)
      | some res =>
        rw [found] at moved
        exact .goOn moved rfl (fun left => nomatch left)
    | _ => nomatch stepped
  | chkEnvInitDma =>
    cases answer with
    | ok => exact .goOn stepped rfl (fun left => nomatch left)
    | failed => exact .goOn stepped rfl (fun left => nomatch left)
    | _ => nomatch stepped
  | malloc =>
    cases answer with
    | address veIoBuff => exact .goOn stepped rfl (fun left => nomatch left)
    | failed => exact .goOn stepped rfl (fun left => nomatch left)
    | _ => nomatch stepped
  | init2 veIoBuff =>
    cases answer with
    | vhBuffer vhva vehva localVehva => exact .goOn stepped rfl (fun left => nomatch left)
    | failed => exact .goOn stepped rfl (fun left => nomatch left)
    | _ => nomatch stepped
  | free =>
    cases answer with
    | quiet => exact .goOn stepped rfl (fun left => nomatch left)
    | _ => nomatch stepped
  | setspecific res =>
    cases answer with
    | ok =>
      exact FrameMove.goOn (t := { t with resources := some res }) stepped rfl
        (fun left => nomatch left)
    | failed => exact .goOn stepped rfl (fun left => nomatch left)
    | _ => nomatch stepped
  | releaseResource =>
    cases answer with
    | quiet => exact .goOn stepped rfl (fun left => nomatch left)
    | _ => nomatch stepped
  | listInsert res =>
    cases answer with
    | quiet => exact .goOn stepped rfl (fun left => nomatch left)
    | _ => nomatch stepped
  | unlock retval =>
    cases answer with
    | quiet =>
      refine .unlock stepped rfl ?_
      cases retval <;> rfl
    | _ => nomatch stepped
  | preReturned ret =>
    cases ret with
    | success io =>
      cases answer with
      | surroundings env' w => exact .goOn stepped rfl (fun left => nomatch left)
      | _ => nomatch stepped
    | fail =>
      cases answer with
      | quiet => exact .goOn stepped rfl (fun left => nomatch left)
      | _ => nomatch stepped
    | noBuf =>
      cases answer with
      | quiet => exact .goOn stepped rfl (fun _ => rfl)
      | _ => nomatch stepped
  | freeIoHook =>
    cases answer with
    | quiet => exact .goOn stepped rfl (fun left => nomatch left)
    | _ => nomatch stepped
  | plain =>
    cases answer with
    | quiet =>
      obtain ⟨rfl, rfl⟩ := Prod.mk.inj (Option.some.inj stepped)
      exact .goesOn _ rfl rfl rfl rfl (fun _ => ⟨rfl, .inr rfl⟩)
    | _ => nomatch stepped
  | transfer events =>
    cases answer with
    | quiet =>
      cases events with
      | nil => exact .goOn stepped rfl (fun left => nomatch left)
      | cons event events =>
        obtain ⟨rfl, rfl⟩ := Prod.mk.inj (Option.some.inj stepped)
        exact .goesOn _ rfl rfl rfl rfl (fun left => nomatch left)
    | _ =>
      cases events with
      | nil => nomatch stepped
      | cons event events => nomatch stepped
  | post =>
    cases answer with
    | quiet => exact .unlock stepped rfl rfl
    | _ => nomatch stepped
  | exit =>
    cases answer with
    | quiet =>
      obtain ⟨rfl, rfl⟩ := Prod.mk.inj (Option.some.inj stepped)
      exact .returns rfl rfl rfl (.inl rfl)
    | _ => nomatch stepped

/-! ## The stack -/

def holders (frames : List IoFrame) : Nat := frames.countP fun f => f.point.holds

/-- A call that has found the flag taken is through with it, and a call below it has it. -/
def Waiting : List IoFrame → Prop
  | [] => True
  | f :: rest => (f.FoundTaken → f.point.outside = true ∧ 1 ≤ holders rest) ∧ Waiting rest

/-- The flag says whether there is a holder, and there is one at most. -/
structure OneOwner (t : IoThread) : Prop where
  flag : t.veBuffUsingFlag = holders t.frames
  single : holders t.frames ≤ 1
  waiting : Waiting t.frames

theorem holders_cons_true (held : f.point.holds = true) : holders (f :: rest) = holders rest + 1 :=
  List.countP_cons_of_pos held

theorem holders_cons_false (out : f.point.holds = false) : holders (f :: rest) = holders rest :=
  List.countP_cons_of_neg (by simp [out])

theorem IoPoint.holds_outside {point : IoPoint} (left : point.outside = true) :
    point.holds = false := by
  cases point with
  | preReturned ret => cases ret <;> first | rfl | nomatch left
  | plain => rfl
  | exit => rfl
  | _ => nomatch left

theorem OneOwner.call {request : IoRequest} (owner : OneOwner t) :
    OneOwner { t with
      frames := { request := request, point := .entry, swapped := none } :: t.frames } := by
  have same : holders ({ request := request, point := .entry, swapped := none } :: t.frames) =
      holders t.frames := holders_cons_false rfl
  refine ⟨?_, ?_, ?_, owner.waiting⟩
  · rw [same]
    exact owner.flag
  · rw [same]
    exact owner.single
  · rintro ⟨old, swapped, _⟩
    exact absurd swapped (by simp)

theorem OneOwner.move (owner : OneOwner t) (running : t.frames = f :: rest)
    (move : FrameMove t.veBuffUsingFlag f rest t' action) : OneOwner t' := by
  obtain ⟨flag, single, waiting⟩ := owner
  rw [running] at flag single waiting
  obtain ⟨found, later⟩ := waiting
  cases move with
  | goesOn f' frames same holds swapped outside =>
    have count : holders (f' :: rest) = holders (f :: rest) := by
      rw [holders, holders, List.countP_cons, List.countP_cons, holds]
    refine ⟨?_, ?_, ?_⟩
    · rw [same, flag, frames, count]
    · rw [frames, count]
      exact single
    · rw [frames]
      refine ⟨fun taken => ?_, later⟩
      rw [IoFrame.FoundTaken, swapped] at taken
      exact ⟨(outside (found taken).1).1, (found taken).2⟩
  | takes f' frames free taken before after swapped =>
    have out : holders (f :: rest) = holders rest := holders_cons_false (by rw [before]; rfl)
    have held : holders (f' :: rest) = holders rest + 1 :=
      holders_cons_true (by rw [after]; rfl)
    rw [free, out, veBuffNotUsing] at flag
    refine ⟨?_, ?_, ?_⟩
    · rw [taken, frames, held, veBuffUsing]
      omega
    · rw [frames, held]
      omega
    · rw [frames]
      refine ⟨?_, later⟩
      rintro ⟨old, here, other⟩
      rw [swapped, Option.some.injEq] at here
      exact absurd here.symm other
  | finds f' frames busy taken before after =>
    have out : holders (f :: rest) = holders rest := holders_cons_false (by rw [before]; rfl)
    have out' : holders (f' :: rest) = holders rest := holders_cons_false (by rw [after]; rfl)
    rw [out] at flag single
    rw [veBuffNotUsing] at busy
    refine ⟨?_, ?_, ?_⟩
    · rw [taken, frames, out', veBuffUsing]
      omega
    · rw [frames, out']
      exact single
    · rw [frames]
      exact ⟨fun _ => ⟨by rw [after]; rfl, by omega⟩, later⟩
  | releases f' frames free before after swapped =>
    have held : holders (f :: rest) = holders rest + 1 := holders_cons_true before
    have out' : holders (f' :: rest) = holders rest := holders_cons_false after
    refine ⟨?_, ?_, ?_⟩
    · rw [free, frames, out', veBuffNotUsing]
      omega
    · rw [frames, out']
      omega
    · rw [frames]
      refine ⟨fun taken => ?_, later⟩
      rw [IoFrame.FoundTaken, swapped] at taken
      rw [IoPoint.holds_outside (found taken).1] at before
      exact absurd before Bool.false_ne_true
  | returns frames same before plain =>
    have out : holders (f :: rest) = holders rest := holders_cons_false (by rw [before]; rfl)
    rw [out] at flag single
    refine ⟨?_, ?_, ?_⟩
    · rw [same, flag, frames]
    · rw [frames]
      exact single
    · rw [frames]
      exact later

/-! ## Runs -/

abbrev IoEntry := Entry IoThread IoLabel IoAction

/-- A step of a call that has found the flag taken: nothing but the plain system call, and the
flag stays taken. -/
def LeavesFlag (e : IoEntry) : Prop :=
  ∀ answer f rest, e.label = .step answer → e.before.frames = f :: rest → f.FoundTaken →
    e.out.Plain ∧ e.after.veBuffUsingFlag = veBuffUsing

theorem OneOwner.leavesFlag (owner : OneOwner t) (running : t.frames = f :: rest)
    (move : FrameMove t.veBuffUsingFlag f rest t' action) (taken : f.FoundTaken) :
    action.Plain ∧ t'.veBuffUsingFlag = veBuffUsing := by
  obtain ⟨flag, single, waiting⟩ := owner
  rw [running] at flag single waiting
  obtain ⟨outside, below⟩ := waiting.1 taken
  have out : holders (f :: rest) = holders rest :=
    holders_cons_false (IoPoint.holds_outside outside)
  rw [out] at flag single
  have using' : t.veBuffUsingFlag = veBuffUsing := by
    rw [veBuffUsing]
    omega
  cases move with
  | goesOn f' frames same holds swapped left => exact ⟨(left outside).2, same.trans using'⟩
  | returns frames same before plain => exact ⟨plain, same.trans using'⟩
  | takes f' frames free taken before after swapped =>
    rw [before] at outside
    exact absurd outside (by decide)
  | finds f' frames busy taken before after =>
    rw [before] at outside
    exact absurd outside (by decide)
  | releases f' frames free before after swapped =>
    rw [IoPoint.holds_outside outside] at before
    exact absurd before Bool.false_ne_true

theorem IoPoint.holds_of_transfers {point : IoPoint} (transfers : point.transfers = true) :
    point.holds = true := by
  cases point with
  | preReturned ret => cases ret <;> first | rfl | nomatch transfers
  | transfer rest => rfl
  | post => rfl
  | _ => nomatch transfers

theorem OneOwner.step {label : IoLabel} (owner : OneOwner t)
    (stepped : t.step env pdma label = some (action, t')) :
    OneOwner t' ∧ LeavesFlag ⟨t, label, action, t'⟩ := by
  cases label with
  | call request =>
    obtain ⟨rfl, rfl⟩ := Prod.mk.inj (Option.some.inj stepped)
    exact ⟨owner.call, fun answer f rest here => nomatch here⟩
  | step answer =>
    have moved : (match t.frames with
      | [] => none
      | f :: rest => t.stepFrame env pdma f rest answer) = some (action, t') := stepped
    cases running : t.frames with
    | nil =>
      rw [running] at moved
      nomatch moved
    | cons f rest =>
      rw [running] at moved
      have move := stepFrame_move moved
      refine ⟨owner.move running move, fun _ f' rest' _ here taken => ?_⟩
      obtain ⟨rfl, rfl⟩ := List.cons.inj (running.symm.trans here)
      exact owner.leavesFlag running move taken

/-- In every run of a thread that starts with the buffers free: one call at most is between
`ve_accelerated_io_pre` and `ve_accelerated_io_post`, a call that has found the flag taken makes
the plain system call only and leaves the flag, and the flag is free when no call is left. -/
theorem buffers_one_owner (env : Env) (pdma : Bool) (start final : IoThread)
    (trace : List IoEntry) (free : start.veBuffUsingFlag = veBuffNotUsing)
    (idle : start.frames = []) (run : (IoThread.machine env pdma).Run start trace final) :
    (final.frames.filter fun f => f.point.transfers).length ≤ 1 ∧
      (∀ e ∈ trace, LeavesFlag e) ∧
      (final.frames = [] → final.veBuffUsingFlag = veBuffNotUsing) := by
  have initially : OneOwner start := by
    refine ⟨?_, ?_, ?_⟩
    · rw [free, idle]
      rfl
    · rw [idle]
      exact Nat.zero_le 1
    · rw [idle]
      trivial
  have each : ∀ t label action t', OneOwner t →
      (IoThread.machine env pdma).step t label = some (action, t') →
        OneOwner t' ∧ LeavesFlag ⟨t, label, action, t'⟩ :=
    fun _ _ _ _ owner stepped => owner.step stepped
  obtain ⟨owner, leaves⟩ := run.every initially each
  refine ⟨?_, leaves, fun none => ?_⟩
  · rw [← List.countP_eq_length_filter]
    exact (List.countP_mono_left (fun f _ => IoPoint.holds_of_transfers)).trans owner.single
  · rw [owner.flag, none]
    rfl

/-- A handler interrupts the first write of a thread, which has just set its resources, with a
read. -/
def interruptedWrite : List IoLabel :=
  let quiet := IoLabel.step .quiet
  [.call (.writePwrite .write 7 4096 1 0), quiet, quiet, quiet, quiet, .step .ok,
    .step (.address 8192), .step (.vhBuffer 12288 16384 20480), .step .ok,
    .call (.readPread .read 8 4096 1 0), quiet, quiet, quiet, quiet, quiet, quiet,
    quiet, .step (.surroundings (.steady 1) .blank), quiet, quiet, quiet, quiet, quiet, quiet,
    quiet]

theorem buffers_one_owner_interrupted :
    ∃ trace final, (IoThread.machine (.steady 1) false).Run ⟨veBuffNotUsing, none, []⟩ trace final ∧
      trace.length = interruptedWrite.length ∧ final.frames = [] ∧
      (final.frames.filter fun f => f.point.transfers).length ≤ 1 ∧
      (∀ e ∈ trace, LeavesFlag e) ∧
      (final.frames = [] → final.veBuffUsingFlag = veBuffNotUsing) := by
  have checked : ((IoThread.machine (.steady 1) false).exec ⟨veBuffNotUsing, none, []⟩
      interruptedWrite).any (fun done => done.1.length == interruptedWrite.length &&
        done.2.frames.isEmpty) = true := by
    decide +kernel
  rw [Option.any_eq_true] at checked
  obtain ⟨⟨trace, final⟩, done, holds⟩ := checked
  rw [Bool.and_eq_true, beq_iff_eq, List.isEmpty_iff] at holds
  exact ⟨trace, final, Machine.exec_run done, holds.1, holds.2,
    buffers_one_owner (.steady 1) false ⟨veBuffNotUsing, none, []⟩ final trace rfl rfl
      (Machine.exec_run done)⟩

end Libsysve.AccIo
