import LiveExpr.Machine.Frame
import LiveExpr.Registry

/-!
Running a program: a stack of frames, the instructions left to spend, and the
names called so far. Names are resolved at the moment of the call, and natives are
invoked in whatever monad their effects live in. Leaving a frame costs nothing,
but a frame is entered by an instruction, so twice the budget bounds the steps.
-/
namespace LiveExpr

/-- What an evaluation needs from outside. -/
structure Environment (m : Type → Type) (φ : Type) where
  resolve : String → m (Behavior φ)
  invoke : φ → List Value → m Value

/-- What one evaluation has used so far. -/
structure Session where
  budget : Nat
  /-- Names called, in the order of their first call. -/
  dependencies : List String
  /-- Whether a native was called whose results may change unannounced. -/
  volatile : Bool

namespace Session

def spend (s : Session) : Session := { s with budget := s.budget - 1 }

def record (s : Session) (name : String) : Session :=
  { s with dependencies := Names.note s.dependencies name }

def touch (s : Session) (deterministic : Bool) : Session :=
  { s with volatile := s.volatile || !deterministic }

end Session

structure Evaluation where
  value : Value
  dependencies : List String
  volatile : Bool

/-- The frames that wait for a call, innermost first. -/
structure Callers where
  frames : List Frame
  depth : Nat
  depth_eq : depth = frames.length

namespace Callers

def none : Callers := ⟨[], 0, rfl⟩

def push (c : Callers) (f : Frame) : Callers :=
  ⟨f :: c.frames, c.depth + 1, by simp [c.depth_eq]⟩

end Callers

/-- The frame that runs, the frames that wait for it, and the session. -/
structure Machine where
  top : Frame
  callers : Callers
  session : Session

inductive Progress where
  | running (state : Machine)
  | finished (outcome : Except Fault Evaluation)

namespace Machine

variable {m : Type → Type} [Monad m] {φ : Type}

def start (limits : Limits) (program : Program) (args : List Value) : Machine :=
  ⟨Frame.enter program args 0, .none, ⟨limits.instructionBudget, [], false⟩⟩

def fail (f : Fault) : Progress := .finished (.error f)

/-- Gives the value of a frame that was entered at `site` to the waiting caller, or ends the
evaluation with it. -/
def leave (limits : Limits) (site : Nat) (v : Value) : Callers → Session → Progress
  | ⟨[], _, _⟩, session => .finished (.ok ⟨v, session.dependencies, session.volatile⟩)
  | ⟨caller :: rest, depth, h⟩, session =>
    match caller.push limits.maxStack site v with
    | .error f => fail f
    | .ok caller =>
      .running ⟨{ caller with pc := caller.resume }, ⟨rest, depth - 1, by simp [h]⟩, session⟩

/-- The top frame goes on behind its call with the value of the call. -/
def supply (limits : Limits) (next : Nat) (v : Value) : Machine → Progress
  | ⟨top, callers, session⟩ =>
    match top.push limits.maxStack top.pc v with
    | .error f => fail f
    | .ok top => .running ⟨{ top with pc := next }, callers, session⟩

def enter (limits : Limits) (s : Machine) (next : Nat) (p : Program) (args : List Value) :
    Progress :=
  if limits.maxCallDepth < s.callers.depth + 1 then
    fail ⟨s.top.pc, .callDepthExceeded limits.maxCallDepth⟩
  else
    .running ⟨Frame.enter p args s.top.pc, s.callers.push { s.top with resume := next }, s.session⟩

def record (s : Machine) (name : String) : Machine :=
  { s with session := s.session.record name }

def touch (s : Machine) (deterministic : Bool) : Machine :=
  { s with session := s.session.touch deterministic }

@[specialize]
def call (env : Environment m φ) (limits : Limits) (s : Machine) (next : Nat) (name : String)
    (args : List Value) : m Progress := do
  match ← env.resolve name with
  | .unbound => pure (supply limits next .unset s)
  | .native function deterministic =>
    let v ← env.invoke function args
    pure (supply limits next v (s.touch deterministic))
  | .user p => pure (s.enter limits next p args)

/-- What the machine comes to by itself, before a name is resolved. -/
inductive Turn where
  | moved (p : Progress)
  /-- The top frame has given up the arguments of its call and waits for the value. -/
  | calls (name : String) (args : List Value) (next : Nat) (s : Machine)

/-- One instruction of the top frame, or its end. -/
def turn (limits : Limits) (s : Machine) : Turn :=
  if s.top.atEnd then .moved (leave limits s.top.callSite s.top.result s.callers s.session)
  else if s.session.budget = 0 then
    .moved (fail ⟨s.top.pc, .budgetExhausted limits.instructionBudget⟩)
  else
    let ⟨top, callers, session⟩ := s
    let session := session.spend
    match top.advance limits.maxStack with
    | .error f => .moved (fail f)
    | .ok (.goOn top) => .moved (.running ⟨top, callers, session⟩)
    | .ok (.leave v site) => .moved (leave limits site v callers session)
    | .ok (.call name args top next) => .calls name args next (record ⟨top, callers, session⟩ name)

section Turn

variable {limits : Limits} {s : Machine}

theorem turn_atEnd (h : s.top.atEnd) :
    s.turn limits = .moved (leave limits s.top.callSite s.top.result s.callers s.session) := by
  simp only [turn, if_pos h]

theorem turn_spent (hend : ¬ s.top.atEnd) (h : s.session.budget = 0) :
    s.turn limits = .moved (fail ⟨s.top.pc, .budgetExhausted limits.instructionBudget⟩) := by
  simp only [turn, if_neg hend, if_pos h]

theorem turn_error (hend : ¬ s.top.atEnd) (hb : s.session.budget ≠ 0) {f : Fault}
    (h : s.top.advance limits.maxStack = .error f) : s.turn limits = .moved (fail f) := by
  simp only [turn, if_neg hend, if_neg hb, h]

theorem turn_goOn (hend : ¬ s.top.atEnd) (hb : s.session.budget ≠ 0) {f : Frame}
    (h : s.top.advance limits.maxStack = .ok (.goOn f)) :
    s.turn limits = .moved (.running ⟨f, s.callers, s.session.spend⟩) := by
  simp only [turn, if_neg hend, if_neg hb, h]

theorem turn_leave (hend : ¬ s.top.atEnd) (hb : s.session.budget ≠ 0) {v : Value} {site : Nat}
    (h : s.top.advance limits.maxStack = .ok (.leave v site)) :
    s.turn limits = .moved (leave limits site v s.callers s.session.spend) := by
  simp only [turn, if_neg hend, if_neg hb, h]

theorem turn_call (hend : ¬ s.top.atEnd) (hb : s.session.budget ≠ 0) {name : String}
    {args : List Value} {f : Frame} {next : Nat}
    (h : s.top.advance limits.maxStack = .ok (.call name args f next)) :
    s.turn limits = .calls name args next (record ⟨f, s.callers, s.session.spend⟩ name) := by
  simp only [turn, if_neg hend, if_neg hb, h]

end Turn

@[specialize]
def step (env : Environment m φ) (limits : Limits) (s : Machine) : m Progress :=
  match s.turn limits with
  | .moved p => pure p
  | .calls name args next s => s.call env limits next name args

/-- At most `steps` steps; the fault for running out of them is the one of an empty budget. -/
@[specialize]
def run (env : Environment m φ) (limits : Limits) : Nat → Machine → m (Except Fault Evaluation)
  | 0, s => pure (.error ⟨s.top.pc, .budgetExhausted limits.instructionBudget⟩)
  | steps + 1, s => do
    match ← s.step env limits with
    | .running s => run env limits steps s
    | .finished outcome => pure outcome

/-- Twice the budget and one, which is more than any evaluation needs. -/
def stepBound (limits : Limits) : Nat := 2 * limits.instructionBudget + 1

end Machine

@[specialize]
def evaluate {m : Type → Type} [Monad m] {φ : Type} (env : Environment m φ) (limits : Limits)
    (program : Program) (args : List Value) : m (Except Fault Evaluation) :=
  Machine.run env limits (Machine.stepBound limits) (Machine.start limits program args)

end LiveExpr
