import LiveExpr.Proofs.Execution

/-!
The names that a run of the machine calls, for natives that are functions of their
arguments. They are read off the instructions that the machine stands before, one
state after the other.
-/
namespace LiveExpr

/-- Natives that do nothing but compute a value, under a registry that stays as it is. -/
def Registry.environment {φ : Type} (apply : φ → List Value → Value) (r : Registry φ) :
    Environment Id φ where
  resolve := r.resolve
  invoke := apply

def Effect.calledName? : Effect → Option String
  | .call name _ _ _ => some name
  | _ => none

namespace Frame

/-- Only a call instruction calls, and it calls the name it holds. -/
theorem execute_calledName? {limit next : Nat} {f : Frame} {i : Instruction} {x : Effect}
    (h : f.execute limit next i = .ok x) : x.calledName? = i.calledName? := by
  have hobeys := f.execute_obeys limit next i
  rw [h] at hobeys
  cases hobeys with
  | passed _ hi => exact hi.symm
  | jumped _ hrel => cases i <;> first | rfl | cases hrel
  | called _ hi => exact hi.symm
  | left hi => rw [hi]; rfl

end Frame

namespace Machine

/-- The name in the call instruction that the machine stands before, if it is one. -/
def calledName? (s : Machine) : Option String :=
  match decode s.top.program.code s.top.pc with
  | .ok (i, _) => i.calledName?
  | .error _ => none

theorem calledName?_of_atEnd {s : Machine} (h : s.top.atEnd) : s.calledName? = none := by
  have hsize : ¬ s.top.pc < s.top.program.code.size := by
    have hle : s.top.program.code.size ≤ s.top.pc := of_decide_eq_true h
    omega
  simp [calledName?, decode, hsize]

theorem calledName?_of_advance {s : Machine} {limit : Nat} {x : Effect}
    (h : s.top.advance limit = .ok x) : s.calledName? = x.calledName? := by
  unfold calledName?
  cases hd : decode s.top.program.code s.top.pc with
  | error fault =>
    rw [Frame.advance_of_decode_error hd] at h
    cases h
  | ok found =>
    rw [Frame.advance_of_decode hd] at h
    exact (Frame.execute_calledName? h).symm

variable {φ : Type}

/-- The states of a run, from the given one on. -/
def trace (env : Environment Id φ) (limits : Limits) : Nat → Machine → List Machine
  | 0, _ => []
  | steps + 1, s =>
    s :: match (s.step env limits).run with
      | .running t => trace env limits steps t
      | .finished _ => []

/-- The names of the calls that a run executes, in order and with repetitions. -/
def calledNames (env : Environment Id φ) (limits : Limits) (steps : Nat) (s : Machine) :
    List String :=
  (trace env limits steps s).filterMap calledName?

theorem calledNames_succ (env : Environment Id φ) (limits : Limits) (steps : Nat) (s : Machine) :
    calledNames env limits (steps + 1) s =
      s.calledName?.toList ++ match (s.step env limits).run with
        | .running t => calledNames env limits steps t
        | .finished _ => [] := by
  simp only [calledNames, trace]
  cases (s.step env limits).run with
  | running t => cases h : s.calledName? <;> simp [h]
  | finished outcome => cases h : s.calledName? <;> simp [h]

variable {apply : φ → List Value → Value} {r : Registry φ} {limits : Limits}

theorem call_environment (s : Machine) (next : Nat) (name : String) (args : List Value) :
    s.call (r.environment apply) limits next name args =
      match r.resolve name with
      | .unbound => supply limits next .unset s
      | .native f deterministic => supply limits next (apply f args) (s.touch deterministic)
      | .user p => s.enter limits next p args := by
  change (match r.resolve name with
    | .unbound => _
    | .native f deterministic => _
    | .user p => _) = _
  cases r.resolve name <;> rfl

theorem run_environment (steps : Nat) (s : Machine) :
    s.run (r.environment apply) limits (steps + 1) =
      match (s.step (r.environment apply) limits).run with
      | .running t => t.run (r.environment apply) limits steps
      | .finished outcome => outcome := rfl

end Machine

end LiveExpr
