import LiveExpr.Proofs.Activation
import LiveExpr.Proofs.Alignment

/-!
The loop that runs a machine, with its rounds and the instructions it executes counted.
A round in which a frame comes to the end of its code takes no instruction, so the budget
alone does not bound the rounds. But a frame is entered by an instruction, and so there
are no more such rounds than instructions, and one for the frame at the bottom.
-/
namespace LiveExpr

namespace Machine

/-- The instructions that the next step executes. -/
def cost (s : Machine) : Nat := if s.Executes then 1 else 0

theorem cost_of_executes {s : Machine} (h : s.Executes) : s.cost = 1 := if_pos h

theorem cost_of_atEnd {s : Machine} (h : s.top.atEnd) : s.cost = 0 := if_neg fun hs => hs.1 h

theorem cost_of_spent {s : Machine} (h : s.session.budget = 0) : s.cost = 0 :=
  if_neg fun hs => hs.2 h

theorem cost_le_budget (s : Machine) : s.cost ≤ s.session.budget := by
  unfold cost
  split
  · rename_i hs
    exact Nat.pos_of_ne_zero hs.2
  · exact Nat.zero_le _

variable {σ φ : Type} {env : Environment (StateT σ Option) φ} {limits : Limits}

/-- The loop goes from this state, in the world `x`, for a number of rounds in which it executes a
number of instructions, and ends with the outcome. -/
inductive Loops (env : Environment (StateT σ Option) φ) (limits : Limits) :
    Machine → σ → Nat → Nat → Except Fault Evaluation → σ → Prop
  | last {s : Machine} {x y : σ} {outcome : Except Fault Evaluation}
      (hstep : (s.step env limits).run x = some (.finished outcome, y)) :
      Loops env limits s x 1 s.cost outcome y
  | round {s t : Machine} {x y z : σ} {rounds instructions : Nat}
      {outcome : Except Fault Evaluation} (hstep : (s.step env limits).run x = some (.running t, y))
      (h : Loops env limits t y rounds instructions outcome z) :
      Loops env limits s x (rounds + 1) (s.cost + instructions) outcome z

section Measure

open Activation

theorem leave_running {site : Nat} {v : Value} {callers : Callers} {session : Session}
    {t : Machine} (h : leave limits site v callers session = .running t) :
    t.session = session := by
  obtain ⟨frames, depth, hdepth⟩ := callers
  cases frames with
  | nil => cases h
  | cons caller rest =>
    simp only [leave] at h
    split at h
    · cases h
    · cases h
      rfl

theorem supply_running {next : Nat} {v : Value} {s t : Machine}
    (h : supply limits next v s = .running t) :
    t.session = s.session ∧ t.callers = s.callers := by
  simp only [supply] at h
  split at h
  · cases h
  · cases h
    exact ⟨rfl, rfl⟩

theorem enter_running {next : Nat} {p : Program} {args : List Value} {s t : Machine}
    (h : s.enter limits next p args = .running t) :
    t.session = s.session ∧ t.callers.depth = s.callers.depth + 1 := by
  unfold enter at h
  split at h
  · cases h
  · cases h
    exact ⟨rfl, rfl⟩

/-- A call that is answered costs nothing more, and at most one frame is entered. -/
theorem Resolved.running {s t : Machine} {next : Nat} {name : String} {args : List Value} {x y : σ}
    (h : Resolved env limits s next name args x (.running t) y) :
    t.session.budget = s.session.budget ∧ t.callers.depth ≤ s.callers.depth + 1 := by
  generalize hp : Progress.running t = p at h
  cases h with
  | unbound =>
    obtain ⟨hsession, hcallers⟩ := supply_running hp.symm
    rw [hsession, hcallers]
    exact ⟨rfl, Nat.le_succ _⟩
  | native =>
    obtain ⟨hsession, hcallers⟩ := supply_running hp.symm
    rw [hsession, hcallers]
    exact ⟨rfl, Nat.le_succ _⟩
  | user =>
    obtain ⟨hsession, hdepth⟩ := enter_running hp.symm
    rw [hsession, hdepth]
    exact ⟨rfl, Nat.le_refl _⟩

/-- A step spends what it costs. If it costs nothing a frame is left by it, so that in any case
there are fewer steps left. -/
theorem Stepped.running {s t : Machine} {x y : σ} (h : Stepped env limits s x (.running t) y) :
    t.session.budget + s.cost = s.session.budget ∧ stepsLeft t < stepsLeft s := by
  -- Only a frame that has run off its end is left for nothing, and then there is one frame less.
  have hspend (hs : s.Executes) : s.session.spend.budget + 1 = s.session.budget :=
    Nat.succ_pred_eq_of_ne_zero hs.2
  generalize hp : Progress.running t = p at h
  cases h with
  | ended hend =>
    have hleft := stepsLeft_leave hp.symm
    rw [cost_of_atEnd hend, leave_running hp.symm]
    exact ⟨rfl, Nat.lt_succ_of_le hleft⟩
  | spent => cases hp
  | failed => cases hp
  | wentOn hs =>
    cases hp
    have hbudget := hspend hs
    simp only [cost_of_executes hs, stepsLeft]
    omega
  | left hs =>
    have hleft := stepsLeft_leave hp.symm
    have hbudget := hspend hs
    rw [cost_of_executes hs, leave_running hp.symm]
    refine ⟨hbudget, ?_⟩
    simp only [stepsLeft] at hleft ⊢
    omega
  | called hs hadv hcall =>
    subst hp
    obtain ⟨hsame, hdepth⟩ := hcall.running
    have hbudget := hspend hs
    simp only [calling, record, Session.record] at hsame hdepth
    simp only [cost_of_executes hs, stepsLeft]
    omega

/-- Neither the rounds nor the instructions are more than the state allows. -/
theorem Loops.bounded {s : Machine} {x y : σ} {rounds instructions : Nat}
    {outcome : Except Fault Evaluation} (h : Loops env limits s x rounds instructions outcome y) :
    rounds ≤ stepsLeft s ∧ instructions ≤ s.session.budget := by
  induction h with
  | @last s x y outcome hstep =>
    refine ⟨?_, s.cost_le_budget⟩
    simp only [stepsLeft]
    omega
  | round hstep _ ih =>
    obtain ⟨hbudget, hleft⟩ := (step_iff.mp hstep).running
    omega

/-- The loop ends from every state, unless something outside gives no answer. -/
theorem exists_loops (henv : ¬ env.MayHang) (limits : Limits) (s : Machine) (x : σ) :
    ∃ rounds instructions outcome y, Loops env limits s x rounds instructions outcome y := by
  induction hn : stepsLeft s using Nat.strong_induction_on generalizing s x with
  | h n ih =>
    cases hstep : (s.step env limits).run x with
    | none => exact (henv (mayHang_of_step hstep)).elim
    | some found =>
      obtain ⟨p, y⟩ := found
      cases p with
      | finished outcome => exact ⟨1, s.cost, outcome, y, .last hstep⟩
      | running t =>
        have hleft := (step_iff.mp hstep).running.2
        obtain ⟨rounds, instructions, outcome, z, h⟩ := ih _ (hn ▸ hleft) t y rfl
        exact ⟨rounds + 1, s.cost + instructions, outcome, z, .round hstep h⟩

end Measure

theorem Loops.run {s : Machine} {x y : σ} {rounds instructions : Nat}
    {outcome : Except Fault Evaluation} (h : Loops env limits s x rounds instructions outcome y)
    {steps : Nat} (hsteps : rounds ≤ steps) :
    (s.run env limits steps).run x = some (outcome, y) := by
  induction h generalizing steps with
  | @last s x y outcome hstep =>
    cases steps with
    | zero => omega
    | succ steps =>
      rw [Machine.run, StateT.run_bind, hstep]
      rfl
  | round hstep _ ih =>
    cases steps with
    | zero => omega
    | succ steps =>
      rw [Machine.run, StateT.run_bind, hstep]
      exact ih (Nat.le_of_succ_le_succ hsteps)

theorem loops_of_run {s : Machine} {x y : σ} {steps : Nat} {outcome : Except Fault Evaluation}
    (h : (s.run env limits steps).run x = some (outcome, y))
    (hsteps : Activation.stepsLeft s ≤ steps) :
    ∃ rounds instructions, Loops env limits s x rounds instructions outcome y := by
  induction steps generalizing s x with
  | zero =>
    simp only [Activation.stepsLeft] at hsteps
    omega
  | succ steps ih =>
    rw [Machine.run, StateT.run_bind] at h
    obtain ⟨⟨p, x'⟩, hstep, hrest⟩ := Option.bind_eq_some_iff.mp h
    cases p with
    | finished outcome' =>
      cases hrest
      exact ⟨1, s.cost, .last hstep⟩
    | running t =>
      have hleft := (step_iff.mp hstep).running.2
      obtain ⟨rounds, instructions, hloops⟩ := ih hrest (by omega)
      exact ⟨rounds + 1, s.cost + instructions, .round hstep hloops⟩

variable {program : Program} {args : List Value} {x : σ}

/-- An evaluation is a run of the loop: the steps that it is allowed are enough. -/
theorem evaluate_iff_loops {outcome : Except Fault Evaluation} {y : σ} :
    (evaluate env limits program args).run x = some (outcome, y) ↔ ∃ rounds instructions,
      Loops env limits (.start limits program args) x rounds instructions outcome y :=
  ⟨fun h => loops_of_run h (Nat.le_refl _), fun ⟨_, _, h⟩ => h.run h.bounded.1⟩

/-- The loop that evaluates a program ends, and what it ends with is what the evaluation comes to.
It takes no more rounds than twice the budget and one, and no more instructions than the budget. -/
theorem evaluate_bounded (henv : ¬ env.MayHang) (limits : Limits) (program : Program)
    (args : List Value) (x : σ) :
    (∃ rounds instructions outcome y,
      Loops env limits (.start limits program args) x rounds instructions outcome y ∧
        (evaluate env limits program args).run x = some (outcome, y)) ∧
    ∀ rounds instructions outcome y,
      Loops env limits (.start limits program args) x rounds instructions outcome y →
        rounds ≤ 2 * limits.instructionBudget + 1 ∧ instructions ≤ limits.instructionBudget := by
  constructor
  · obtain ⟨rounds, instructions, outcome, y, h⟩ :=
      exists_loops henv limits (.start limits program args) x
    exact ⟨rounds, instructions, outcome, y, h, evaluate_iff_loops.mpr ⟨rounds, instructions, h⟩⟩
  · intro rounds instructions outcome y h
    exact h.bounded

/-- Two functions that call each other without end. -/
theorem evaluate_bounded_recursion :
    let calling (name : String) : Program := ⟨Instruction.encode (.call name 0), 0⟩
    let env : Environment (StateT Nat Option) Unit :=
      { resolve := fun name => do
          modify (· + 1)
          return .user (calling (if name = "F" then "G" else "F"))
        invoke := fun _ _ => return .unset }
    let limits : Limits := ⟨1, 9, 3⟩
    ¬ env.MayHang ∧ ∃ rounds instructions,
      Loops env limits (.start limits (calling "F") []) 0 rounds instructions
        (.error ⟨0, .budgetExhausted 3⟩) 3 ∧
      rounds ≤ 7 ∧ instructions ≤ 3 := by
  intro calling env limits
  have henv : ¬ env.MayHang := by
    rintro (⟨name, x, h⟩ | ⟨f, args, x, h⟩) <;> cases h
  have heval : (evaluate env limits (calling "F") []).run 0 =
      some (.error ⟨0, .budgetExhausted 3⟩, 3) := by
    cbv
  obtain ⟨⟨rounds, instructions, outcome, y, h, hrun⟩, hbounds⟩ :=
    evaluate_bounded henv limits (calling "F") [] 0
  cases heval.symm.trans hrun
  exact ⟨henv, rounds, instructions, h, hbounds _ _ _ _ h⟩

end Machine

end LiveExpr
