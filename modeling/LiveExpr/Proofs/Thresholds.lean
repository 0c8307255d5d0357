import LiveExpr.Proofs.Loops

/-!
What the limits decide. A machine with more to spend goes through the same states, only
with more to spend, and a higher stack or a greater depth makes no difference to a step
that does not fail. So the number of instructions that an evaluation executes is the least
budget under which it ends as it does.
-/
namespace LiveExpr

namespace Session

/-- The same session with another budget. -/
def rebudget (b : Nat) (s : Session) : Session := { s with budget := b }

end Session

namespace Frame

variable {limit limit' : Nat} (hle : limit ≤ limit') {f : Frame}

include hle

theorem push_mono {offset : Nat} {v : Value} {g : Frame} (h : f.push limit offset v = .ok g) :
    f.push limit' offset v = .ok g := by
  obtain ⟨hroom, hg⟩ := push_eq_ok_iff.mp h
  exact push_eq_ok_iff.mpr ⟨Nat.lt_of_lt_of_le hroom hle, hg⟩

theorem pushThen_mono {next : Nat} {v : Value} {x : Effect}
    (h : f.pushThen limit next v = .ok x) : f.pushThen limit' next v = .ok x := by
  unfold pushThen at h ⊢
  cases hpush : f.push limit f.pc v with
  | error fault =>
    rw [hpush] at h
    cases h
  | ok g =>
    rw [hpush] at h
    rw [push_mono hle hpush]
    exact h

theorem execute_mono {next : Nat} {i : Instruction} {x : Effect}
    (h : f.execute limit next i = .ok x) : f.execute limit' next i = .ok x := by
  cases i with
  | unary op =>
    simp only [execute] at h ⊢
    cases hpop : f.pop with
    | error fault =>
      rw [hpop] at h
      cases h
    | ok found =>
      rw [hpop] at h
      exact pushThen_mono hle h
  | binary op =>
    simp only [execute] at h ⊢
    cases hrhs : f.pop with
    | error fault =>
      rw [hrhs] at h
      cases h
    | ok rhs =>
      rw [hrhs] at h
      simp only [bind, Except.bind] at h ⊢
      cases hlhs : rhs.2.pop with
      | error fault =>
        rw [hlhs] at h
        cases h
      | ok lhs =>
        rw [hlhs] at h
        exact pushThen_mono hle h
  | call | pop | jump | jumpIfFalse | ret => exact h
  | _ => exact pushThen_mono hle h

theorem advance_mono {x : Effect} (h : f.advance limit = .ok x) : f.advance limit' = .ok x := by
  cases hdecode : decode f.program.code f.pc with
  | error fault =>
    rw [advance_of_decode_error hdecode] at h
    cases h
  | ok found =>
    rw [advance_of_decode hdecode] at h ⊢
    exact execute_mono hle h

end Frame

/-- Limits under which a step comes to the same as under the given ones. Its stack may be higher and
calls may go deeper, unless the step fails. -/
structure Limits.Carry (limits limits' : Limits) (p : Progress) : Prop where
  stack : limits.maxStack ≤ limits'.maxStack
  depth : limits.maxCallDepth ≤ limits'.maxCallDepth
  fails : ∀ fault, p = Machine.fail fault →
    limits'.maxStack = limits.maxStack ∧ limits'.maxCallDepth = limits.maxCallDepth

def Progress.rebudget (b : Nat) : Progress → Progress
  | .running s => .running { s with session := s.session.rebudget b }
  | .finished outcome => .finished outcome

namespace Machine

def rebudget (b : Nat) (s : Machine) : Machine := { s with session := s.session.rebudget b }

variable {limits limits' : Limits} {s : Machine} {b : Nat}

theorem executes_rebudget (hs : s.Executes) (hb : s.cost ≤ b) : (s.rebudget b).Executes := by
  rw [cost_of_executes hs] at hb
  exact ⟨hs.1, Nat.ne_of_gt hb⟩

theorem leave_carry {site : Nat} {v : Value} {callers : Callers} {session : Session}
    (h : limits.Carry limits' (leave limits site v callers session)) :
    leave limits' site v callers (session.rebudget b) =
      (leave limits site v callers session).rebudget b := by
  obtain ⟨frames, depth, hdepth⟩ := callers
  cases frames with
  | nil => rfl
  | cons caller rest =>
    simp only [leave] at h ⊢
    cases hpush : caller.push limits.maxStack site v with
    | error fault =>
      rw [hpush] at h
      rw [(h.fails fault rfl).1, hpush]
      rfl
    | ok g =>
      rw [Frame.push_mono h.stack hpush]
      rfl

theorem supply_carry {next : Nat} {v : Value} (h : limits.Carry limits' (supply limits next v s)) :
    supply limits' next v (s.rebudget b) = (supply limits next v s).rebudget b := by
  simp only [supply, rebudget] at h ⊢
  cases hpush : s.top.push limits.maxStack s.top.pc v with
  | error fault =>
    rw [hpush] at h
    rw [(h.fails fault rfl).1, hpush]
    rfl
  | ok g =>
    rw [Frame.push_mono h.stack hpush]
    rfl

theorem enter_carry {next : Nat} {p : Program} {args : List Value}
    (h : limits.Carry limits' (s.enter limits next p args)) :
    (s.rebudget b).enter limits' next p args = (s.enter limits next p args).rebudget b := by
  unfold enter at h ⊢
  by_cases hdepth : limits.maxCallDepth < s.callers.depth + 1
  · rw [if_pos hdepth] at h ⊢
    rw [(h.fails _ rfl).2]
    exact if_pos hdepth
  · have hle := h.depth
    have hdepth' : ¬ limits'.maxCallDepth < s.callers.depth + 1 := by omega
    rw [if_neg hdepth]
    exact if_neg hdepth'

variable {σ φ : Type} {env : Environment (StateT σ Option) φ} {x y : σ} {p : Progress}

theorem Resolved.carry {next : Nat} {name : String} {args : List Value}
    (h : Resolved env limits s next name args x p y) (hl : limits.Carry limits' p) :
    Resolved env limits' (s.rebudget b) next name args x (p.rebudget b) y := by
  cases h with
  | unbound hr =>
    rw [← supply_carry hl]
    exact .unbound hr
  | @native f deterministic v y z hr hv =>
    rw [← supply_carry hl]
    exact .native hr hv
  | user hr =>
    rw [← enter_carry hl]
    exact .user hr

/-- A step that the budget allows comes to the same under any budget that allows it. -/
theorem Stepped.carry (h : Stepped env limits s x p y) (hl : limits.Carry limits' p)
    (hp : ∀ offset, p ≠ fail ⟨offset, .budgetExhausted limits.instructionBudget⟩)
    (hb : s.cost ≤ b) :
    (s.rebudget b).cost = s.cost ∧
      Stepped env limits' (s.rebudget b) x (p.rebudget (b - s.cost)) y := by
  cases h with
  | ended hend =>
    rw [cost_of_atEnd hend, ← leave_carry hl]
    exact ⟨cost_of_atEnd hend, .ended hend⟩
  | spent => exact (hp _ rfl).elim
  | @failed hs fault hadv =>
    have hs' := executes_rebudget hs hb
    rw [cost_of_executes hs, cost_of_executes hs']
    rw [← (hl.fails fault rfl).1] at hadv
    exact ⟨rfl, .failed hs' hadv⟩
  | wentOn hs hadv =>
    have hs' := executes_rebudget hs hb
    rw [cost_of_executes hs, cost_of_executes hs']
    exact ⟨rfl, .wentOn hs' (Frame.advance_mono hl.stack hadv)⟩
  | left hs hadv =>
    have hs' := executes_rebudget hs hb
    rw [cost_of_executes hs, cost_of_executes hs', ← leave_carry hl]
    exact ⟨rfl, .left hs' (Frame.advance_mono hl.stack hadv)⟩
  | called hs hadv hcall =>
    have hs' := executes_rebudget hs hb
    rw [cost_of_executes hs, cost_of_executes hs']
    exact ⟨rfl, .called hs' (Frame.advance_mono hl.stack hadv) (hcall.carry hl)⟩

/-- The loop goes through the same rounds under any budget that covers the instructions. -/
theorem Loops.carry {rounds instructions : Nat} {outcome : Except Fault Evaluation}
    (h : Loops env limits s x rounds instructions outcome y)
    (hl : limits.Carry limits' (.finished outcome))
    (hout : ∀ offset, outcome ≠ .error ⟨offset, .budgetExhausted limits.instructionBudget⟩)
    (hb : instructions ≤ b) :
    Loops env limits' (s.rebudget b) x rounds instructions outcome y := by
  induction h generalizing b with
  | last hstep =>
    obtain ⟨hcost, hstep'⟩ := (step_iff.mp hstep).carry hl
      (fun offset hp => hout offset (Progress.finished.inj hp)) hb
    rw [← hcost]
    exact .last (step_iff.mpr hstep')
  | @round s t x y z rounds instructions outcome hstep _ ih =>
    have hrunning : limits.Carry limits' (.running t) := ⟨hl.stack, hl.depth, nofun⟩
    obtain ⟨hcost, hstep'⟩ := (step_iff.mp hstep).carry (b := b) hrunning nofun (by omega)
    rw [← hcost]
    exact .round (step_iff.mpr hstep') (ih hl hout (by omega))

/-- Under a budget that does not cover them it stops before the next one that it cannot spend. -/
theorem Loops.cut {rounds instructions : Nat} {outcome : Except Fault Evaluation}
    (h : Loops env limits s x rounds instructions outcome y)
    (hstack : limits.maxStack ≤ limits'.maxStack)
    (hdepth : limits.maxCallDepth ≤ limits'.maxCallDepth) (hb : b < instructions) :
    ∃ rounds' offset z, Loops env limits' (s.rebudget b) x rounds' b
      (.error ⟨offset, .budgetExhausted limits'.instructionBudget⟩) z := by
  -- Here the budget is spent when the next instruction is due.
  have hspent {s : Machine} {x : σ} {b : Nat} (hb : b < s.cost) :
      ∃ rounds' offset z, Loops env limits' (s.rebudget b) x rounds' b
        (.error ⟨offset, .budgetExhausted limits'.instructionBudget⟩) z := by
    have hs : s.Executes := by
      by_contra hs
      rw [cost, if_neg hs] at hb
      omega
    rw [cost_of_executes hs] at hb
    obtain rfl : b = 0 := by omega
    have hstep : ((s.rebudget 0).step env limits').run x =
        some (fail ⟨s.top.pc, .budgetExhausted limits'.instructionBudget⟩, x) :=
      step_iff.mpr (.spent hs.1 rfl)
    have hcost : (s.rebudget 0).cost = 0 := cost_of_spent rfl
    have hloops := Loops.last hstep
    rw [hcost] at hloops
    exact ⟨1, s.top.pc, x, hloops⟩
  induction h generalizing b with
  | last hstep => exact hspent hb
  | @round s t x y z rounds instructions outcome hstep _ ih =>
    by_cases hcost : b < s.cost
    · exact hspent hcost
    have hrunning : limits.Carry limits' (.running t) := ⟨hstack, hdepth, nofun⟩
    obtain ⟨hsame, hstep'⟩ := (step_iff.mp hstep).carry (b := b) hrunning nofun (by omega)
    obtain ⟨rounds', offset, z', hloops⟩ := ih (b := b - s.cost) (by omega)
    have hround := Loops.round (step_iff.mpr hstep') hloops
    rw [hsame, Nat.add_sub_cancel' (by omega)] at hround
    exact ⟨rounds' + 1, offset, z', hround⟩

/-- An evaluation that has come to a value in so many instructions comes to it under all limits that
are no lower and a budget that covers these. However it has ended, unless by its budget, it ends so
under every budget that covers them, and by its budget under every other. Natives may do anything,
as long as it does not depend on the limits. -/
theorem evaluate_thresholds {program : Program} {args : List Value} {rounds instructions : Nat}
    {outcome : Except Fault Evaluation}
    (h : Loops env limits (.start limits program args) x rounds instructions outcome y) :
    (evaluate env limits program args).run x = some (outcome, y) ∧
    (∀ v, outcome = .ok v → ∀ limits' : Limits, limits.maxStack ≤ limits'.maxStack →
      limits.maxCallDepth ≤ limits'.maxCallDepth → instructions ≤ limits'.instructionBudget →
        (evaluate env limits' program args).run x = some (.ok v, y)) ∧
    ((∀ offset b, outcome ≠ .error ⟨offset, .budgetExhausted b⟩) → ∀ b,
      (instructions ≤ b →
        (evaluate env { limits with instructionBudget := b } program args).run x =
          some (outcome, y)) ∧
      (b < instructions → ∃ offset z,
        (evaluate env { limits with instructionBudget := b } program args).run x =
          some (.error ⟨offset, .budgetExhausted b⟩, z))) := by
  refine ⟨evaluate_iff_loops.mpr ⟨_, _, h⟩, ?_, fun hout b => ⟨fun hb => ?_, fun hb => ?_⟩⟩
  · rintro v rfl limits' hstack hdepth hb
    exact evaluate_iff_loops.mpr ⟨_, _, h.carry ⟨hstack, hdepth, nofun⟩ nofun hb⟩
  · have hl : limits.Carry { limits with instructionBudget := b } (.finished outcome) :=
      ⟨Nat.le_refl _, Nat.le_refl _, fun _ _ => ⟨rfl, rfl⟩⟩
    exact evaluate_iff_loops.mpr ⟨_, _, h.carry hl (fun offset => hout offset _) hb⟩
  · have hstack : limits.maxStack ≤ Limits.maxStack { limits with instructionBudget := b } :=
      Nat.le_refl _
    obtain ⟨rounds', offset, z, hloops⟩ := h.cut hstack (Nat.le_refl _) hb
    exact ⟨offset, z, evaluate_iff_loops.mpr ⟨_, _, hloops⟩⟩

/-- A function of one instruction, called from a program that is at its end then. These are two
instructions in four rounds, for which a budget of two is enough and one of one is not. -/
theorem evaluate_thresholds_called :
    let body : Program := ⟨Instruction.encode (.pushBool true), 1⟩
    let program : Program := ⟨Instruction.encode (.call "F" 0), 0⟩
    let env : Environment (StateT Unit Option) Unit :=
      { resolve := fun _ => return .user body
        invoke := fun _ _ => return .unset }
    let v : Evaluation := ⟨.boolean true, ["F"], false⟩
    Loops env ⟨1, 1, 7⟩ (.start ⟨1, 1, 7⟩ program []) () 4 2 (.ok v) () ∧
      (evaluate env ⟨8, 8, 2⟩ program []).run () = some (.ok v, ()) ∧
      ∃ offset, (evaluate env ⟨1, 1, 1⟩ program []).run () =
        some (.error ⟨offset, .budgetExhausted 1⟩, ()) := by
  intro body program env v
  let waiting : Frame := { Frame.enter program [] 0 with resume := 5 }
  let entered : Machine := ⟨.enter body [] 0, ⟨[waiting], 1, rfl⟩, ⟨6, ["F"], false⟩⟩
  let ended : Machine :=
    ⟨{ Frame.enter body [] 0 with pc := 1, stack := #[.boolean true] }, entered.callers,
      ⟨5, ["F"], false⟩⟩
  let resumed : Machine :=
    ⟨{ waiting with pc := 5, stack := #[.boolean true] }, .none, ⟨5, ["F"], false⟩⟩
  have hcosts : (Machine.start ⟨1, 1, 7⟩ program []).cost +
      (entered.cost + (ended.cost + resumed.cost)) = 2 := by
    cbv
  have hloops : Loops env ⟨1, 1, 7⟩ (.start ⟨1, 1, 7⟩ program []) () 4 2 (.ok v) () := by
    rw [← hcosts]
    exact .round (by cbv) (.round (by cbv) (.round (by cbv) (.last (by cbv))))
  obtain ⟨-, hmore, hbudget⟩ := evaluate_thresholds hloops
  obtain ⟨offset, z, hcut⟩ := (hbudget (by simp) 1).2 (by decide)
  exact ⟨hloops, hmore v rfl ⟨8, 8, 2⟩ (by decide) (by decide) (Nat.le_refl _), offset, hcut⟩

end Machine

end LiveExpr
