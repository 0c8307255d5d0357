import LiveExpr.Machine.Run
import LiveExpr.Proofs.Operands

/-!
What the execution of one instruction can come to, whatever the values are, what one
step of a machine comes to and why, and the states that it reaches step by step while
the world around it changes with the names it resolves and the natives it invokes.
-/
namespace LiveExpr

namespace Frame

/-- A frame fails by its stack or by a jump out of its code. It goes on behind the instruction or at
the target of a jump, and it calls by a call and leaves by a return only. -/
inductive Obeys (limit next : Nat) (f : Frame) (i : Instruction) : Except Fault Effect → Prop
  | underflow : Obeys limit next f i (.error ⟨f.pc, .stackUnderflow⟩)
  | overflow : Obeys limit next f i (.error ⟨f.pc, .stackOverflow limit⟩)
  | strayed {rel : Int16} (hrel : i.rel? = some rel)
      (hout : ¬ (0 ≤ next + rel.toInt ∧ next + rel.toInt ≤ f.program.size)) :
      Obeys limit next f i (.error ⟨f.pc, .jumpOutOfBounds (next + rel.toInt)⟩)
  | passed {stack : Array Value} (hsize : stack.size ≤ max limit f.stack.size)
      (hi : i.calledName? = none) : Obeys limit next f i (.ok (.goOn { f with stack, pc := next }))
  | jumped {stack : Array Value} {rel : Int16} {target : Nat}
      (hsize : stack.size ≤ f.stack.size) (hrel : i.rel? = some rel)
      (htarget : (target : Int) = next + rel.toInt) (hin : target ≤ f.program.size) :
      Obeys limit next f i (.ok (.goOn { f with stack, pc := target }))
  | called {name : String} {args : List Value} {stack : Array Value}
      (hsize : stack.size ≤ f.stack.size) (hi : i.calledName? = some name) :
      Obeys limit next f i (.ok (.call name args { f with stack } next))
  | left (hi : i = .ret) : Obeys limit next f i (.ok (.leave f.result f.callSite))

variable {limit next : Nat} {f : Frame} {i : Instruction}

theorem pop_cases (f : Frame) :
    f.pop = .error ⟨f.pc, .stackUnderflow⟩ ∨
      ∃ (v : Value) (stack : Array Value), stack.size ≤ f.stack.size ∧
        f.pop = .ok (v, { f with stack }) := by
  unfold pop
  cases f.stack.back? with
  | none => exact .inl rfl
  | some v => exact .inr ⟨v, f.stack.pop, by simp, rfl⟩

theorem take_cases (f : Frame) (n : Nat) :
    f.take n = .error ⟨f.pc, .stackUnderflow⟩ ∨
      ∃ (args : List Value) (stack : Array Value), stack.size ≤ f.stack.size ∧
        f.take n = .ok (args, { f with stack }) := by
  cases h : f.take n with
  | error fault => exact .inl (congrArg _ (take_eq_error_iff.mp h).2)
  | ok found =>
    obtain ⟨-, keep, hstack, hkept⟩ := take_eq_ok_iff.mp h
    refine .inr ⟨found.1, keep, by simp [hstack], ?_⟩
    rw [← hkept]

theorem pushThen_obeys (hi : i.calledName? = none) {stack : Array Value}
    (hsize : stack.size ≤ f.stack.size) (v : Value) :
    f.Obeys limit next i (pushThen limit { f with stack } next v) := by
  unfold pushThen push
  by_cases hfull : limit ≤ stack.size
  · simp only [if_pos hfull]
    exact .overflow
  · simp only [if_neg hfull]
    exact .passed (by rw [Array.size_push]; omega) hi

theorem jump_obeys {rel : Int16} (hrel : i.rel? = some rel) {stack : Array Value}
    (hsize : stack.size ≤ f.stack.size) :
    f.Obeys limit next i (jump { f with stack } next rel) := by
  by_cases hin : 0 ≤ (next : Int) + rel.toInt ∧ (next : Int) + rel.toInt ≤ f.program.size
  · rw [jump, if_pos hin]
    refine .jumped hsize hrel (Int.toNat_of_nonneg hin.1) ?_
    have := Int.toNat_of_nonneg hin.1
    omega
  · rw [jump, if_neg hin]
    exact .strayed hrel hin

theorem execute_obeys (limit next : Nat) (f : Frame) (i : Instruction) :
    f.Obeys limit next i (f.execute limit next i) := by
  have hsame : f.stack.size ≤ f.stack.size := Nat.le_refl _
  cases i with
  | call name argc =>
    rcases f.take_cases argc.toNat with h | ⟨args, stack, hsize, h⟩
    · simp only [execute, h]
      exact .underflow
    · simp only [execute, h]
      exact .called hsize rfl
  | pop =>
    rcases f.pop_cases with h | ⟨v, stack, hsize, h⟩
    · simp only [execute, h]
      exact .underflow
    · simp only [execute, h]
      exact .passed (Nat.le_trans hsize (Nat.le_max_right ..)) rfl
  | unary op =>
    rcases f.pop_cases with h | ⟨v, stack, hsize, h⟩
    · simp only [execute, h]
      exact .underflow
    · simp only [execute, h]
      exact pushThen_obeys rfl hsize _
  | binary op =>
    rcases f.pop_cases with h | ⟨rhs, stack, hsize, h⟩
    · simp only [execute, h]
      exact .underflow
    simp only [execute, h]
    rcases pop_cases { f with stack } with h' | ⟨lhs, stack', hsize', h'⟩
    · simp only [bind, Except.bind, h']
      exact .underflow
    · simp only [bind, Except.bind, h']
      exact pushThen_obeys rfl (Nat.le_trans hsize' hsize) _
  | jump rel => exact jump_obeys rfl hsame
  | jumpIfFalse rel =>
    rcases f.pop_cases with h | ⟨cond, stack, hsize, h⟩
    · simp only [execute, h]
      exact .underflow
    simp only [execute, h, bind, Except.bind]
    split
    · exact .passed (Nat.le_trans hsize (Nat.le_max_right ..)) rfl
    · exact jump_obeys rfl hsize
  | ret => exact .left rfl
  | _ => exact pushThen_obeys rfl hsame _

theorem push_fault {offset : Nat} {v : Value} {fault : Fault}
    (h : f.push limit offset v = .error fault) : fault = ⟨offset, .stackOverflow limit⟩ :=
  (push_eq_error_iff.mp h).2

end Frame

namespace Machine

variable {σ φ : Type} {env : Environment (StateT σ Option) φ} {limits : Limits}

/-- The machine goes from one state to the other in some number of steps, and the world around it
from `x` to another. -/
inductive Leads (env : Environment (StateT σ Option) φ) (limits : Limits) (s : Machine) (x : σ) :
    Machine → σ → Prop
  | refl : Leads env limits s x s x
  | step {t u : Machine} {y z : σ} (h : Leads env limits s x t y)
      (hstep : (t.step env limits).run y = some (.running u, z)) : Leads env limits s x u z

theorem Leads.of_step {s t u : Machine} {x y z : σ}
    (hstep : (s.step env limits).run x = some (.running t, y)) (h : Leads env limits t y u z) :
    Leads env limits s x u z := by
  induction h with
  | refl => exact .step .refl hstep
  | step _ hstep' ih => exact ih.step hstep'

/-- What comes of a call once its name is resolved. -/
theorem call_eq (env : Environment (StateT σ Option) φ) (limits : Limits) (s : Machine)
    (next : Nat) (name : String) (args : List Value) (x : σ) :
    (s.call env limits next name args).run x =
      ((env.resolve name).run x).bind fun found =>
        match found.1 with
        | .unbound => some (supply limits next .unset s, found.2)
        | .native f deterministic => ((env.invoke f args).run found.2).map fun value =>
            (supply limits next value.1 (s.touch deterministic), value.2)
        | .user p => some (s.enter limits next p args, found.2) := by
  rw [Machine.call, StateT.run_bind]
  refine congrArg (Option.bind _) (funext fun ⟨behavior, y⟩ => ?_)
  cases behavior with
  | unbound => rfl
  | native f deterministic =>
    simp only [StateT.run_bind]
    cases (env.invoke f args).run y <;> rfl
  | user p => rfl

/-- The next step executes an instruction. -/
def Executes (s : Machine) : Prop := ¬ s.top.atEnd ∧ s.session.budget ≠ 0

instance (s : Machine) : Decidable s.Executes := inferInstanceAs (Decidable (_ ∧ _))

/-- The machine when its top frame has given up the arguments of a call. -/
def calling (s : Machine) (f : Frame) (name : String) : Machine :=
  record ⟨f, s.callers, s.session.spend⟩ name

/-- What comes of a call when its name is resolved in the world `x`. -/
inductive Resolved (env : Environment (StateT σ Option) φ) (limits : Limits) (s : Machine)
    (next : Nat) (name : String) (args : List Value) (x : σ) : Progress → σ → Prop
  | unbound {y : σ} (hr : (env.resolve name).run x = some (.unbound, y)) :
      Resolved env limits s next name args x (supply limits next .unset s) y
  | native {f : φ} {deterministic : Bool} {v : Value} {y z : σ}
      (hr : (env.resolve name).run x = some (.native f deterministic, y))
      (hv : (env.invoke f args).run y = some (v, z)) :
      Resolved env limits s next name args x (supply limits next v (s.touch deterministic)) z
  | user {p : Program} {y : σ} (hr : (env.resolve name).run x = some (.user p, y)) :
      Resolved env limits s next name args x (s.enter limits next p args) y

theorem call_iff {s : Machine} {next : Nat} {name : String} {args : List Value} {x y : σ}
    {p : Progress} : (s.call env limits next name args).run x = some (p, y) ↔
      Resolved env limits s next name args x p y := by
  rw [call_eq]
  constructor
  · intro h
    obtain ⟨⟨behavior, x'⟩, hr, hrest⟩ := Option.bind_eq_some_iff.mp h
    cases behavior with
    | unbound =>
      cases hrest
      exact .unbound hr
    | native f deterministic =>
      obtain ⟨⟨v, z⟩, hv, hfound⟩ := Option.map_eq_some_iff.mp hrest
      cases hfound
      exact .native hr hv
    | user program =>
      cases hrest
      exact .user hr
  · intro h
    cases h with
    | unbound hr => rw [hr]; rfl
    | native hr hv => simp only [hr, Option.bind_some, hv, Option.map_some]
    | user hr => rw [hr]; rfl

/-- What one step comes to in the world `x`, and why. -/
inductive Stepped (env : Environment (StateT σ Option) φ) (limits : Limits) (s : Machine) (x : σ) :
    Progress → σ → Prop
  | ended (hend : s.top.atEnd) :
      Stepped env limits s x (leave limits s.top.callSite s.top.result s.callers s.session) x
  | spent (hend : ¬ s.top.atEnd) (hb : s.session.budget = 0) :
      Stepped env limits s x (fail ⟨s.top.pc, .budgetExhausted limits.instructionBudget⟩) x
  | failed (hs : s.Executes) {fault : Fault} (h : s.top.advance limits.maxStack = .error fault) :
      Stepped env limits s x (fail fault) x
  | wentOn (hs : s.Executes) {f : Frame} (h : s.top.advance limits.maxStack = .ok (.goOn f)) :
      Stepped env limits s x (.running ⟨f, s.callers, s.session.spend⟩) x
  | left (hs : s.Executes) {v : Value} {site : Nat}
      (h : s.top.advance limits.maxStack = .ok (.leave v site)) :
      Stepped env limits s x (leave limits site v s.callers s.session.spend) x
  | called (hs : s.Executes) {name : String} {args : List Value} {f : Frame} {next : Nat}
      {p : Progress} {y : σ} (h : s.top.advance limits.maxStack = .ok (.call name args f next))
      (hcall : Resolved env limits (s.calling f name) next name args x p y) :
      Stepped env limits s x p y

theorem step_of_turn (env : Environment (StateT σ Option) φ) {s : Machine} {p : Progress}
    (h : s.turn limits = .moved p) (x : σ) : (s.step env limits).run x = some (p, x) := by
  unfold step
  rw [h]
  rfl

theorem step_of_call {s t : Machine} {name : String} {args : List Value} {next : Nat}
    (h : s.turn limits = .calls name args next t) :
    s.step env limits = t.call env limits next name args := by
  unfold step
  rw [h]

theorem step_iff {s : Machine} {x y : σ} {p : Progress} :
    (s.step env limits).run x = some (p, y) ↔ Stepped env limits s x p y := by
  constructor
  · intro h
    by_cases hend : s.top.atEnd
    · cases (step_of_turn env (turn_atEnd hend) x).symm.trans h
      exact .ended hend
    by_cases hb : s.session.budget = 0
    · cases (step_of_turn env (turn_spent hend hb) x).symm.trans h
      exact .spent hend hb
    cases hadv : s.top.advance limits.maxStack with
    | error fault =>
      cases (step_of_turn env (turn_error hend hb hadv) x).symm.trans h
      exact .failed ⟨hend, hb⟩ hadv
    | ok effect =>
      cases effect with
      | goOn f =>
        cases (step_of_turn env (turn_goOn hend hb hadv) x).symm.trans h
        exact .wentOn ⟨hend, hb⟩ hadv
      | leave v site =>
        cases (step_of_turn env (turn_leave hend hb hadv) x).symm.trans h
        exact .left ⟨hend, hb⟩ hadv
      | call name args f next =>
        rw [step_of_call (turn_call hend hb hadv)] at h
        exact .called ⟨hend, hb⟩ hadv (call_iff.mp h)
  · intro h
    cases h with
    | ended hend => exact step_of_turn env (turn_atEnd hend) x
    | spent hend hb => exact step_of_turn env (turn_spent hend hb) x
    | failed hs hadv => exact step_of_turn env (turn_error hs.1 hs.2 hadv) x
    | wentOn hs hadv => exact step_of_turn env (turn_goOn hs.1 hs.2 hadv) x
    | left hs hadv => exact step_of_turn env (turn_leave hs.1 hs.2 hadv) x
    | called hs hadv hcall =>
      rw [step_of_call (turn_call hs.1 hs.2 hadv)]
      exact call_iff.mpr hcall

end Machine

end LiveExpr
