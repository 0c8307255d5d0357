import LiveExpr.Machine.Run
import Mathlib

/-!
Evaluation by recursion on activations. A call of a user function is a nested
activation of its program, on an empty stack and with the operands that the call
has taken, and its value goes to the stack the caller was left with. Running the
machine with its explicit stack of waiting frames comes to the same, whatever the
effects of resolving names and invoking natives are.
-/
namespace LiveExpr.Activation

variable {m : Type → Type} [Monad m] {φ : Type}

/-- A session that has no more to spend than a given budget. -/
abbrev Allowance (b : Nat) := { s : Session // s.budget ≤ b }

def spend {b : Nat} (s : Allowance b) : Allowance b := ⟨s.1.spend, (Nat.sub_le _ _).trans s.2⟩

/-- The value of a call of what a name stands for, and the session after it. -/
def valueOf (env : Environment m φ) (args : List Value) (s : Session)
    (enter : Program → m (Except Fault (Value × Allowance s.budget))) :
    Behavior φ → m (Except Fault (Value × Allowance s.budget))
  | .unbound => pure (.ok (.unset, ⟨s, le_rfl⟩))
  | .native f deterministic => do
    let v ← env.invoke f args
    pure (.ok (v, ⟨s.touch deterministic, le_rfl⟩))
  | .user p => enter p

/-- A caller goes on behind its call with the value of the call. -/
def resume (limits : Limits) (f : Frame) (next : Nat) {α σ : Type}
    (goOn : Frame → σ → m (Except Fault α)) : Except Fault (Value × σ) → m (Except Fault α)
  | .error fault => pure (.error fault)
  | .ok (v, s) =>
    match f.push limits.maxStack f.pc v with
    | .error fault => pure (.error fault)
    | .ok f => goOn { f with pc := next } s

/-- Runs one activation to its end, under `depth` others that wait for it. A call of a user function
is the activation of its program, and what that leaves of the budget is what the caller goes on
with. The links of the frame stay unused. -/
def activate (env : Environment m φ) (limits : Limits) {b : Nat} (depth : Nat) (f : Frame)
    (s : Allowance b) : m (Except Fault (Value × Allowance b)) :=
  if f.atEnd then pure (.ok (f.result, s))
  else if _hs : s.1.budget = 0 then
    pure (.error ⟨f.pc, .budgetExhausted limits.instructionBudget⟩)
  else
    match f.advance limits.maxStack with
    | .error fault => pure (.error fault)
    | .ok (.goOn f) => activate env limits depth f (spend s)
    | .ok (.leave v _) => pure (.ok (v, spend s))
    | .ok (.call name args f next) => do
      let calling := s.1.spend.record name
      let called ← env.resolve name >>= valueOf env args calling fun p =>
        if limits.maxCallDepth < depth + 1 then
          pure (.error ⟨f.pc, .callDepthExceeded limits.maxCallDepth⟩)
        else activate env limits (depth + 1) (.enter p args 0) ⟨calling, le_rfl⟩
      resume limits f next
        (fun f t => activate env limits depth f ⟨t.1, t.2.trans (spend s).2⟩) called
termination_by s.1.budget
decreasing_by
  · exact Nat.sub_lt (Nat.pos_of_ne_zero _hs) Nat.one_pos
  · exact Nat.sub_lt (Nat.pos_of_ne_zero _hs) Nat.one_pos
  · exact t.2.trans_lt (Nat.sub_lt (Nat.pos_of_ne_zero _hs) Nat.one_pos)

section Equations

variable (env : Environment m φ) (limits : Limits) {b depth : Nat} {f : Frame} {s : Allowance b}

/-- The value of an activation is the one on top of its stack, or unset if there is none. -/
theorem activate_atEnd (hend : f.atEnd) :
    activate env limits depth f s = pure (.ok (f.stack.toList.getLast?.getD .unset, s)) := by
  rw [activate, if_pos hend, Frame.result_eq]

variable (hend : ¬ f.atEnd) (hbudget : s.1.budget ≠ 0) {next : Nat}

include hend hbudget

theorem activate_ret (hdecode : decode f.program.code f.pc = .ok (.ret, next)) :
    activate env limits depth f s =
      pure (.ok (f.stack.toList.getLast?.getD .unset, spend s)) := by
  rw [activate, if_neg hend, dif_neg hbudget, Frame.advance_of_decode hdecode, ← Frame.result_eq]
  rfl

variable {name : String} {argc : UInt8}
  (hdecode : decode f.program.code f.pc = .ok (.call name argc, next))

include hdecode

theorem activate_call_short (hshort : f.stack.size < argc.toNat) :
    activate env limits depth f s = pure (.error ⟨f.pc, .stackUnderflow⟩) := by
  have hadvance : f.advance limits.maxStack = .error ⟨f.pc, .stackUnderflow⟩ := by
    rw [Frame.advance_of_decode hdecode, Frame.execute, Frame.take_eq_error_iff.mpr ⟨hshort, rfl⟩]
    rfl
  rw [activate, if_neg hend, dif_neg hbudget, hadvance]

/-- The arguments of a call are the topmost values, bottom first. A user function runs from the
beginning of its code, on an empty stack and with these arguments. The value of the call comes to
lie on the values below the arguments, which are as they were, and the caller goes on behind the
call with what has become of the session. -/
theorem activate_call {keep : Array Value} {args : List Value}
    (hstack : f.stack = keep ++ args.toArray) (hargs : args.length = argc.toNat) :
    activate env limits depth f s = (do
      let calling := s.1.spend.record name
      let called : Except Fault (Value × Allowance s.1.spend.budget) ← env.resolve name >>= fun
        | .unbound => pure (.ok (.unset, ⟨calling, le_rfl⟩))
        | .native g deterministic => do
          let v ← env.invoke g args
          pure (.ok (v, ⟨calling.touch deterministic, le_rfl⟩))
        | .user p =>
          if limits.maxCallDepth < depth + 1 then
            pure (.error ⟨f.pc, .callDepthExceeded limits.maxCallDepth⟩)
          else
            activate env limits (depth + 1)
              { program := p, args, pc := 0, resume := 0, callSite := 0, stack := #[] }
              ⟨calling, le_rfl⟩
      match called with
      | .error fault => pure (.error fault)
      | .ok (v, t) =>
        if limits.maxStack ≤ keep.size then
          pure (.error ⟨f.pc, .stackOverflow limits.maxStack⟩)
        else
          activate env limits depth { f with stack := keep.push v, pc := next }
            ⟨t.1, t.2.trans (spend s).2⟩) := by
  have hadvance : f.advance limits.maxStack =
      .ok (.call name args { f with stack := keep } next) := by
    rw [Frame.advance_of_decode hdecode, Frame.execute,
      Frame.take_eq_ok_iff.mpr ⟨hargs, keep, hstack, rfl⟩]
    rfl
  rw [activate, if_neg hend, dif_neg hbudget, hadvance]
  -- Both sides resolve the name, make the call, and then go on with what has come of it.
  refine congrArg₂ (· >>= ·) (congrArg (env.resolve name >>= ·) (funext fun behavior => ?_))
    (funext fun called => ?_)
  · cases behavior <;> rfl
  · cases called with
    | error fault => rfl
    | ok found =>
      by_cases hfull : limits.maxStack ≤ keep.size
      · simp only [resume, Frame.push, if_pos hfull]
      · simp only [resume, Frame.push, if_neg hfull]

end Equations

/-- Evaluates a program as an activation that no other waits for. -/
def evaluate (env : Environment m φ) (limits : Limits) (program : Program) (args : List Value) :
    m (Except Fault Evaluation) := do
  let session : Allowance limits.instructionBudget :=
    ⟨⟨limits.instructionBudget, [], false⟩, le_rfl⟩
  match ← activate env limits 0 (.enter program args 0) session with
  | .error fault => return .error fault
  | .ok (v, s) => return .ok ⟨v, s.1.dependencies, s.1.volatile⟩

/-- More than the steps that a machine can still make. -/
def stepsLeft (s : Machine) : Nat := 2 * s.session.budget + s.callers.depth + 1

def follow (env : Environment m φ) (limits : Limits) (n : Nat) :
    Progress → m (Except Fault Evaluation)
  | .running s => s.run env limits n
  | .finished outcome => pure outcome

/-- Goes on for as long as it takes. -/
def proceed (env : Environment m φ) (limits : Limits) : Progress → m (Except Fault Evaluation)
  | .running s => s.run env limits (stepsLeft s)
  | .finished outcome => pure outcome

/-- What the machine does with the result of an activation that was entered at `site`. -/
def unwind (env : Environment m φ) (limits : Limits) (callers : Callers) (site : Nat) {b : Nat} :
    Except Fault (Value × Allowance b) → m (Except Fault Evaluation)
  | .error fault => pure (.error fault)
  | .ok (v, s) => proceed env limits (Machine.leave limits site v callers s.1)

section Refinement

variable (env : Environment m φ) (limits : Limits)

/-- What is to be shown of runs that are allowed `n` steps. -/
def Refines (n : Nat) : Prop :=
  ∀ (s : Machine) (b : Nat) (hb : s.session.budget ≤ b), stepsLeft s ≤ n →
    s.run env limits n =
      activate env limits s.callers.depth (s.top.relink 0 0) ⟨s.session, hb⟩ >>=
        unwind env limits s.callers s.top.callSite

variable {env limits}

theorem stepsLeft_leave {site : Nat} {v : Value} {callers : Callers} {session : Session}
    {s : Machine} (h : Machine.leave limits site v callers session = .running s) :
    stepsLeft s ≤ 2 * session.budget + callers.depth := by
  obtain ⟨frames, depth, hdepth⟩ := callers
  cases frames with
  | nil => cases h
  | cons caller rest =>
    simp only [Machine.leave] at h
    split at h
    · cases h
    · cases h
      simp only [List.length_cons] at hdepth
      simp only [stepsLeft]
      omega

theorem run_eq_proceed {n : Nat} (ih : ∀ k ≤ n, Refines env limits k) {s : Machine}
    (hs : stepsLeft s ≤ n) : s.run env limits n = proceed env limits (.running s) := by
  rw [ih n le_rfl s _ le_rfl hs]
  exact (ih (stepsLeft s) hs s _ le_rfl le_rfl).symm

theorem follow_eq_proceed {n : Nat} (ih : ∀ k ≤ n, Refines env limits k) {p : Progress}
    (hp : ∀ s, p = .running s → stepsLeft s ≤ n) :
    follow env limits n p = proceed env limits p := by
  cases p with
  | running s => exact run_eq_proceed ih (hp s rfl)
  | finished outcome => rfl

theorem run_succ (n : Nat) (s : Machine) :
    s.run env limits (n + 1) = s.step env limits >>= follow env limits n := rfl

variable [LawfulMonad m]

theorem run_moved {n : Nat} (ih : ∀ k ≤ n, Refines env limits k) {s : Machine} {p : Progress}
    (ht : s.turn limits = .moved p) (hp : ∀ t, p = .running t → stepsLeft t ≤ n) :
    s.run env limits (n + 1) = proceed env limits p := by
  rw [run_succ, Machine.step, ht, pure_bind, follow_eq_proceed ih hp]

/-- A frame that has been given the value of its call goes on behind it. The link that the machine
may have left in the frame is of no consequence. -/
theorem proceed_push {n b c : Nat} (ih : ∀ k ≤ n, Refines env limits k) (f : Frame)
    (next link : Nat) (v : Value) (callers : Callers) (t : Allowance c) (hb : c ≤ b)
    (hn : 2 * t.1.budget + callers.depth + 1 ≤ n) :
    proceed env limits
      (match f.push limits.maxStack f.pc v with
        | .error fault => Machine.fail fault
        | .ok f => .running ⟨{ f with pc := next, resume := link }, callers, t.1⟩) =
      resume limits (f.relink 0 0) next
        (fun f (t : Allowance c) => activate env limits callers.depth f ⟨t.1, t.2.trans hb⟩)
        (.ok (v, t)) >>=
      unwind env limits callers f.callSite := by
  have hpush := Frame.push_relink 0 0 limits.maxStack f f.pc v
  cases hf : f.push limits.maxStack f.pc v with
  | error fault =>
    rw [hf] at hpush
    simp only [resume, Machine.fail, proceed]
    rw [show (f.relink 0 0).push limits.maxStack (f.relink 0 0).pc v = .error fault from hpush]
    simp only [pure_bind]
    rfl
  | ok g =>
    rw [hf] at hpush
    simp only [resume]
    rw [show (f.relink 0 0).push limits.maxStack (f.relink 0 0).pc v = .ok (g.relink 0 0)
      from hpush]
    have hsite : g.callSite = f.callSite := by rw [Frame.push_eq hf]
    have hsteps : stepsLeft ⟨{ g with pc := next, resume := link }, callers, t.1⟩ ≤ n := hn
    rw [← run_eq_proceed ih hsteps, ← hsite]
    exact ih n le_rfl _ b (t.2.trans hb) hsteps

theorem run_supply {n b c : Nat} (ih : ∀ k ≤ n, Refines env limits k) {next : Nat} {v : Value}
    {s : Machine} (hc : s.session.budget ≤ c) (hb : c ≤ b) (hn : stepsLeft s ≤ n) :
    follow env limits n (Machine.supply limits next v s) =
      resume limits (s.top.relink 0 0) next
        (fun f (t : Allowance c) => activate env limits s.callers.depth f ⟨t.1, t.2.trans hb⟩)
        (.ok (v, ⟨s.session, hc⟩)) >>=
      unwind env limits s.callers s.top.callSite := by
  rw [← proceed_push ih s.top next s.top.resume v s.callers ⟨s.session, hc⟩ hb hn]
  simp only [Machine.supply]
  cases hf : s.top.push limits.maxStack s.top.pc v with
  | error fault => rfl
  | ok f =>
    rw [Frame.push_eq hf]
    exact run_eq_proceed ih hn

/-- The function that is entered runs as an activation of its own, and its caller goes on with
what has become of the session. -/
theorem run_enter {n b : Nat} (ih : ∀ k ≤ n, Refines env limits k) {next : Nat} {p : Program}
    {args : List Value} {s : Machine} (hb : s.session.budget ≤ b) (hn : stepsLeft s + 1 ≤ n) :
    Machine.run env limits n ⟨.enter p args s.top.pc, s.callers.push { s.top with resume := next },
        s.session⟩ =
      (activate env limits (b := s.session.budget) (s.callers.depth + 1) (.enter p args 0)
          ⟨s.session, le_rfl⟩ >>=
        resume limits (s.top.relink 0 0) next
          (fun f t => activate env limits s.callers.depth f ⟨t.1, t.2.trans hb⟩)) >>=
      unwind env limits s.callers s.top.callSite := by
  simp only [stepsLeft] at hn
  have hin := ih n le_rfl ⟨.enter p args s.top.pc, s.callers.push { s.top with resume := next },
    s.session⟩ s.session.budget le_rfl (by simp only [stepsLeft, Callers.push]; omega)
  rw [hin, bind_assoc]
  refine bind_congr fun called => ?_
  cases called with
  | error fault =>
    simp only [resume, pure_bind]
    rfl
  | ok found =>
    obtain ⟨v, t⟩ := found
    have ht := t.2
    rw [← proceed_push ih s.top next next v s.callers t hb (by omega)]
    simp only [unwind, Callers.push, Machine.leave, Frame.push]
    by_cases hfull : limits.maxStack ≤ s.top.stack.size
    · simp only [if_pos hfull]
      rfl
    · simp only [if_neg hfull]
      rfl

/-- The callee decides how the value of the call comes about; the caller goes on with it. -/
theorem run_calls {n b : Nat} (ih : ∀ k ≤ n, Refines env limits k) {name : String}
    {args : List Value} {next : Nat} {s t : Machine}
    (ht : s.turn limits = .calls name args next t) (hb : t.session.budget ≤ b)
    (hn : stepsLeft t + 1 ≤ n) :
    s.run env limits (n + 1) =
      ((env.resolve name >>= valueOf env args t.session fun p =>
          if limits.maxCallDepth < t.callers.depth + 1 then
            pure (.error ⟨t.top.pc, .callDepthExceeded limits.maxCallDepth⟩)
          else activate env limits (t.callers.depth + 1) (.enter p args 0) ⟨t.session, le_rfl⟩) >>=
        resume limits (t.top.relink 0 0) next
          (fun f r => activate env limits t.callers.depth f ⟨r.1, r.2.trans hb⟩)) >>=
      unwind env limits t.callers t.top.callSite := by
  rw [run_succ, Machine.step, ht]
  simp only [Machine.call, bind_assoc]
  refine bind_congr fun behavior => ?_
  cases behavior with
  | unbound =>
    simp only [valueOf, pure_bind]
    exact run_supply ih le_rfl hb (Nat.le_of_succ_le hn)
  | native g deterministic =>
    simp only [valueOf, bind_assoc, pure_bind]
    refine bind_congr fun v => ?_
    exact run_supply (s := t.touch deterministic) ih le_rfl hb (Nat.le_of_succ_le hn)
  | user p =>
    simp only [valueOf, pure_bind, Machine.enter]
    by_cases hdepth : limits.maxCallDepth < t.callers.depth + 1
    · simp only [if_pos hdepth, Machine.fail, follow, resume, pure_bind]
      rfl
    · simp only [if_neg hdepth, follow]
      rw [← bind_assoc]
      exact run_enter ih hb hn

theorem refines_succ (n : Nat) (ih : ∀ k ≤ n, Refines env limits k) :
    Refines env limits (n + 1) := by
  intro s b hb hn
  simp only [stepsLeft] at hn
  rw [activate]
  -- The loop and the activation look at the same frame, so they take the same branch.
  by_cases hend : s.top.atEnd
  · rw [run_moved ih (Machine.turn_atEnd hend) (fun t h => (stepsLeft_leave h).trans (by omega)),
      if_pos (show (s.top.relink 0 0).atEnd from hend), pure_bind]
    rfl
  rw [if_neg (show ¬ (s.top.relink 0 0).atEnd from hend)]
  by_cases hbudget : s.session.budget = 0
  · rw [run_moved ih (Machine.turn_spent hend hbudget) (fun t h => by cases h), dif_pos hbudget,
      pure_bind]
    rfl
  rw [dif_neg hbudget, Frame.advance_relink]
  have hspend : s.session.spend.budget + 1 = s.session.budget := by
    simp only [Session.spend]
    omega
  have hb' : s.session.spend.budget ≤ b := by omega
  cases hadv : s.top.advance limits.maxStack with
  | error fault =>
    rw [run_moved ih (Machine.turn_error hend hbudget hadv) (fun t h => by cases h)]
    simp only [Except.map, pure_bind]
    rfl
  | ok effect =>
    have hlinks := Frame.advance_links hadv
    cases effect with
    | goOn f =>
      have hsteps : stepsLeft ⟨f, s.callers, s.session.spend⟩ ≤ n := by
        simp only [stepsLeft]
        omega
      have hsite : f.callSite = s.top.callSite := by
        injection hlinks with h
        rw [h]
        rfl
      rw [run_moved ih (Machine.turn_goOn hend hbudget hadv) (fun t h => by cases h; exact hsteps),
        ← run_eq_proceed ih hsteps, ih n le_rfl _ b hb' hsteps, hsite]
      rfl
    | leave v site =>
      have hsite : site = s.top.callSite := (Effect.leave.inj hlinks).2
      rw [run_moved ih (Machine.turn_leave hend hbudget hadv)
        (fun t h => (stepsLeft_leave h).trans (by omega)), hsite]
      simp only [Except.map, Effect.relink, pure_bind]
      rfl
    | call name args f next =>
      have hsteps : stepsLeft (Machine.record ⟨f, s.callers, s.session.spend⟩ name) + 1 ≤ n := by
        simp only [stepsLeft, Machine.record, Session.record]
        omega
      have hsite : f.callSite = s.top.callSite := by
        injection hlinks with _ _ h
        rw [h]
        rfl
      rw [run_calls ih (Machine.turn_call hend hbudget hadv) hb' hsteps, ← hsite]
      rfl

variable (env limits) in
theorem refines (n : Nat) : Refines env limits n := by
  -- A call and what its caller does afterwards share the steps that are left.
  induction n using Nat.strong_induction_on with
  | h n ih =>
    cases n with
    | zero =>
      intro s b hb hn
      simp only [stepsLeft] at hn
      omega
    | succ n => exact refines_succ n fun k hk => ih k (Nat.lt_succ_of_le hk)

end Refinement

/-- The machine and the recursion have the same outcome. The monad may be any, so this holds for
natives that change what names stand for while they run, and the two resolve the same names and
invoke the same natives with the same arguments, in the same order. -/
theorem evaluate_eq_activation [LawfulMonad m] (env : Environment m φ) (limits : Limits)
    (program : Program) (args : List Value) :
    LiveExpr.evaluate env limits program args = evaluate env limits program args := by
  have hrun := refines env limits (Machine.stepBound limits) (Machine.start limits program args)
    limits.instructionBudget le_rfl le_rfl
  rw [LiveExpr.evaluate, hrun]
  refine bind_congr fun result => ?_
  cases result with
  | error fault => rfl
  | ok found => rfl

/-- A user function passes its arguments on to a native, which notes them, and returns the second
one. What its caller has on the stack below the arguments is there afterwards. -/
theorem evaluate_eq_activation_with_notes :
    let body : Program :=
      ⟨Instruction.encode (.loadArg 0) ++ Instruction.encode (.loadArg 1) ++
        Instruction.encode (.call "Note" 2) ++ Instruction.encode (.loadArg 1), 2⟩
    let env : Environment (StateM (List String)) Unit :=
      { resolve := fun name => pure (if name = "Note" then .native () false else .user body)
        invoke := fun _ args => do
          modify (· ++ args.map Value.display)
          return .unset }
    let program : Program :=
      ⟨Instruction.encode (.pushText "turned ") ++ Instruction.encode (.loadArg 0) ++
        Instruction.encode (.pushText "right") ++ Instruction.encode (.call "F" 2) ++
        Instruction.encode (.binary .add), 1⟩
    LiveExpr.evaluate env .standard program [.text "left"] =
        evaluate env .standard program [.text "left"] ∧
      (evaluate env .standard program [.text "left"]).run [] =
        (.ok ⟨.text "turned right", ["F", "Note"], true⟩, ["left", "right"]) := by
  intro body env program
  have heq := evaluate_eq_activation env .standard program [.text "left"]
  refine ⟨heq, ?_⟩
  rw [← heq]
  cbv

end LiveExpr.Activation
