import LiveExpr.Proofs.Calls
import Mathlib

/-!
What an evaluation records about the names it called, for natives that are functions
of their arguments. The record is complete: the run of the machine asks nothing else
of the registry, so a registry that agrees on the recorded names gives the same
evaluation.
-/
namespace LiveExpr

namespace Names

theorem nodup_foldl_note {acc : List String} (names : List String) (h : acc.Nodup) :
    (names.foldl note acc).Nodup := by
  induction names generalizing acc with
  | nil => exact h
  | cons name rest ih => exact ih (nodup_note name h)

/-- Noting the names one by one keeps the first of each. -/
theorem distinct_eq_eraseDups (names : List String) : distinct names = names.eraseDups := by
  induction names using List.reverseRecOn with
  | nil => rfl
  | append_singleton names name ih =>
    have hmem : name ∈ names.eraseDups ↔ name ∈ names := List.mem_eraseDups
    rw [distinct, List.foldl_append, List.eraseDups_append, ← ih]
    rw [← ih] at hmem
    by_cases h : name ∈ names
    · simp only [List.foldl_cons, List.foldl_nil, List.removeAll]
      rw [← distinct, note, if_pos (by simpa using hmem.mpr h)]
      simp [h]
    · simp only [List.foldl_cons, List.foldl_nil, List.removeAll]
      rw [← distinct, note, if_neg (by simpa using fun hn => h (hmem.mp hn))]
      simp [h, List.eraseDups_cons]

end Names

/-- Whether a call of the name makes an evaluation volatile. -/
def Registry.isVolatile {φ : Type} (r : Registry φ) (name : String) : Bool :=
  match r.resolve name with
  | .native _ deterministic => !deterministic
  | _ => false

theorem Registry.isVolatile_iff {φ : Type} {r : Registry φ} {name : String} :
    r.isVolatile name = true ↔ ∃ f, r.resolve name = .native f false := by
  unfold isVolatile
  split
  · rename_i f deterministic h
    rw [h]
    constructor
    · intro hd
      exact ⟨f, by simpa using hd⟩
    · rintro ⟨g, hg⟩
      cases hg
      rfl
  · rename_i h
    constructor
    · intro hf
      cases hf
    · rintro ⟨f, hf⟩
      exact (h f false hf).elim

/-- What has been recorded up to here, unless the evaluation has failed. -/
def Progress.Records (names : List String) (volatile : Bool) : Progress → Prop
  | .running s => s.session.dependencies = names ∧ s.session.volatile = volatile
  | .finished (.ok e) => e.dependencies = names ∧ e.volatile = volatile
  | .finished (.error _) => True

namespace Machine

variable {φ : Type} {apply : φ → List Value → Value} {r : Registry φ} {limits : Limits}

theorem leave_records (site : Nat) (v : Value) (callers : Callers) (session : Session) :
    (leave limits site v callers session).Records session.dependencies session.volatile := by
  obtain ⟨frames, depth, hdepth⟩ := callers
  cases frames with
  | nil => exact ⟨rfl, rfl⟩
  | cons caller rest =>
    simp only [leave]
    split
    · trivial
    · exact ⟨rfl, rfl⟩

theorem supply_records (next : Nat) (v : Value) (s : Machine) :
    (supply limits next v s).Records s.session.dependencies s.session.volatile := by
  simp only [supply]
  split
  · trivial
  · exact ⟨rfl, rfl⟩

theorem enter_records (s : Machine) (next : Nat) (p : Program) (args : List Value) :
    (s.enter limits next p args).Records s.session.dependencies s.session.volatile := by
  simp only [enter]
  split
  · trivial
  · exact ⟨rfl, rfl⟩

/-- A call adds nothing but the flag of what the name stands for. -/
theorem call_records (s : Machine) (next : Nat) (name : String) (args : List Value) :
    Progress.Records s.session.dependencies (s.session.volatile || r.isVolatile name)
      (s.call (r.environment apply) limits next name args) := by
  rw [call_environment, Registry.isVolatile]
  cases r.resolve name with
  | unbound => simpa using supply_records next .unset s
  | native f deterministic =>
    exact supply_records next (apply f args) (s.touch deterministic)
  | user p => simpa using enter_records s next p args

/-- A turn that does not fail leaves the record as it is or calls the name that it adds to it. -/
theorem turn_cases (limits : Limits) (s : Machine) :
    (∃ fault, s.turn limits = .moved (fail fault)) ∨
    (∃ p, s.turn limits = .moved p ∧ s.calledName? = none ∧
      p.Records s.session.dependencies s.session.volatile) ∨
    (∃ name args next t, s.turn limits = .calls name args next t ∧ s.calledName? = some name ∧
      t.session = s.session.spend.record name) := by
  by_cases hend : s.top.atEnd
  · exact Or.inr (Or.inl ⟨_, turn_atEnd hend, calledName?_of_atEnd hend, leave_records ..⟩)
  by_cases hbudget : s.session.budget = 0
  · exact Or.inl ⟨_, turn_spent hend hbudget⟩
  cases hadv : s.top.advance limits.maxStack with
  | error fault => exact Or.inl ⟨fault, turn_error hend hbudget hadv⟩
  | ok effect =>
    have hname := calledName?_of_advance hadv
    cases effect with
    | goOn f => exact Or.inr (Or.inl ⟨_, turn_goOn hend hbudget hadv, hname, rfl, rfl⟩)
    | leave v site =>
      exact Or.inr (Or.inl ⟨_, turn_leave hend hbudget hadv, hname, leave_records ..⟩)
    | call name args f next =>
      exact Or.inr (Or.inr ⟨name, args, next, _, turn_call hend hbudget hadv, hname, rfl⟩)

theorem step_records (s : Machine) :
    Progress.Records (s.calledName?.toList.foldl Names.note s.session.dependencies)
      (s.session.volatile || s.calledName?.toList.any r.isVolatile)
      (s.step (r.environment apply) limits).run := by
  unfold step
  rcases turn_cases limits s with ⟨fault, ht⟩ | ⟨p, ht, hname, hp⟩ |
      ⟨name, args, next, t, ht, hname, hsession⟩
  · rw [ht]
    trivial
  · rw [ht, hname, Option.toList_none, List.any_nil, Bool.or_false]
    exact hp
  · have hcall := @call_records φ apply r limits t next name args
    rw [hsession] at hcall
    rw [ht, hname, Option.toList_some, List.any_cons, List.any_nil, Bool.or_false]
    exact hcall

/-- A run that succeeds has recorded the names of its calls behind those recorded before. -/
theorem run_records {steps : Nat} {s : Machine} {e : Evaluation}
    (h : s.run (r.environment apply) limits steps = .ok e) :
    e.dependencies = (calledNames (r.environment apply) limits steps s).foldl Names.note
        s.session.dependencies ∧
      e.volatile = (s.session.volatile ||
        (calledNames (r.environment apply) limits steps s).any r.isVolatile) := by
  induction steps generalizing s with
  | zero => cases h
  | succ steps ih =>
    have hstep := @step_records φ apply r limits s
    rw [run_environment] at h
    rw [calledNames_succ]
    cases hp : (s.step (r.environment apply) limits).run with
    | running t =>
      rw [hp] at h hstep
      obtain ⟨hnames, hvolatile⟩ := ih h
      rw [hstep.1] at hnames
      rw [hstep.2] at hvolatile
      refine ⟨?_, ?_⟩
      · rw [List.foldl_append]
        exact hnames
      · rw [List.any_append, ← Bool.or_assoc]
        exact hvolatile
    | finished outcome =>
      have hout : outcome = .ok e := by
        rwa [hp] at h
      rw [hp, hout] at hstep
      rw [List.append_nil]
      exact hstep

/-- A run that succeeds without being volatile has called no nondeterministic native. -/
theorem deterministic_of_called {steps : Nat} {s : Machine} {e : Evaluation}
    (h : s.run (r.environment apply) limits steps = .ok e) (hn : e.volatile = false) {name : String}
    (hname : name ∈ calledNames (r.environment apply) limits steps s) (f : φ) :
    r.resolve name ≠ .native f false := by
  intro hb
  have hnone := (run_records h).2
  rw [hn, eq_comm, Bool.or_eq_false_iff] at hnone
  have hany : (calledNames (r.environment apply) limits steps s).any r.isVolatile = true :=
    List.any_eq_true.mpr ⟨name, hname, Registry.isVolatile_iff.mpr ⟨f, hb⟩⟩
  rw [hnone.2] at hany
  cases hany

section Congruence

variable {apply₁ apply₂ : φ → List Value → Value} {r₁ r₂ : Registry φ}

/-- The name means the same, and so does the native that it stands for, if it stands for one. -/
def Agrees (apply₁ apply₂ : φ → List Value → Value) (r₁ r₂ : Registry φ) (name : String) : Prop :=
  r₂.resolve name = r₁.resolve name ∧
    ∀ f deterministic, r₁.resolve name = .native f deterministic → apply₂ f = apply₁ f

/-- The next step asks for the meaning of no other name than that of the call it stands before. -/
theorem step_congr {s : Machine} (h : ∀ name ∈ s.calledName?, Agrees apply₁ apply₂ r₁ r₂ name) :
    s.step (r₂.environment apply₂) limits = s.step (r₁.environment apply₁) limits := by
  unfold step
  rcases turn_cases limits s with ⟨fault, ht⟩ | ⟨p, ht, -, -⟩ | ⟨name, args, next, t, ht, hname, -⟩
  · rw [ht]
  · rw [ht]
  · obtain ⟨hresolve, happly⟩ := h name hname
    rw [ht]
    simp only [call_environment, hresolve]
    cases hb : r₁.resolve name with
    | unbound => rfl
    | native f deterministic =>
      dsimp only
      rw [happly f deterministic hb]
    | user p => rfl

/-- Two registries that agree on the names a run calls drive it through the same states. -/
theorem run_congr {steps : Nat} {s : Machine}
    (h : ∀ name ∈ calledNames (r₁.environment apply₁) limits steps s,
      Agrees apply₁ apply₂ r₁ r₂ name) :
    s.run (r₂.environment apply₂) limits steps = s.run (r₁.environment apply₁) limits steps := by
  induction steps generalizing s with
  | zero => rfl
  | succ steps ih =>
    rw [calledNames_succ] at h
    have hstep : s.step (r₂.environment apply₂) limits = s.step (r₁.environment apply₁) limits :=
      step_congr fun name hname => h name (List.mem_append_left _ (by simpa using hname))
    rw [run_environment, run_environment, hstep]
    cases hp : (s.step (r₁.environment apply₁) limits).run with
    | running t =>
      rw [hp] at h
      exact ih fun name hname => h name (List.mem_append_right _ hname)
    | finished outcome => rfl

end Congruence

end Machine

namespace Dependencies

variable {φ : Type} (apply : φ → List Value → Value) (limits : Limits) (program : Program)
  (args : List Value)

/-- The names of the calls that an evaluation executes, in order and with repetitions. -/
def called (r : Registry φ) : List String :=
  Machine.calledNames (r.environment apply) limits (Machine.stepBound limits)
    (Machine.start limits program args)

variable {apply limits program args} in
theorem dependencies_eq {r : Registry φ} {e : Evaluation}
    (h : (evaluate (r.environment apply) limits program args).run = .ok e) :
    e.dependencies = (called apply limits program args r).eraseDups := by
  rw [← Names.distinct_eq_eraseDups]
  exact (Machine.run_records h).1

variable {apply limits program args} in
theorem deterministic_of_mem {r : Registry φ} {e : Evaluation}
    (h : (evaluate (r.environment apply) limits program args).run = .ok e)
    (hn : e.volatile = false) {name : String} (hname : name ∈ e.dependencies) (f : φ) :
    r.resolve name ≠ .native f false := by
  rw [dependencies_eq h] at hname
  exact Machine.deterministic_of_called h hn (List.mem_eraseDups.mp hname) f

variable {limits program args} in
/-- An evaluation that succeeds comes out the same where all that it lists means the same. -/
theorem evaluate_agrees {apply₁ apply₂ : φ → List Value → Value} {r₁ r₂ : Registry φ}
    {e : Evaluation} (h : (evaluate (r₁.environment apply₁) limits program args).run = .ok e)
    (hagree : ∀ name ∈ e.dependencies, Machine.Agrees apply₁ apply₂ r₁ r₂ name) :
    (evaluate (r₂.environment apply₂) limits program args).run = .ok e := by
  rw [← h]
  refine Machine.run_congr fun name hname => hagree name ?_
  rw [dependencies_eq h]
  exact List.mem_eraseDups.mpr hname

variable {apply limits program args} in
/-- An evaluation that succeeds comes out the same under registries that agree on what it lists. -/
theorem evaluate_congr {r₁ r₂ : Registry φ} {e : Evaluation}
    (h : (evaluate (r₁.environment apply) limits program args).run = .ok e)
    (hagree : ∀ name ∈ e.dependencies, r₂.resolve name = r₁.resolve name) :
    (evaluate (r₂.environment apply) limits program args).run = .ok e :=
  evaluate_agrees h fun name hname => ⟨hagree name hname, fun _ _ _ => rfl⟩

/-- An evaluation that succeeds has listed each name it called once, in the order of the first
calls. It is volatile exactly when one of the names stood for a nondeterministic native, and it
comes out the same under every registry that agrees on the names listed. -/
theorem evaluate_depends_on_called (r₁ : Registry φ) (e : Evaluation)
    (h : (evaluate (r₁.environment apply) limits program args).run = .ok e) :
    e.dependencies.Nodup ∧
      e.dependencies = (called apply limits program args r₁).eraseDups ∧
      (e.volatile = true ↔ ∃ name ∈ called apply limits program args r₁, ∃ f,
        r₁.resolve name = .native f false) ∧
      ∀ r₂ : Registry φ, (∀ name ∈ e.dependencies, r₂.resolve name = r₁.resolve name) →
        (evaluate (r₂.environment apply) limits program args).run = .ok e := by
  obtain ⟨hnames, hvolatile⟩ := Machine.run_records h
  refine ⟨?_, dependencies_eq h, ?_, fun r₂ hagree => evaluate_congr h hagree⟩
  · rw [hnames]
    exact Names.nodup_foldl_note _ List.nodup_nil
  · rw [hvolatile]
    simp only [called, Machine.start, Bool.false_or, List.any_eq_true, Registry.isVolatile_iff]

/-- An unbound name, a function of the user, and a nondeterministic native that the function calls
twice. What a name that was not called stands for is of no consequence. -/
theorem evaluate_depends_on_called_nested :
    let apply (_ : Unit) (_ : List Value) : Value := .boolean true
    let body : Program :=
      ⟨Instruction.encode (.call "N" 0) ++ Instruction.encode (.call "N" 1), 1⟩
    let program : Program :=
      ⟨Instruction.encode (.call "U" 0) ++ Instruction.encode (.call "F" 1), 2⟩
    let r₁ : Registry Unit := ⟨[("F", .user body), ("N", .native () false)]⟩
    let r₂ : Registry Unit := ⟨[("G", .user body), ("N", .native () false), ("F", .user body)]⟩
    (evaluate (r₁.environment apply) .standard program []).run =
        .ok ⟨.boolean true, ["U", "F", "N"], true⟩ ∧
      called apply .standard program [] r₁ = ["U", "F", "N", "N"] ∧
      (evaluate (r₂.environment apply) .standard program []).run =
        .ok ⟨.boolean true, ["U", "F", "N"], true⟩ := by
  intro apply body program r₁ r₂
  have h : (evaluate (r₁.environment apply) .standard program []).run =
      .ok ⟨.boolean true, ["U", "F", "N"], true⟩ := by
    cbv
  refine ⟨h, ?_, ?_⟩
  · cbv
  · obtain ⟨-, -, -, hagree⟩ := evaluate_depends_on_called apply .standard program [] r₁ _ h
    refine hagree r₂ fun name hname => ?_
    simp only [List.mem_cons, List.not_mem_nil, or_false] at hname
    rcases hname with rfl | rfl | rfl <;> rfl

end Dependencies

end LiveExpr
