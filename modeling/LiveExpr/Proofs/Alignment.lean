import LiveExpr.Proofs.Boundaries
import LiveExpr.Proofs.Execution

/-!
Runs of assembled programs. Every frame of the machine stands at a boundary of a well
formed program, so there is always an instruction to read and a jump has somewhere to
go. What remains are the faults of the stack and the limits.
-/
namespace LiveExpr

/-- The reasons for which an evaluation may stop early when its programs are well formed. -/
def Limits.reasons (limits : Limits) : List Reason :=
  [.stackUnderflow, .stackOverflow limits.maxStack, .callDepthExceeded limits.maxCallDepth,
    .budgetExhausted limits.instructionBudget]

def Frame.AlignedAt (f : Frame) (offset : Nat) : Prop :=
  f.program.WellFormed ∧ f.program.Boundary offset

/-- The frame that runs stands at a boundary, and so will those that wait when they go on. -/
structure Machine.Aligned (s : Machine) : Prop where
  top : s.top.AlignedAt s.top.pc
  callers : ∀ f ∈ s.callers.frames, f.AlignedAt f.resume

namespace Environment

variable {σ φ : Type} (env : Environment (StateT σ Option) φ)

/-- The names that now stand for programs stand for well formed ones. -/
def WellFormedIn (x : σ) : Prop :=
  ∀ name p y, (env.resolve name).run x = some (.user p, y) → p.WellFormed

/-- Something outside may be asked for an answer and never give any. -/
def MayHang : Prop :=
  (∃ name x, (env.resolve name).run x = none) ∨ ∃ f args x, (env.invoke f args).run x = none

end Environment

def Progress.Regular (limits : Limits) : Progress → Prop
  | .running s => s.Aligned
  | .finished (.error fault) => fault.reason ∈ limits.reasons
  | .finished (.ok _) => True

namespace Frame

variable {f : Frame}

/-- What a frame that stands at a boundary comes to by its next instruction. -/
theorem AlignedAt.advance (limit : Nat) (h : f.AlignedAt f.pc) (hend : ¬ f.atEnd) :
    match f.advance limit with
    | .error fault => fault.reason ∈ [.stackUnderflow, .stackOverflow limit]
    | .ok (.goOn g) => g.AlignedAt g.pc
    | .ok (.call _ _ g next) => g.AlignedAt g.pc ∧ g.AlignedAt next
    | .ok (.leave _ _) => True := by
  obtain ⟨hwell, hpc⟩ := h
  have hlt : f.pc < f.program.size := Nat.lt_of_not_le fun hle => hend (decide_eq_true hle)
  obtain ⟨i, next, hdecode, hjump⟩ := hwell f.pc hpc hlt
  have hnext : f.program.Boundary next := hpc.next hdecode
  have hexecute := f.execute_obeys limit next i
  rw [Frame.advance_of_decode hdecode]
  generalize f.execute limit next i = outcome at hexecute
  cases hexecute with
  | underflow => exact .head _
  | overflow => exact .tail _ (.head _)
  -- Where the program has a boundary there is code, so no jump of its own leads outside.
  | strayed hrel hout =>
    obtain ⟨target, htarget, hb⟩ := hjump _ hrel
    have hle := hb.le_size
    exact absurd ⟨by omega, by omega⟩ hout
  | passed => exact ⟨hwell, hnext⟩
  | jumped _ hrel htarget =>
    obtain ⟨target', htarget', hb⟩ := hjump _ hrel
    have heq : target' = _ := Int.ofNat_inj.mp (htarget'.trans htarget.symm)
    exact ⟨hwell, heq ▸ hb⟩
  | called => exact ⟨⟨hwell, hpc⟩, hwell, hnext⟩
  | left => trivial

end Frame

namespace Machine

variable {limits : Limits} {s : Machine}

theorem leave_regular {site : Nat} {v : Value} {callers : Callers} {session : Session}
    (h : ∀ f ∈ callers.frames, f.AlignedAt f.resume) :
    (leave limits site v callers session).Regular limits := by
  obtain ⟨frames, depth, hdepth⟩ := callers
  cases frames with
  | nil => trivial
  | cons caller rest =>
    simp only [leave]
    cases hp : caller.push limits.maxStack site v with
    | error fault => simp [fail, Progress.Regular, Limits.reasons, Frame.push_fault hp]
    | ok f =>
      rw [Frame.push_eq hp]
      exact ⟨h caller (.head _), fun g hg => h g (.tail _ hg)⟩

theorem Aligned.supply (h : s.Aligned) {next : Nat} (hnext : s.top.AlignedAt next) (v : Value) :
    (supply limits next v s).Regular limits := by
  simp only [Machine.supply]
  cases hp : s.top.push limits.maxStack s.top.pc v with
  | error fault => simp [fail, Progress.Regular, Limits.reasons, Frame.push_fault hp]
  | ok f =>
    rw [Frame.push_eq hp]
    exact ⟨hnext, h.callers⟩

theorem Aligned.enter (h : s.Aligned) {next : Nat} (hnext : s.top.AlignedAt next) {p : Program}
    (hp : p.WellFormed) (args : List Value) :
    (s.enter limits next p args).Regular limits := by
  unfold Machine.enter
  split
  · simp [fail, Progress.Regular, Limits.reasons]
  · refine ⟨⟨hp, .start⟩, fun f hf => ?_⟩
    rcases List.mem_cons.mp hf with rfl | hf
    · exact hnext
    · exact h.callers f hf

variable {σ φ : Type} {env : Environment (StateT σ Option) φ} {x y : σ} {p : Progress}

theorem Aligned.resolved (h : s.Aligned) {next : Nat} (hnext : s.top.AlignedAt next) {name : String}
    {args : List Value} (hresolve : env.WellFormedIn x)
    (hp : Resolved env limits s next name args x p y) : p.Regular limits := by
  cases hp with
  | unbound => exact h.supply hnext _
  | @native f deterministic =>
    have htouched : (s.touch deterministic).Aligned := ⟨h.top, h.callers⟩
    exact htouched.supply hnext _
  | user hr => exact h.enter hnext (hresolve _ _ _ hr) _

theorem Aligned.stepped (h : s.Aligned) (hresolve : env.WellFormedIn x)
    (hstep : Stepped env limits s x p y) : p.Regular limits := by
  have hadvance (hs : s.Executes) := h.top.advance limits.maxStack hs.1
  cases hstep with
  | ended => exact leave_regular h.callers
  | spent => simp [fail, Progress.Regular, Limits.reasons]
  | failed hs hadv =>
    have hfault := hadvance hs
    rw [hadv] at hfault
    exact List.mem_append_left [_, _] hfault
  | wentOn hs hadv =>
    have htop := hadvance hs
    rw [hadv] at htop
    exact ⟨htop, h.callers⟩
  | left => exact leave_regular h.callers
  | @called hs name args f next p y hadv hcall =>
    have htop := hadvance hs
    rw [hadv] at htop
    have hcalling : (s.calling f name).Aligned := ⟨htop.1, h.callers⟩
    exact hcalling.resolved htop.2 hresolve hcall

theorem mayHang_of_call {s : Machine} {next : Nat} {name : String} {args : List Value} {x : σ}
    (h : (s.call env limits next name args).run x = none) : env.MayHang := by
  rw [call_eq] at h
  cases hr : (env.resolve name).run x with
  | none => exact .inl ⟨name, x, hr⟩
  | some found =>
    obtain ⟨behavior, y⟩ := found
    rw [hr] at h
    cases behavior with
    | unbound => cases h
    | native f deterministic => exact .inr ⟨f, args, y, Option.map_eq_none_iff.mp h⟩
    | user p => cases h

theorem mayHang_of_step {s : Machine} {x : σ} (h : (s.step env limits).run x = none) :
    env.MayHang := by
  cases ht : s.turn limits with
  | moved p => cases (step_of_turn env ht x).symm.trans h
  | calls name args next t =>
    rw [step_of_call ht] at h
    exact mayHang_of_call h

/-- What one step keeps up, a run keeps up to its end. -/
theorem Aligned.run (n : Nat) {x : σ} (h : s.Aligned)
    (hresolve : ∀ t y, Leads env limits s x t y → env.WellFormedIn y) :
    match (s.run env limits n).run x with
    | some (outcome, _) => (Progress.finished outcome).Regular limits
    | none => env.MayHang := by
  induction n generalizing s x with
  | zero => simp [Machine.run, Progress.Regular, Limits.reasons]
  | succ n ih =>
    rw [Machine.run, StateT.run_bind]
    cases hs : (s.step env limits).run x with
    | none => exact mayHang_of_step hs
    | some found =>
      obtain ⟨p, y⟩ := found
      have hstep := h.stepped (hresolve s x .refl) (step_iff.mp hs)
      cases p with
      | finished outcome => exact hstep
      | running t => exact ih hstep fun u z hu => hresolve u z (.of_step hs hu)

end Machine

/-- An evaluation of assembled programs comes to a value, or it fails by its stack or a limit. What
the names stand for may change at every step, as long as they stand for assembled programs. -/
theorem evaluate_regular {σ φ : Type} {env : Environment (StateT σ Option) φ} {limits : Limits}
    {program : Program} {args : List Value} {x : σ} (hprogram : program.Assembled)
    (hresolve : ∀ t y, Machine.Leads env limits (.start limits program args) x t y →
      ∀ name p z, (env.resolve name).run y = some (.user p, z) → p.Assembled) :
    (∀ fault y, (evaluate env limits program args).run x = some (.error fault, y) →
      fault.reason ∈ limits.reasons) ∧
    ((evaluate env limits program args).run x = none → env.MayHang) := by
  have haligned : (Machine.start limits program args).Aligned :=
    ⟨⟨hprogram.wellFormed, .start⟩, fun f hf => nomatch hf⟩
  have hrun := haligned.run (Machine.stepBound limits)
    fun t y ht name p z hp => (hresolve t y ht name p z hp).wellFormed
  rw [evaluate]
  constructor
  · intro fault y hfault
    rw [hfault] at hrun
    exact hrun
  · intro hnone
    rw [hnone] at hrun
    exact hrun

/-- A native that puts a program in its own place, called from a loop. -/
theorem evaluate_regular_replaced :
    let body : Program := ⟨(assemble [.jump, .text ""]).code, 1⟩
    let program : Program :=
      ⟨(assemble [.label, .call "F" 0, .jumpIfFalse, .jumpTo 0, .bind 0, .boolean true]).code, 0⟩
    let env : Environment (StateT Bool Option) Unit :=
      { resolve := fun _ => do return if ← get then .user body else .native () false
        invoke := fun _ _ => do
          set true
          return .boolean true }
    (∀ fault y, (evaluate env .standard program []).run false = some (.error fault, y) →
      fault.reason ∈ Limits.standard.reasons) ∧
    ((evaluate env .standard program []).run false = none → env.MayHang) := by
  intro body program env
  have hprogram : program.Assembled := ⟨_, by decide, rfl⟩
  have hbody : body.Assembled := ⟨_, by decide, rfl⟩
  refine evaluate_regular hprogram fun t y _ name p z hp => ?_
  cases y with
  | false => cases hp
  | true =>
    cases hp
    exact hbody

end LiveExpr
