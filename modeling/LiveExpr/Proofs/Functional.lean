import LiveExpr.Proofs.Operations
import LiveExpr.Proofs.Sessions

/-!
Natives that compute their results from their arguments alone. An evaluation that has
called no other native leaves the engine as it was, the host's own state apart, and
comes to what it comes to under the registry as it stands. It is volatile otherwise.
-/
namespace LiveExpr

variable {H : Host}

/-- The action issues no request and comes to one answer, whatever the host sees. -/
inductive Action.Returns {α : Type} (a : α) : Action H α → Prop
  | pure : Returns a (.pure a)
  | look {next : Engine H → Action H α} (h : ∀ e, Returns a (next e)) : Returns a (.look next)
  | change {f : H.State → H.State} {next : Action H α} (h : Returns a next) :
      Returns a (.change f next)

theorem Action.Returns.run {α : Type} {a : α} {m : Action H α} (h : m.Returns a)
    (call : Callbacks H) (e : Engine H) :
    ∃ host, (m.run call).run e = some (a, { e with host }) := by
  induction h generalizing e with
  | pure => exact ⟨e.host, rfl⟩
  | look _ ih => exact ih _ e
  | change _ ih => exact ih { e with host := _ }

namespace Script

variable (script : Script H H)

/-- The results of the native are those of a function of its arguments. -/
def Computes (f : H.Function) (g : List Value → Value) : Prop :=
  ∀ args c, (script.native f args c).Returns (g args)

/-- Natives are called deterministic only if they are. -/
def Sincere : Request H → Prop
  | .registerNative _ f true => ∃ g, script.Computes f g
  | _ => True

open Classical in
/-- The function that a native computes, if it computes one. -/
noncomputable def value : Native H → List Value → Value
  | .builtin _ => fun _ => .unset
  | .host f => if h : ∃ g, script.Computes f g then h.choose else fun _ => .unset

def Binds : Behavior (Native H) → Prop
  | .native (.host f) true => ∃ g, script.Computes f g
  | .native (.builtin _) true => False
  | _ => True

/-- Evaluations that are not volatile come to what they come to under the registry as it stands. -/
noncomputable def terms : Terms H where
  binds := script.Binds
  completes registry limits p v := v.volatile = false →
    (evaluate (registry.environment script.value) limits p []).run = .ok v
  unbound := trivial
  user _ := trivial
  nondeterministic f := by
    cases f <;> trivial

theorem allows_eq : script.terms.Allows = script.Sincere := by
  funext r
  cases r with
  | registerNative name f deterministic => cases deterministic <;> rfl
  | _ => rfl

variable {script}

theorem computes_value {f : H.Function} (h : ∃ g, script.Computes f g) :
    script.Computes f (script.value (.host f)) := by
  simp only [value, dif_pos h]
  exact h.choose_spec

/-- The native only computes, whether or not it is bound as a deterministic one. -/
def Pure (script : Script H H) : Native H → Prop
  | .builtin _ => False
  | .host f => ∃ g, script.Computes f g

theorem pure_of_binds {f : Native H} (hf : script.Binds (.native f true)) : script.Pure f := by
  cases f <;> exact hf

end Script

namespace Callbacks

variable (call : Callbacks H) (pure : Native H → Prop)

/-- Whenever one of these natives returns, it has computed its value. It has left the engine as it
was, up to such changes of the host's own state as leave all values the same. -/
structure Compute (value : H.State → Native H → List Value → Value)
    (near : H.State → H.State → Prop) : Prop where
  native : ∀ {f}, pure f → ∀ {args c e v e'}, (call.native f args c).run e = some (v, e') →
    v = value e.host f args ∧ ∃ host, e' = { e with host } ∧ near e.host host
  same : ∀ {s s'}, near s s' → value s' = value s

/-- None of these natives fails to return. -/
def Return : Prop := ∀ ⦃f⦄, pure f → ∀ args c e, ((call.native f args c).run e).isSome

end Callbacks

section

variable {script : Script H H} (rounds depth : Nat)

/-- A native that only computes, called back. -/
theorem Script.native_run {f : Native H} (hf : script.Pure f) (args : List Value) (c : Context)
    (e : Engine H) :
    ∃ host, ((script.callbacks rounds (depth + 1)).native f args c).run e =
      some (script.value f args, { e with host }) := by
  cases f with
  | builtin b => exact hf.elim
  | host f => exact (computes_value hf args c).run _ e

theorem Script.callbacks_compute :
    (script.callbacks rounds depth).Compute script.Pure (fun _ => script.value)
      fun _ _ => True := by
  refine ⟨fun {f} hf {args c e v e'} hrun => ?_, fun _ => rfl⟩
  cases depth with
  | zero => cases hrun
  | succ depth =>
    obtain ⟨host, hcomputed⟩ := script.native_run rounds depth hf args c e
    rw [hcomputed] at hrun
    cases hrun
    exact ⟨rfl, host, rfl, trivial⟩

theorem Script.callbacks_return : (script.callbacks rounds (depth + 1)).Return script.Pure := by
  intro f hf args c e
  obtain ⟨host, hcomputed⟩ := script.native_run rounds depth hf args c e
  rw [hcomputed]
  rfl

end

/-- A nondeterministic native has been called, or the evaluation has failed. -/
abbrev Progress.Volatile : Progress → Prop := Keeps fun _ volatile => volatile = true

/-- Once volatile, an evaluation stays so. -/
theorem lasting_volatile : Lasting fun _ volatile => volatile = true where
  note := fun _ h => h
  touch := fun _ h => by rw [h, Bool.true_or]

namespace Machine

variable {call : Callbacks H} {pure : Native H → Prop}
  {value : H.State → Native H → List Value → Value} {near : H.State → H.State → Prop}
  {c : Context} {limits : Limits} {e e' : Engine H}

theorem supply_volatile (next : Nat) (v : Value) (s : Machine) :
    (supply limits next v (s.touch false)).Volatile :=
  (supply_records next v (s.touch false)).keeps (Bool.or_true _)

section

variable (hcall : call.Compute pure value near)
  (hbinds : ∀ name f, e.registry.resolve name = .native f true → pure f)

include hcall hbinds

/-- A step that calls no nondeterministic native is the one made under the registry as it stands,
and leaves the engine as it was. -/
theorem step_functional {s : Machine} {p : Progress}
    (hrun : (s.step (Engine.environment call c) limits).run e = some (p, e')) :
    p.Volatile ∨
      p = (s.step (e.registry.environment (value e.host)) limits).run ∧
        ∃ host, e' = { e with host } ∧ value host = value e.host := by
  unfold step at hrun ⊢
  cases ht : s.turn limits with
  | moved p' =>
    rw [ht] at hrun
    cases hrun
    exact Or.inr ⟨rfl, e.host, rfl, rfl⟩
  | calls name args next t =>
    simp only [ht, call_run] at hrun
    simp only [call_environment]
    cases hb : e.registry.resolve name with
    | unbound =>
      rw [hb] at hrun
      cases hrun
      exact Or.inr ⟨rfl, e.host, rfl, rfl⟩
    | user program =>
      rw [hb] at hrun
      cases hrun
      exact Or.inr ⟨rfl, e.host, rfl, rfl⟩
    | native f deterministic =>
      rw [hb] at hrun
      obtain ⟨⟨v, e₁⟩, hnative, hfound⟩ := Option.map_eq_some_iff.mp hrun
      cases hfound
      cases deterministic with
      | false => exact Or.inl (supply_volatile ..)
      | true =>
        obtain ⟨rfl, host, rfl, hnear⟩ := hcall.native (hbinds name f hb) hnative
        exact Or.inr ⟨rfl, host, rfl, hcall.same hnear⟩

theorem run_functional {steps : Nat} {s : Machine} {outcome : Except Fault Evaluation}
    (hrun : (s.run (Engine.environment call c) limits steps).run e = some (outcome, e')) :
    (Progress.finished outcome).Volatile ∨
      outcome = (s.run (e.registry.environment (value e.host)) limits steps).run ∧
        ∃ host, e' = { e with host } ∧ value host = value e.host := by
  induction steps generalizing s e with
  | zero =>
    cases hrun
    exact Or.inr ⟨rfl, _, rfl, rfl⟩
  | succ steps ih =>
    rw [run, StateT.run_bind] at hrun
    obtain ⟨⟨p, e₁⟩, hstep, hrest⟩ := Option.bind_eq_some_iff.mp hrun
    rw [run_environment]
    rcases step_functional hcall hbinds hstep with hvolatile | ⟨hp, host, rfl, hvalue⟩
    · -- From here on the registry may be another one, but the evaluation stays volatile.
      refine Or.inl ?_
      cases p with
      | running t => exact run_keeps lasting_volatile hvolatile hrest
      | finished outcome' =>
        cases hrest
        exact hvolatile
    · rw [← hp]
      cases p with
      | running t =>
        have hlater := ih (e := { e with host }) hbinds hrest
        dsimp only at hlater
        rwa [hvalue] at hlater
      | finished outcome' =>
        cases hrest
        exact Or.inr ⟨rfl, host, rfl, hvalue⟩

end

section

variable (hcall : call.Compute pure value near) (hreturn : call.Return pure)

include hcall hreturn

/-- A step that calls no native that does more than compute. -/
theorem step_computed {s : Machine}
    (hpure : ∀ name ∈ s.calledName?, ∀ f deterministic,
      e.registry.resolve name = .native f deterministic → pure f) :
    ∃ host, (s.step (Engine.environment call c) limits).run e =
        some ((s.step (e.registry.environment (value e.host)) limits).run, { e with host }) ∧
      Relation.ReflTransGen near e.host host := by
  unfold step
  rcases turn_cases limits s with ⟨fault, ht⟩ | ⟨p, ht, -, -⟩ | ⟨name, args, next, t, ht, hname, -⟩
  · rw [ht]
    exact ⟨e.host, rfl, .refl⟩
  · rw [ht]
    exact ⟨e.host, rfl, .refl⟩
  · simp only [ht, call_run, call_environment]
    cases hb : e.registry.resolve name with
    | unbound => exact ⟨e.host, rfl, .refl⟩
    | user program => exact ⟨e.host, rfl, .refl⟩
    | native f deterministic =>
      have hf := hpure name hname f deterministic hb
      obtain ⟨⟨v, e₁⟩, hrun⟩ := Option.isSome_iff_exists.mp (hreturn hf args c e)
      obtain ⟨rfl, host, rfl, hnear⟩ := hcall.native hf hrun
      dsimp only
      rw [hrun]
      exact ⟨host, rfl, .single hnear⟩

omit hreturn in
theorem same_of_near {s s' : H.State} (h : Relation.ReflTransGen near s s') :
    value s' = value s := by
  induction h with
  | refl => rfl
  | tail _ hlast ih => rw [hcall.same hlast, ih]

theorem run_computed {steps : Nat} {s : Machine}
    (hpure : ∀ name ∈ calledNames (e.registry.environment (value e.host)) limits steps s,
      ∀ f deterministic, e.registry.resolve name = .native f deterministic → pure f) :
    ∃ host, (s.run (Engine.environment call c) limits steps).run e =
        some ((s.run (e.registry.environment (value e.host)) limits steps).run, { e with host }) ∧
      Relation.ReflTransGen near e.host host := by
  induction steps generalizing s e with
  | zero => exact ⟨e.host, rfl, .refl⟩
  | succ steps ih =>
    rw [calledNames_succ] at hpure
    have hcalled : ∀ name ∈ s.calledName?, ∀ f deterministic,
        e.registry.resolve name = .native f deterministic → pure f := fun name hname =>
      hpure name (List.mem_append_left _ (by simpa using hname))
    obtain ⟨host, hstep, hnear⟩ := step_computed (c := c) hcall hreturn hcalled
    have hvalue := same_of_near hcall hnear
    rw [run, StateT.run_bind, hstep, run_environment]
    cases hp : (s.step (e.registry.environment (value e.host)) limits).run with
    | running t =>
      rw [hp] at hpure
      obtain ⟨host', hrest, hlater⟩ := ih (s := t) (e := { e with host }) fun name hname =>
        hpure name (List.mem_append_right _ (by rwa [hvalue] at hname))
      dsimp only at hrest
      rw [hvalue] at hrest
      exact ⟨host', hrest, hnear.trans hlater⟩
    | finished outcome => exact ⟨host, rfl, hnear⟩

end

/-- What an evaluation calls that succeeds without being volatile. -/
theorem pure_of_called (hbinds : ∀ name f, e.registry.resolve name = .native f true → pure f)
    {steps : Nat} {s : Machine} {v : Evaluation}
    (hv : (s.run (e.registry.environment (value e.host)) limits steps).run = .ok v)
    (hn : v.volatile = false) :
    ∀ name ∈ calledNames (e.registry.environment (value e.host)) limits steps s,
      ∀ f deterministic, e.registry.resolve name = .native f deterministic → pure f := by
  intro name hname f deterministic hb
  cases deterministic with
  | true => exact hbinds name f hb
  | false => exact (deterministic_of_called hv hn hname f hb).elim

end Machine

namespace Engine

variable {call : Callbacks H} {pure : Native H → Prop}
  {value : H.State → Native H → List Value → Value} {near : H.State → H.State → Prop}
  {p : Program} {c : Context} {e e' : Engine H} {v : Evaluation}

theorem evaluate_functional (hcall : call.Compute pure value near)
    (hbinds : ∀ name f, e.registry.resolve name = .native f true → pure f)
    (hrun : (evaluate call p [] c).run e = some (.ok v, e')) (hn : v.volatile = false) :
    (LiveExpr.evaluate (e'.registry.environment (value e'.host)) e'.limits p []).run = .ok v := by
  rcases Machine.run_functional hcall hbinds hrun with hvolatile | ⟨hv, host, rfl, hvalue⟩
  · rw [hvolatile v rfl] at hn
    cases hn
  · dsimp only
    rw [hvalue]
    exact hv.symm

/-- An evaluation that calls no native that does more than compute. -/
theorem evaluate_computed (hcall : call.Compute pure value near) (hreturn : call.Return pure)
    (hpure : ∀ name ∈ Dependencies.called (value e.host) e.limits p [] e.registry,
      ∀ f deterministic, e.registry.resolve name = .native f deterministic → pure f) :
    ∃ host, (evaluate call p [] c).run e =
        some ((LiveExpr.evaluate (e.registry.environment (value e.host)) e.limits p []).run,
          { e with host }) ∧
      Relation.ReflTransGen near e.host host :=
  Machine.run_computed hcall hreturn hpure

theorem evaluate_of_functional (hcall : call.Compute pure value near) (hreturn : call.Return pure)
    (hbinds : ∀ name f, e.registry.resolve name = .native f true → pure f)
    (hv : (LiveExpr.evaluate (e.registry.environment (value e.host)) e.limits p []).run = .ok v)
    (hn : v.volatile = false) :
    ∃ host, (evaluate call p [] c).run e = some (.ok v, { e with host }) := by
  obtain ⟨host, hrun, -⟩ := evaluate_computed hcall hreturn (Machine.pure_of_called hbinds hv hn)
  exact ⟨host, hv ▸ hrun⟩

end Engine

/-- A script that is sincere about its natives keeps to what it promises. -/
theorem Script.keeps_terms {script : Script H H} (hs : script.AsksOnly script.Sincere)
    (rounds depth : Nat) : (script.callbacks rounds depth).Keeps script.terms.regime := by
  refine callbacks_keep ?_ (fun hbinds hrun => Engine.evaluate_functional
    (script.callbacks_compute ..) (fun _ _ hb => pure_of_binds (hb ▸ hbinds _)) hrun) depth
  rw [script.allows_eq]
  exact hs

end LiveExpr
