import LiveExpr.Proofs.Dependencies
import LiveExpr.Engine.Perform

/-!
What an evaluation in an engine records, whatever the natives that it calls do to the
engine meanwhile. The record only changes by the names that are called and the flags of
the natives, so a property that outlasts these holds of the record in the end.
-/
namespace LiveExpr

variable {H : Host}

/-- A property of the names and the flag recorded that outlasts all calls. -/
structure Lasting (P : List String → Bool → Prop) : Prop where
  note : ∀ {names volatile} name, P names volatile → P (Names.note names name) volatile
  touch : ∀ {names volatile} deterministic, P names volatile →
    P names (volatile || !deterministic)

/-- What has been recorded up to here has the property, or the evaluation has failed. -/
def Progress.Keeps (P : List String → Bool → Prop) : Progress → Prop
  | .running s => P s.session.dependencies s.session.volatile
  | .finished outcome => ∀ v, outcome = .ok v → P v.dependencies v.volatile

variable {P : List String → Bool → Prop}

theorem Progress.Records.keeps {names : List String} {volatile : Bool} {p : Progress}
    (h : p.Records names volatile) (hp : P names volatile) : p.Keeps P := by
  cases p with
  | running s =>
    obtain ⟨rfl, rfl⟩ := h
    exact hp
  | finished outcome =>
    rintro v rfl
    obtain ⟨rfl, rfl⟩ := h
    exact hp

namespace Machine

variable {c : Context} {limits : Limits} {e e' : Engine H} {call : Callbacks H}

theorem call_run (call : Callbacks H) (s : Machine) (next : Nat) (name : String)
    (args : List Value) :
    (s.call (Engine.environment call c) limits next name args).run e =
      match e.registry.resolve name with
      | .unbound => some (supply limits next .unset s, e)
      | .native f deterministic => ((call.native f args c).run e).map fun found =>
          (supply limits next found.1 (s.touch deterministic), found.2)
      | .user p => some (s.enter limits next p args, e) := by
  have hresolve : ((Engine.environment call c).resolve name).run e =
      some (e.registry.resolve name, e) := rfl
  rw [call_eq, hresolve, Option.bind_some]
  cases e.registry.resolve name <;> rfl

theorem step_keeps (hP : Lasting P) {s : Machine}
    (hs : P s.session.dependencies s.session.volatile) {p : Progress}
    (hrun : (s.step (Engine.environment call c) limits).run e = some (p, e')) : p.Keeps P := by
  unfold step at hrun
  rcases turn_cases limits s with ⟨fault, ht⟩ | ⟨p', ht, -, hp⟩ |
      ⟨name, args, next, t, ht, -, hsession⟩
  · rw [ht] at hrun
    cases hrun
    intro v hv
    cases hv
  · rw [ht] at hrun
    cases hrun
    exact hp.keeps hs
  · have hnoted : P t.session.dependencies t.session.volatile := by
      rw [hsession]
      exact hP.note name hs
    simp only [ht, call_run] at hrun
    cases hb : e.registry.resolve name with
    | unbound =>
      rw [hb] at hrun
      cases hrun
      exact (supply_records next .unset t).keeps hnoted
    | native f deterministic =>
      rw [hb] at hrun
      obtain ⟨⟨v, e₁⟩, -, hfound⟩ := Option.map_eq_some_iff.mp hrun
      cases hfound
      exact (supply_records next v (t.touch deterministic)).keeps (hP.touch deterministic hnoted)
    | user program =>
      rw [hb] at hrun
      cases hrun
      exact (enter_records t next program args).keeps hnoted

theorem run_keeps (hP : Lasting P) {steps : Nat} {s : Machine}
    (hs : P s.session.dependencies s.session.volatile) {outcome : Except Fault Evaluation}
    (hrun : (s.run (Engine.environment call c) limits steps).run e = some (outcome, e')) :
    (Progress.finished outcome).Keeps P := by
  induction steps generalizing s e with
  | zero =>
    cases hrun
    intro v hv
    cases hv
  | succ steps ih =>
    rw [run, StateT.run_bind] at hrun
    obtain ⟨⟨p, e₁⟩, hstep, hrest⟩ := Option.bind_eq_some_iff.mp hrun
    have hp := step_keeps hP hs hstep
    cases p with
    | running t => exact ih hp hrest
    | finished outcome' =>
      cases hrest
      exact hp

end Machine

/-- The names that an evaluation lists are distinct. -/
theorem Engine.evaluate_nodup {call : Callbacks H} {p : Program} {args : List Value} {c : Context}
    {e e' : Engine H} {v : Evaluation}
    (hrun : (evaluate call p args c).run e = some (.ok v, e')) : v.dependencies.Nodup :=
  Machine.run_keeps (P := fun names _ => names.Nodup) ⟨Names.nodup_note, fun _ h => h⟩
    List.nodup_nil hrun v rfl

end LiveExpr
