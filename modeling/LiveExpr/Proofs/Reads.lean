import LiveExpr.Proofs.Transitions

/-!
Reading a bound expression. A stored value is given as it is. Otherwise the read is a
run of the program, after which the value that has been read may be stored.
-/
namespace LiveExpr.Engine

variable {H : Host} {call : Callbacks H} {e : Engine H} {h : Handle} {c : Cache} {ctx : Context}

theorem run_get_bind {α : Type} (f : Engine H → Run H α) (e : Engine H) :
    (get >>= f : Run H α).run e = (f e).run e := rfl

theorem read_stored (hc : e.store.get? h = some c) {v : Value} (hv : c.value = some v) :
    (read call h ctx).run e = some (v, e.note (.answered h v)) := by
  have hvalueOf : (valueOf call h ctx).run e = some (v, e) := by
    unfold valueOf
    rw [run_get_bind]
    simp only [hc, hv]
    rfl
  unfold read
  rw [StateT.run_bind, hvalueOf]
  rfl

/-- Unknown handles read as unset. -/
theorem read_unknown (hc : e.store.get? h = none) :
    (read call h ctx).run e = some (.unset, e.note (.answered h .unset)) := by
  have hvalueOf : (valueOf call h ctx).run e = some (.unset, e) := by
    unfold valueOf
    rw [run_get_bind]
    simp only [hc]
    rfl
  unfold read
  rw [StateT.run_bind, hvalueOf]
  rfl

/-- A read that finds no stored value. -/
theorem read_missed (hc : e.store.get? h = some c) (hv : c.value = none) :
    (read call h ctx).run e = ((evaluate call c.program [] ctx).run e).map fun found =>
      (reading found.1,
        (found.2.conclude h c.epoch found.1).note (.answered h (reading found.1))) := by
  have hvalueOf : (valueOf call h ctx).run e = (refill call h c ctx).run e := by
    unfold valueOf
    rw [run_get_bind]
    simp only [hc, hv]
  unfold read
  rw [StateT.run_bind, hvalueOf]
  unfold refill
  rw [StateT.run_bind]
  cases (evaluate call c.program [] ctx).run e <;> rfl

theorem read_of_evaluate (hc : e.store.get? h = some c) (hv : c.value = none)
    {outcome : Except Fault Evaluation} {e' : Engine H}
    (heval : (evaluate call c.program [] ctx).run e = some (outcome, e')) :
    (read call h ctx).run e = some (reading outcome,
      (e'.conclude h c.epoch outcome).note (.answered h (reading outcome))) := by
  rw [read_missed hc hv, heval]
  rfl

theorem read_value (hc : e.store.get? h = some c) (hv : c.value = none) :
    ((read call h ctx).run e).map Prod.fst =
      ((evaluate call c.program [] ctx).run e).map fun found => reading found.1 := by
  rw [read_missed hc hv, Option.map_map]
  rfl

theorem complete_value (began : Nat) (v : Evaluation) (hc : e.store.get? h = some c) :
    ∃ c', (e.complete h began v).store.get? h = some c' ∧ c'.program = c.program ∧
      c'.value = if !v.volatile && c.epoch == began then some v.value else c.value := by
  have hstored := Store.get?_modify e.store h h fun c' =>
    { c' with watches := c'.watches ++ (watch h (unwatched c v) e.bus).1 }.complete began v.value
      v.volatile
  rw [← complete_store began v hc, if_pos rfl, hc] at hstored
  exact ⟨_, hstored, rfl, rfl⟩

end LiveExpr.Engine
