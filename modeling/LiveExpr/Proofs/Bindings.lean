import LiveExpr.Registry

/-!
What a name stands for after each change of a registry. A change that makes the name
stand for something else is reported, and so announced by a fire, and no other one is.
-/
namespace LiveExpr

variable {φ : Type}

theorem Behavior.eq_of_sameAs [DecidableEq φ] {a b : Behavior φ}
    (h : a.sameAs b = true) : a = b := by
  cases a with
  | native f d =>
    cases b with
    | native g d' =>
      simp only [sameAs, Bool.and_eq_true, decide_eq_true_eq, beq_iff_eq] at h
      rw [h.1, h.2]
    | user q => cases h
    | unbound => cases h
  | user p =>
    cases b with
    | native g d' => cases h
    | user q =>
      obtain ⟨code, ident⟩ := p
      obtain ⟨code', ident'⟩ := q
      simp only [sameAs, Program.sameProgram, Bool.and_eq_true, beq_iff_eq] at h
      have hcode : code = code' := ByteArray.ext (eq_of_beq h.2)
      rw [h.1, hcode]
    | unbound => cases h
  | unbound =>
    cases b with
    | native g d' => cases h
    | user q => cases h
    | unbound => rfl

theorem Behavior.sameAs_iff [DecidableEq φ] {a b : Behavior φ} : a.sameAs b = true ↔ a = b := by
  refine ⟨Behavior.eq_of_sameAs, ?_⟩
  rintro rfl
  cases a with
  | native f deterministic => simp [sameAs]
  | user p =>
    simp only [sameAs, Program.sameProgram, beq_self_eq_true, Bool.true_and]
    exact beq_self_eq_true p.code.data
  | unbound => rfl

namespace Registry

theorem resolve_set (r : Registry φ) (name other : String) (b : Behavior φ) :
    (⟨r.entries.set name b⟩ : Registry φ).resolve other =
      if other = name then b else r.resolve other := by
  simp only [resolve, Table.get?_set]
  by_cases h : other = name
  · simp [h]
  · simp [h]

theorem contains_set_of_contains {r : Registry φ} {name other : String} {b : Behavior φ}
    (h : r.contains other = true) : (⟨r.entries.set name b⟩ : Registry φ).contains other = true := by
  simp only [contains, Table.contains, Table.get?_set]
  split
  · rfl
  · exact h

theorem contains_lookup_of_contains {r : Registry φ} {name other : String}
    (h : r.contains other = true) : (r.lookup name).2.contains other = true := by
  unfold lookup
  cases r.entries.get? name with
  | some b => exact h
  | none => exact contains_set_of_contains h

/-- Binding a name to what it is bound to already changes nothing. -/
theorem resolve_replace [DecidableEq φ] {r : Registry φ} {name : String}
    {b : Behavior φ} (h : (r.replace name b).1 = false) (other : String) :
    (r.replace name b).2.resolve other = r.resolve other := by
  simp only [replace] at h ⊢
  rw [resolve_set]
  cases hr : r.entries.get? name with
  | none => simp [hr] at h
  | some previous =>
    rw [hr] at h
    have hsame : previous = b := Behavior.eq_of_sameAs (by simpa using h)
    split
    · rename_i heq
      rw [heq, resolve, hr, ← hsame]
      rfl
    · rfl

theorem resolve_lookup (r : Registry φ) (name other : String) :
    (r.lookup name).2.resolve other = r.resolve other := by
  unfold lookup
  cases hr : r.entries.get? name with
  | some b => rfl
  | none =>
    simp only [resolve_set]
    split
    · rename_i heq
      rw [heq, resolve, hr]
      rfl
    · rfl

theorem replace_changes_iff [DecidableEq φ] {r : Registry φ} {name : String} {b : Behavior φ}
    (hb : b ≠ .unbound) : (r.replace name b).1 = true ↔ r.resolve name ≠ b := by
  simp only [replace, resolve]
  cases r.entries.get? name with
  | none => simpa using hb.symm
  | some previous =>
    simp only [Bool.not_eq_true', Option.getD_some, ← Bool.not_eq_true, Behavior.sameAs_iff, ne_eq]

theorem isBound_iff {r : Registry φ} {name : String} :
    r.isBound name = true ↔ r.resolve name ≠ .unbound := by
  unfold isBound
  cases r.resolve name <;> simp [Behavior.isBound]

theorem lookup_fst (r : Registry φ) (name : String) : (r.lookup name).1 = r.resolve name := by
  unfold lookup resolve
  cases r.entries.get? name <;> rfl

theorem unregister_changes_iff {r : Registry φ} {name : String} :
    (r.unregister name).1 = true ↔ r.resolve name ≠ .unbound := by
  rw [← isBound_iff]
  unfold unregister
  split <;> simp [*]

theorem contains_unregister_of_contains {r : Registry φ} {name other : String}
    (h : r.contains other = true) : (r.unregister name).2.contains other = true := by
  unfold unregister
  split
  · exact contains_set_of_contains h
  · exact h

theorem resolve_unregister (r : Registry φ) (name other : String) :
    (r.unregister name).2.resolve other = if other = name then .unbound else r.resolve other := by
  unfold unregister
  by_cases hbound : r.isBound name = true
  · rw [if_pos hbound]
    exact r.resolve_set name other .unbound
  · rw [if_neg hbound]
    split
    · rename_i heq
      rw [heq]
      exact Classical.not_not.mp (mt isBound_iff.mpr hbound)
    · rfl

end Registry

end LiveExpr
