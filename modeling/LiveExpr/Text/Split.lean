/-!
Cutting a text at one separator: at its first or at its last occurrence. The
separator itself belongs to neither part.
-/
namespace LiveExpr.Text

def splitFirst? (sep : Char) : List Char → Option (List Char × List Char)
  | [] => none
  | c :: rest =>
    if c = sep then some ([], rest)
    else (splitFirst? sep rest).map fun parts => (c :: parts.1, parts.2)

def splitLast? (sep : Char) (cs : List Char) : Option (List Char × List Char) :=
  (splitFirst? sep cs.reverse).map fun parts => (parts.2.reverse, parts.1.reverse)

theorem splitFirst?_eq_some_iff {sep : Char} {cs before after : List Char} :
    splitFirst? sep cs = some (before, after) ↔ cs = before ++ sep :: after ∧ sep ∉ before := by
  induction cs generalizing before with
  | nil => simp [splitFirst?]
  | cons c rest ih =>
    by_cases h : c = sep
    · subst h
      cases before with
      | nil => simp [splitFirst?, eq_comm]
      | cons b bs =>
        simp only [splitFirst?, if_true, Option.some.injEq, Prod.mk.injEq, List.cons_append,
          List.cons.injEq, List.mem_cons, not_or]
        constructor
        · rintro ⟨h, _⟩
          cases h
        · rintro ⟨⟨h, _⟩, hne, _⟩
          exact absurd h hne
    · cases before with
      | nil => simp [splitFirst?, h]
      | cons b bs =>
        simp only [splitFirst?, h, if_false, Option.map_eq_some_iff, Prod.exists, Prod.mk.injEq,
          List.cons_append, List.cons.injEq, List.mem_cons, not_or]
        constructor
        · rintro ⟨x, y, hxy, ⟨rfl, rfl⟩, rfl⟩
          obtain ⟨hr, hm⟩ := ih.mp hxy
          exact ⟨⟨rfl, hr⟩, Ne.symm h, hm⟩
        · rintro ⟨⟨rfl, hr⟩, _, hm⟩
          exact ⟨bs, after, ih.mpr ⟨hr, hm⟩, ⟨rfl, rfl⟩, rfl⟩

theorem splitLast?_eq_some_iff {sep : Char} {cs before after : List Char} :
    splitLast? sep cs = some (before, after) ↔ cs = before ++ sep :: after ∧ sep ∉ after := by
  have hrev : cs.reverse = after.reverse ++ sep :: before.reverse ↔
      cs = before ++ sep :: after := by
    rw [← List.reverse_inj]
    simp
  constructor
  · intro h
    obtain ⟨⟨x, y⟩, hxy, hp⟩ := Option.map_eq_some_iff.mp h
    obtain ⟨rfl, rfl⟩ := Prod.mk.inj hp
    obtain ⟨hr, hm⟩ := splitFirst?_eq_some_iff.mp hxy
    refine ⟨?_, by simpa using hm⟩
    rw [← List.reverse_inj, hr]
    simp
  · rintro ⟨hcs, hm⟩
    have h : splitFirst? sep cs.reverse = some (after.reverse, before.reverse) :=
      splitFirst?_eq_some_iff.mpr ⟨hrev.mpr hcs, by simpa using hm⟩
    simp [splitLast?, h]

end LiveExpr.Text
