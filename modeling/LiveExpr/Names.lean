/-!
Lists of names without repetition: collected in the order of first appearance, or
sorted by code points.
-/
namespace LiveExpr.Names

def note (names : List String) (name : String) : List String :=
  if names.contains name then names else names ++ [name]

/-- The distinct names of a list in the order of first appearance. -/
def distinct (names : List String) : List String := names.foldl note []

def sorted (names : List String) : List String := names.mergeSort (fun a b => decide (a ≤ b))

theorem mem_note {names : List String} {name x : String} :
    x ∈ note names name ↔ x ∈ names ∨ x = name := by
  unfold note
  split
  · rename_i h
    have hmem : name ∈ names := by simpa using h
    constructor
    · exact Or.inl
    · rintro (h | rfl)
      · exact h
      · exact hmem
  · simp

theorem nodup_note {names : List String} (name : String) (h : names.Nodup) :
    (note names name).Nodup := by
  unfold note
  split
  · exact h
  · rename_i hc
    have hmem : name ∉ names := by simpa using hc
    rw [List.nodup_append]
    refine ⟨h, by simp, ?_⟩
    rintro a ha b hb rfl
    exact hmem ((List.mem_singleton.mp hb) ▸ ha)

end LiveExpr.Names
