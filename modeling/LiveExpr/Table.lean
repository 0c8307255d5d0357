/-!
Finite maps from names as lists of pairs. Each name occurs at most once; setting
a known name keeps its place and setting a new one adds it at the end.
-/
namespace LiveExpr

abbrev Table (α : Type) := List (String × α)

namespace Table

variable {α : Type}

def get? : Table α → String → Option α
  | [], _ => none
  | (k, v) :: rest, name => if k = name then some v else get? rest name

def contains (t : Table α) (name : String) : Bool := (get? t name).isSome

def set : Table α → String → α → Table α
  | [], name, x => [(name, x)]
  | (k, v) :: rest, name, x =>
    if k = name then (name, x) :: rest else (k, v) :: set rest name x

def erase : Table α → String → Table α
  | [], _ => []
  | (k, v) :: rest, name => if k = name then erase rest name else (k, v) :: erase rest name

def keys (t : Table α) : List String := t.map Prod.fst

theorem get?_set (t : Table α) (name other : String) (x : α) :
    get? (set t name x) other = if other = name then some x else get? t other := by
  induction t with
  | nil => simp [set, get?, eq_comm]
  | cons p rest ih =>
    obtain ⟨k, v⟩ := p
    by_cases hk : k = name
    · subst hk
      by_cases ho : other = k
      · simp [set, get?, ho]
      · simp [set, get?, ho, Ne.symm ho]
    · by_cases ho : k = other
      · subst ho
        simp [set, get?, hk]
      · simp [set, get?, hk, ho, ih]

theorem get?_erase (t : Table α) (name other : String) :
    get? (erase t name) other = if other = name then none else get? t other := by
  induction t with
  | nil => simp [erase, get?]
  | cons p rest ih =>
    obtain ⟨k, v⟩ := p
    by_cases hk : k = name
    · subst hk
      by_cases ho : other = k
      · subst ho
        simpa [erase] using ih
      · simp [erase, get?, ih, ho, Ne.symm ho]
    · by_cases ho : k = other
      · subst ho
        simp [erase, get?, hk]
      · simp [erase, get?, hk, ho, ih]

theorem mem_of_get? {t : Table α} {name : String} {x : α} (h : get? t name = some x) :
    (name, x) ∈ t := by
  induction t with
  | nil => cases h
  | cons p rest ih =>
    obtain ⟨k, v⟩ := p
    by_cases hk : k = name
    · rw [get?, if_pos hk] at h
      cases h
      rw [hk]
      exact List.mem_cons_self
    · rw [get?, if_neg hk] at h
      exact List.mem_cons_of_mem _ (ih h)

theorem mem_keys {t : Table α} {name : String} : name ∈ t.keys ↔ ∃ x, (name, x) ∈ t := by
  simp [keys]

theorem contains_iff {t : Table α} {name : String} : t.contains name = true ↔ name ∈ t.keys := by
  unfold contains
  induction t with
  | nil => simp [get?, keys]
  | cons p rest ih =>
    obtain ⟨k, v⟩ := p
    by_cases hk : k = name
    · simp [get?, keys, hk]
    · simpa [get?, keys, hk, Ne.symm hk] using ih

end Table

end LiveExpr
