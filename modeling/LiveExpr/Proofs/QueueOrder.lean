import LiveExpr.Queue
import Mathlib

/-!
The order of a queue against its history. An item that replaces another one takes its
place, so the items stand in the order in which their entities came in, whatever has
replaced them since. The history is a list of operations, oldest first, and an
operation's index in it is the time at which it was done.
-/
namespace LiveExpr

namespace Queue

variable {α : Type} [Entity α]

inductive Operation (α : Type) where
  | put (item : α)
  | pop

def perform (l : List α) : Operation α → List α
  | .put item => place l item
  | .pop => l.tail

/-- The items after the operations, on a queue that was empty before. -/
def contents (ops : List (Operation α)) : List α := ops.foldl perform []

theorem contents_append (ops : List (Operation α)) (op : Operation α) :
    contents (ops ++ [op]) = perform (contents ops) op := by
  rw [contents, List.foldl_append]
  rfl

/-- Some item describes the entity of `x`. -/
def Present (l : List α) (x : α) : Prop := ∃ y ∈ l, Entity.same y x = true

/-- The item is the one that was appended last for its entity. -/
def Latest (ops : List (Operation α)) (x : α) : Prop :=
  ∃ i : Nat, ops[i]? = some (.put x) ∧
    ∀ j y, i < j → ops[j]? = some (.put y) → ¬ Entity.same y x = true

/-- The append at time `i` brought the entity of `x` in: it was absent before, and it has been there
ever since. -/
structure IntroducedAt (ops : List (Operation α)) (i : Nat) (x : α) : Prop where
  put : ∃ y, ops[i]? = some (.put y) ∧ Entity.same y x = true
  absent : ¬ Present (contents (ops.take i)) x
  present : ∀ j, i < j → j ≤ ops.length → Present (contents (ops.take j)) x

theorem IntroducedAt.lt {ops : List (Operation α)} {i : Nat} {x : α} (h : IntroducedAt ops i x) :
    i < ops.length := by
  obtain ⟨y, hy, -⟩ := h.put
  exact (List.getElem?_eq_some_iff.mp hy).1

/-- No entity was introduced twice without having left in between. -/
theorem IntroducedAt.unique {ops : List (Operation α)} {i j : Nat} {x : α}
    (h : IntroducedAt ops i x) (h' : IntroducedAt ops j x) : i = j := by
  rcases Nat.lt_trichotomy i j with hij | hij | hij
  · exact (h'.absent (h.present j hij h'.lt.le)).elim
  · exact hij
  · exact (h.absent (h'.present i hij h.lt.le)).elim

/-- What holds of the items that a history leaves behind. -/
structure Orderly (ops : List (Operation α)) (l : List α) : Prop where
  distinct : l.Pairwise fun x y => ¬ Entity.same x y = true
  latest : ∀ x ∈ l, Latest ops x
  introduced : ∀ x ∈ l, ∃ i, IntroducedAt ops i x
  /-- Front to back by the time of their introduction. -/
  ordered : l.Pairwise fun x y => ∀ i j, IntroducedAt ops i x → IntroducedAt ops j y → i < j

theorem place_cases (l : List α) (x : α) :
    (∃ before y after, l = before ++ y :: after ∧ Entity.same y x = true ∧
      place l x = before ++ x :: after) ∨
    (∀ z ∈ l, ¬ Entity.same z x = true) ∧ place l x = l ++ [x] := by
  induction l with
  | nil => exact Or.inr ⟨by simp, rfl⟩
  | cons first rest ih =>
    by_cases hfirst : Entity.same first x = true
    · exact Or.inl ⟨[], first, rest, rfl, hfirst, by simp [place, hfirst]⟩
    · rcases ih with ⟨before, y, after, rfl, hy, hplace⟩ | ⟨hnone, hplace⟩
      · exact Or.inl ⟨first :: before, y, after, rfl, hy, by simp [place, hfirst, hplace]⟩
      · exact Or.inr ⟨List.forall_mem_cons.mpr ⟨hfirst, hnone⟩, by simp [place, hfirst, hplace]⟩

omit [Entity α] in
theorem pairwise_replace {R : α → α → Prop} {before after : List α} {x y : α}
    (h : (before ++ y :: after).Pairwise R) (hl : ∀ z, R z y → R z x) (hr : ∀ z, R y z → R x z) :
    (before ++ x :: after).Pairwise R := by
  rw [List.pairwise_append, List.pairwise_cons] at h ⊢
  obtain ⟨hbefore, ⟨hy, hafter⟩, hcross⟩ := h
  refine ⟨hbefore, ⟨fun z hz => hr z (hy z hz), hafter⟩, fun z hz u hu => ?_⟩
  rcases List.mem_cons.mp hu with rfl | hu
  · exact hl z (hcross z hz y List.mem_cons_self)
  · exact hcross z hz u (List.mem_cons_of_mem _ hu)

section Equivalence

variable (hsame : Equivalence fun x y : α => Entity.same x y = true)

include hsame

/-- Where no two items are of one entity, none is of the entity of what takes the place of another
one. -/
theorem not_same_of_replaced {before after : List α} {x y : α}
    (h : (before ++ y :: after).Pairwise fun z u => ¬ Entity.same z u = true)
    (hyx : Entity.same y x = true) {z : α} (hz : z ∈ before ∨ z ∈ after) :
    ¬ Entity.same x z = true := by
  rw [List.pairwise_append, List.pairwise_cons] at h
  obtain ⟨-, ⟨hafter, -⟩, hbefore⟩ := h
  intro hxz
  rcases hz with hz | hz
  · exact hbefore z hz y List.mem_cons_self (hsame.symm (hsame.trans hyx hxz))
  · exact hafter z hz (hsame.trans hyx hxz)

theorem distinct_replace {before after : List α} {x y : α}
    (h : (before ++ y :: after).Pairwise fun z u => ¬ Entity.same z u = true)
    (hyx : Entity.same y x = true) :
    (before ++ x :: after).Pairwise fun z u => ¬ Entity.same z u = true :=
  pairwise_replace h (fun _ hn hzx => hn (hsame.trans hzx (hsame.symm hyx)))
    fun _ hn hxz => hn (hsame.trans hyx hxz)

theorem Present.of_same {l : List α} {x y : α} (h : Present l x) (hxy : Entity.same x y = true) :
    Present l y := by
  obtain ⟨z, hz, hzx⟩ := h
  exact ⟨z, hz, hsame.trans hzx hxy⟩

theorem present_self {l : List α} {x : α} (h : x ∈ l) : Present l x := ⟨x, h, hsame.refl x⟩

/-- Introduction is a matter of the entity. -/
theorem IntroducedAt.of_same {ops : List (Operation α)} {i : Nat} {x y : α}
    (h : IntroducedAt ops i x) (hxy : Entity.same x y = true) : IntroducedAt ops i y where
  put := by
    obtain ⟨z, hz, hzx⟩ := h.put
    exact ⟨z, hz, hsame.trans hzx hxy⟩
  absent := fun hy => h.absent (hy.of_same hsame (hsame.symm hxy))
  present := fun j hij hj => (h.present j hij hj).of_same hsame hxy

end Equivalence

/-- One more operation leaves the time of introduction of what is still there. -/
theorem IntroducedAt.snoc {ops : List (Operation α)} {i : Nat} {x : α} (h : IntroducedAt ops i x)
    {op : Operation α} (hx : Present (contents (ops ++ [op])) x) :
    IntroducedAt (ops ++ [op]) i x where
  put := by
    obtain ⟨y, hy, hyx⟩ := h.put
    exact ⟨y, by rw [List.getElem?_append_left h.lt, hy], hyx⟩
  absent := by
    rw [List.take_append_of_le_length h.lt.le]
    exact h.absent
  present := by
    intro j hij hj
    rw [List.length_append, List.length_singleton] at hj
    rcases Nat.lt_or_ge ops.length j with hlast | hle
    · obtain rfl : j = (ops ++ [op]).length := by
        rw [List.length_append, List.length_singleton]
        omega
      rwa [List.take_length]
    · rw [List.take_append_of_le_length hle]
      exact h.present j hij hle

/-- What was there before the last operation was not introduced by it. -/
theorem IntroducedAt.of_snoc {ops : List (Operation α)} {i : Nat} {x : α} {op : Operation α}
    (h : IntroducedAt (ops ++ [op]) i x) (hx : Present (contents ops) x) :
    IntroducedAt ops i x := by
  have hi : i < ops.length := by
    have hlt := h.lt
    rw [List.length_append, List.length_singleton] at hlt
    by_contra hge
    obtain rfl : i = ops.length := by omega
    refine h.absent ?_
    rwa [List.take_left]
  refine ⟨?_, ?_, fun j hij hj => ?_⟩
  · obtain ⟨y, hy, hyx⟩ := h.put
    exact ⟨y, by rwa [List.getElem?_append_left hi] at hy, hyx⟩
  · have habsent := h.absent
    rwa [List.take_append_of_le_length hi.le] at habsent
  · have hpresent := h.present j hij (by simp; omega)
    rwa [List.take_append_of_le_length hj] at hpresent

theorem Latest.snoc {ops : List (Operation α)} {x : α} (h : Latest ops x) {op : Operation α}
    (hop : ∀ y, op = .put y → ¬ Entity.same y x = true) : Latest (ops ++ [op]) x := by
  obtain ⟨i, hi, hlast⟩ := h
  have hlt : i < ops.length := (List.getElem?_eq_some_iff.mp hi).1
  refine ⟨i, by rw [List.getElem?_append_left hlt, hi], fun j y hij hj => ?_⟩
  rcases Nat.lt_or_ge j ops.length with hjlt | hjge
  · rw [List.getElem?_append_left hjlt] at hj
    exact hlast j y hij hj
  · have hbound := (List.getElem?_eq_some_iff.mp hj).1
    rw [List.length_append, List.length_singleton] at hbound
    obtain rfl : j = ops.length := by omega
    rw [List.getElem?_concat_length] at hj
    exact hop y (Option.some_inj.mp hj)

theorem latest_put (ops : List (Operation α)) (x : α) : Latest (ops ++ [Operation.put x]) x := by
  refine ⟨ops.length, by simp, fun j y hlt hj => ?_⟩
  have hbound := (List.getElem?_eq_some_iff.mp hj).1
  rw [List.length_append, List.length_singleton] at hbound
  omega

namespace Orderly

variable (hsame : Equivalence fun x y : α => Entity.same x y = true) {ops : List (Operation α)}
  (h : Orderly ops (contents ops))

include hsame h

/-- What is left of the items still stands in the order of introduction. -/
theorem ordered_snoc (op : Operation α) :
    (contents ops).Pairwise fun x y =>
      ∀ i j, IntroducedAt (ops ++ [op]) i x → IntroducedAt (ops ++ [op]) j y → i < j := by
  refine h.ordered.imp_of_mem fun hx hy hlt i j hi hj => ?_
  exact hlt i j (hi.of_snoc (present_self hsame hx)) (hj.of_snoc (present_self hsame hy))

/-- What is left of the items was introduced as it was before. -/
theorem introduced_snoc {op : Operation α} {x : α} (hold : x ∈ contents ops)
    (hx : x ∈ contents (ops ++ [op])) : ∃ i, IntroducedAt (ops ++ [op]) i x := by
  obtain ⟨i, hi⟩ := h.introduced x hold
  exact ⟨i, hi.snoc (present_self hsame hx)⟩

omit hsame in
theorem latest_other {x y : α} (hold : x ∈ contents ops) (hyx : ¬ Entity.same y x = true) :
    Latest (ops ++ [Operation.put y]) x := by
  refine (h.latest x hold).snoc fun z hz => ?_
  cases hz
  exact hyx

theorem pop : Orderly (ops ++ [Operation.pop]) (contents (ops ++ [Operation.pop])) := by
  have hcontents : contents (ops ++ [Operation.pop]) = (contents ops).tail := contents_append ops .pop
  have hmem : ∀ x ∈ contents (ops ++ [Operation.pop]), x ∈ contents ops := fun x hx =>
    List.mem_of_mem_tail (hcontents ▸ hx)
  refine ⟨?_, fun x hx => (h.latest x (hmem x hx)).snoc nofun,
    fun x hx => h.introduced_snoc hsame (hmem x hx) hx, ?_⟩
  · rw [hcontents]
    exact h.distinct.sublist (List.tail_sublist _)
  · rw [hcontents]
    exact (h.ordered_snoc hsame .pop).sublist (List.tail_sublist _)

/-- An item that takes the place of another one was introduced when that was. -/
theorem replace {before after : List α} {x y : α} (hl : contents ops = before ++ y :: after)
    (hyx : Entity.same y x = true)
    (hcontents : contents (ops ++ [Operation.put x]) = before ++ x :: after) :
    Orderly (ops ++ [Operation.put x]) (contents (ops ++ [Operation.put x])) := by
  have hdistinct := h.distinct
  have hordered := h.ordered_snoc hsame (.put x)
  rw [hl] at hdistinct hordered
  have hothers : ∀ z, z ∈ before ∨ z ∈ after → z ∈ contents ops := by
    rintro z (hz | hz)
    · simp [hl, hz]
    · simp [hl, hz]
  have hcases : ∀ z ∈ contents (ops ++ [Operation.put x]), z = x ∨ z ∈ before ∨ z ∈ after := by
    intro z hz
    rw [hcontents, List.mem_append, List.mem_cons] at hz
    tauto
  refine ⟨?distinct, fun z hz => ?latest, fun z hz => ?introduced, ?ordered⟩
  case distinct =>
    rw [hcontents]
    exact distinct_replace hsame hdistinct hyx
  case latest =>
    rcases hcases z hz with rfl | hold
    · exact latest_put ops z
    · exact h.latest_other (hothers z hold) (not_same_of_replaced hsame hdistinct hyx hold)
  case introduced =>
    rcases hcases z hz with rfl | hold
    · obtain ⟨i, hi⟩ := h.introduced y (by simp [hl])
      exact ⟨i, (hi.of_same hsame hyx).snoc (present_self hsame hz)⟩
    · exact h.introduced_snoc hsame (hothers z hold) hz
  case ordered =>
    rw [hcontents]
    refine pairwise_replace hordered (fun z hlt i j hi hj => ?_) fun z hlt i j hi hj => ?_
    · exact hlt i j hi (hj.of_same hsame (hsame.symm hyx))
    · exact hlt i j (hi.of_same hsame (hsame.symm hyx)) hj

/-- An item of an absent entity goes to the back. -/
theorem add {x : α} (hx : ∀ z ∈ contents ops, ¬ Entity.same z x = true)
    (hcontents : contents (ops ++ [Operation.put x]) = contents ops ++ [x]) :
    Orderly (ops ++ [Operation.put x]) (contents (ops ++ [Operation.put x])) := by
  have hmem : x ∈ contents (ops ++ [Operation.put x]) := by simp [hcontents]
  have habsent : ¬ Present (contents ops) x := fun ⟨z, hz, hzx⟩ => hx z hz hzx
  have hintroduced : IntroducedAt (ops ++ [Operation.put x]) ops.length x := by
    refine ⟨⟨x, by simp, hsame.refl x⟩, by rwa [List.take_left], fun j hlt hj => ?_⟩
    obtain rfl : j = (ops ++ [Operation.put x]).length := by
      rw [List.length_append, List.length_singleton] at hj ⊢
      omega
    rw [List.take_length]
    exact present_self hsame hmem
  have hcases : ∀ z ∈ contents (ops ++ [Operation.put x]), z = x ∨ z ∈ contents ops := by
    intro z hz
    rw [hcontents, List.mem_append, List.mem_singleton] at hz
    exact hz.symm
  refine ⟨?distinct, fun z hz => ?latest, fun z hz => ?introduced, ?ordered⟩
  case distinct =>
    rw [hcontents, List.pairwise_append]
    refine ⟨h.distinct, List.pairwise_singleton .., fun z hz u hu => ?_⟩
    rw [List.mem_singleton.mp hu]
    exact hx z hz
  case latest =>
    rcases hcases z hz with rfl | hold
    · exact latest_put ops z
    · exact h.latest_other hold fun hxz => hx z hold (hsame.symm hxz)
  case introduced =>
    rcases hcases z hz with rfl | hold
    · exact ⟨ops.length, hintroduced⟩
    · exact h.introduced_snoc hsame hold hz
  case ordered =>
    rw [hcontents, List.pairwise_append]
    refine ⟨h.ordered_snoc hsame _, List.pairwise_singleton .., fun z hz u hu i j hi hj => ?_⟩
    rw [List.mem_singleton.mp hu] at hj
    rw [hj.unique hintroduced]
    exact (hi.of_snoc (present_self hsame hz)).lt

end Orderly

/-- Whatever is appended to a queue and taken from it, it stays orderly. -/
theorem contents_orderly (hsame : Equivalence fun x y : α => Entity.same x y = true)
    (ops : List (Operation α)) : Orderly ops (contents ops) := by
  induction ops using List.reverseRecOn with
  | nil => exact ⟨.nil, by simp [contents], by simp [contents], .nil⟩
  | append_singleton ops op ih =>
    cases op with
    | pop => exact ih.pop hsame
    | put x =>
      rcases place_cases (contents ops) x with ⟨before, y, after, hl, hyx, hplace⟩ | ⟨hx, hplace⟩
      · exact ih.replace hsame hl hyx ((contents_append ops _).trans hplace)
      · exact ih.add hsame hx ((contents_append ops _).trans hplace)

/-- Removal takes the item that was introduced earliest, or there is none. -/
def TakesEarliest (ops : List (Operation α)) (q : Queue α) : Prop :=
  (q.items = [] ∧ q.pop = (none, q)) ∨
    ∃ first rest, q.items = first :: rest ∧ q.pop = (some first, { q with items := rest }) ∧
      ∀ x ∈ rest, ∀ i j, IntroducedAt ops i first → IntroducedAt ops j x → i < j

theorem Orderly.takesEarliest {ops : List (Operation α)} {q : Queue α} (h : Orderly ops q.items) :
    TakesEarliest ops q := by
  obtain ⟨trigger, items⟩ := q
  cases items with
  | nil => exact Or.inl ⟨rfl, rfl⟩
  | cons first rest => exact Or.inr ⟨first, rest, rfl, rfl, (List.pairwise_cons.mp h.ordered).1⟩

end Queue

end LiveExpr
