import LiveExpr.Proofs.QueueOrder

/-!
A queue from which nothing is taken. Of each entity that has been put in it holds the item
that was put in last, in the order in which the entities were put in first. The times of the
puts may be of any kind, as long as they come one after the other.
-/
namespace LiveExpr.Queue

variable {α T : Type} [Entity α] [LinearOrder T] {put put' : T → α → Prop} {items : List α}
  {x y z : α} {t u : T}

/-- An item of the entity was put in at the time, and none before. -/
structure FirstPutAt (put : T → α → Prop) (x : α) (t : T) : Prop where
  done : ∃ y, put t y ∧ Entity.same y x = true
  first : ∀ u y, put u y → Entity.same y x = true → t ≤ u

/-- The item was put in, and none of its entity after that. -/
def LastPut (put : T → α → Prop) (x : α) : Prop :=
  ∃ t, put t x ∧ ∀ u y, put u y → t < u → ¬ Entity.same y x = true

/-- The items are what the puts have come to. -/
structure Chronicle (put : T → α → Prop) (items : List α) : Prop where
  distinct : items.Pairwise fun x y => ¬ Entity.same x y = true
  mem_iff : ∀ x, x ∈ items ↔ LastPut put x
  present : ∀ t x, put t x → Present items x
  first : ∀ x ∈ items, ∃ t, FirstPutAt put x t
  ordered : items.Pairwise fun x y => ∃ t u, FirstPutAt put x t ∧ FirstPutAt put y u ∧ t < u

theorem chronicle_nil : Chronicle (fun (_ : T) (_ : α) => False) [] where
  distinct := .nil
  mem_iff _ := ⟨nofun, fun ⟨_, h, _⟩ => h.elim⟩
  present _ _ h := h.elim
  first := nofun
  ordered := .nil

theorem Chronicle.congr (h : Chronicle put items) (hput : ∀ t x, put t x ↔ put' t x) :
    Chronicle put' items := by
  obtain rfl : put = put' := funext fun t => funext fun x => propext (hput t x)
  exact h

/-- There is one item for each entity. -/
theorem Chronicle.eq_of_same (hsame : Equivalence fun x y : α => Entity.same x y = true)
    (h : Chronicle put items) (hx : x ∈ items) (hy : y ∈ items) (hxy : Entity.same x y = true) :
    x = y := by
  by_contra hne
  have : Std.Symm fun a b : α => ¬ Entity.same a b = true :=
    ⟨fun _ _ hab hba => hab (hsame.symm hba)⟩
  exact h.distinct.forall hx hy hne hxy

/-- What was put in before, and the item at the time. -/
def andThen (put : T → α → Prop) (t : T) (x : α) : T → α → Prop :=
  fun u y => put u y ∨ u = t ∧ y = x

section Later

variable (hsame : Equivalence fun x y : α => Entity.same x y = true)
  (hlater : ∀ u y, put u y → u < t)

include hlater

omit [Entity α] in
theorem not_put_of_le {u : T} (hu : t ≤ u) : ¬ put u y := fun h =>
  absurd (hlater u y h) (not_lt.mpr hu)

theorem lastPut_andThen : LastPut (andThen put t x) z ↔
    z = x ∨ LastPut put z ∧ ¬ Entity.same x z = true := by
  constructor
  · rintro ⟨u, hu | ⟨rfl, rfl⟩, hlast⟩
    · refine Or.inr ⟨⟨u, hu, fun v y hv => hlast v y (Or.inl hv)⟩, ?_⟩
      exact hlast t x (Or.inr ⟨rfl, rfl⟩) (hlater u z hu)
    · exact Or.inl rfl
  · rintro (rfl | ⟨⟨u, hu, hlast⟩, hother⟩)
    · refine ⟨t, Or.inr ⟨rfl, rfl⟩, ?_⟩
      rintro v y (hv | ⟨rfl, rfl⟩) hlt
      · exact absurd hv (not_put_of_le hlater hlt.le)
      · exact absurd hlt (lt_irrefl _)
    · refine ⟨u, Or.inl hu, ?_⟩
      rintro v y (hv | ⟨rfl, rfl⟩) hlt
      · exact hlast v y hv hlt
      · exact hother

theorem FirstPutAt.andThen (h : FirstPutAt put z u) : FirstPutAt (andThen put t x) z u where
  done := by
    obtain ⟨y, hy, hsame⟩ := h.done
    exact ⟨y, Or.inl hy, hsame⟩
  first := by
    obtain ⟨w, hw, -⟩ := h.done
    rintro v y (hv | ⟨rfl, -⟩) hyz
    · exact h.first v y hv hyz
    · exact (hlater u w hw).le

include hsame

omit hlater in
theorem FirstPutAt.of_same (h : FirstPutAt put y u) (hyx : Entity.same y x = true) :
    FirstPutAt put x u where
  done := by
    obtain ⟨z, hz, hzy⟩ := h.done
    exact ⟨z, hz, hsame.trans hzy hyx⟩
  first v z hv hzx := h.first v z hv (hsame.trans hzx (hsame.symm hyx))

theorem firstPutAt_new (habsent : ∀ u y, put u y → ¬ Entity.same y x = true) :
    FirstPutAt (andThen put t x) x t where
  done := ⟨x, Or.inr ⟨rfl, rfl⟩, hsame.refl x⟩
  first := by
    rintro v y (hv | ⟨rfl, -⟩) hyx
    · exact absurd hyx (habsent v y hv)
    · exact le_refl _

namespace Chronicle

variable (h : Chronicle put items)

include h

omit hsame in
theorem first_andThen (hz : z ∈ items) : ∃ u, FirstPutAt (andThen put t x) z u ∧ u < t := by
  obtain ⟨u, hu⟩ := h.first z hz
  obtain ⟨y, hy, -⟩ := hu.done
  exact ⟨u, hu.andThen hlater, hlater u y hy⟩

omit hsame in
theorem ordered_andThen : items.Pairwise fun x' y =>
    ∃ u v, FirstPutAt (andThen put t x) x' u ∧ FirstPutAt (andThen put t x) y v ∧ u < v :=
  h.ordered.imp fun ⟨u, v, hu, hv, hlt⟩ => ⟨u, v, hu.andThen hlater, hv.andThen hlater, hlt⟩

/-- The new item takes over the place of the old one, and the time at which that was first put. -/
theorem replace {before after : List α} (hitems : items = before ++ y :: after)
    (hyx : Entity.same y x = true) : Chronicle (andThen put t x) (before ++ x :: after) := by
  have hdistinct := h.distinct
  have hordered := h.ordered_andThen (t := t) (x := x) hlater
  have hfirst : ∀ z ∈ items, ∃ u, FirstPutAt (andThen put t x) z u ∧ u < t := fun z hz =>
    h.first_andThen hlater hz
  subst hitems
  have hothers : ∀ z, z ∈ before ∨ z ∈ after → ¬ Entity.same x z = true := fun _ hz =>
    not_same_of_replaced hsame hdistinct hyx hz
  refine ⟨distinct_replace hsame hdistinct hyx, fun z => ?mem_iff, ?present, fun z hz => ?first,
    ?ordered⟩
  case mem_iff =>
    rw [lastPut_andThen hlater, ← h.mem_iff, List.mem_append, List.mem_append, List.mem_cons,
      List.mem_cons]
    constructor
    · rintro (hz | rfl | hz)
      · exact Or.inr ⟨Or.inl hz, hothers z (Or.inl hz)⟩
      · exact Or.inl rfl
      · exact Or.inr ⟨Or.inr (Or.inr hz), hothers z (Or.inr hz)⟩
    · rintro (rfl | ⟨hz | rfl | hz, hother⟩)
      · exact Or.inr (Or.inl rfl)
      · exact Or.inl hz
      · exact absurd (hsame.symm hyx) hother
      · exact Or.inr (Or.inr hz)
  case present =>
    rintro u z (hu | ⟨rfl, rfl⟩)
    · obtain ⟨w, hw, hwz⟩ := h.present u z hu
      rcases List.mem_append.mp hw with hw | hw
      · exact ⟨w, List.mem_append_left _ hw, hwz⟩
      · rcases List.mem_cons.mp hw with rfl | hw
        · exact ⟨x, by simp, hsame.trans (hsame.symm hyx) hwz⟩
        · exact ⟨w, by simp [hw], hwz⟩
    · exact ⟨z, by simp, hsame.refl z⟩
  case first =>
    rw [List.mem_append, List.mem_cons] at hz
    rcases hz with hz | rfl | hz
    · obtain ⟨u, hu, -⟩ := hfirst z (by simp [hz])
      exact ⟨u, hu⟩
    · obtain ⟨u, hu, -⟩ := hfirst y (by simp)
      exact ⟨u, hu.of_same hsame hyx⟩
    · obtain ⟨u, hu, -⟩ := hfirst z (by simp [hz])
      exact ⟨u, hu⟩
  case ordered =>
    refine pairwise_replace hordered ?_ ?_
    · rintro z ⟨u, v, hu, hv, hlt⟩
      exact ⟨u, v, hu, hv.of_same hsame hyx, hlt⟩
    · rintro z ⟨u, v, hu, hv, hlt⟩
      exact ⟨u, v, hu.of_same hsame hyx, hv, hlt⟩

theorem add (hnew : ∀ z ∈ items, ¬ Entity.same z x = true) :
    Chronicle (andThen put t x) (items ++ [x]) := by
  have habsent : ∀ u y, put u y → ¬ Entity.same y x = true := fun u y hu hyx => by
    obtain ⟨z, hz, hzy⟩ := h.present u y hu
    exact hnew z hz (hsame.trans hzy hyx)
  have hfirst := firstPutAt_new (t := t) hsame hlater habsent
  refine ⟨?distinct, fun z => ?mem_iff, ?present, fun z hz => ?first, ?ordered⟩
  case distinct =>
    rw [List.pairwise_append]
    refine ⟨h.distinct, List.pairwise_singleton .., fun z hz w hw => ?_⟩
    rw [List.mem_singleton.mp hw]
    exact hnew z hz
  case mem_iff =>
    rw [lastPut_andThen hlater, ← h.mem_iff, List.mem_append, List.mem_singleton]
    constructor
    · rintro (hz | rfl)
      · exact Or.inr ⟨hz, fun hxz => hnew z hz (hsame.symm hxz)⟩
      · exact Or.inl rfl
    · rintro (rfl | ⟨hz, -⟩)
      · exact Or.inr rfl
      · exact Or.inl hz
  case present =>
    rintro u z (hu | ⟨rfl, rfl⟩)
    · obtain ⟨w, hw, hwz⟩ := h.present u z hu
      exact ⟨w, List.mem_append_left _ hw, hwz⟩
    · exact ⟨z, by simp, hsame.refl z⟩
  case first =>
    rcases List.mem_append.mp hz with hz | hz
    · obtain ⟨u, hu, -⟩ := h.first_andThen hlater hz
      exact ⟨u, hu⟩
    · rw [List.mem_singleton.mp hz]
      exact ⟨t, hfirst⟩
  case ordered =>
    rw [List.pairwise_append]
    refine ⟨h.ordered_andThen hlater, List.pairwise_singleton .., fun z hz w hw => ?_⟩
    rw [List.mem_singleton.mp hw]
    obtain ⟨u, hu, hlt⟩ := h.first_andThen hlater hz
    exact ⟨u, t, hu, hfirst, hlt⟩

theorem step : Chronicle (andThen put t x) (place items x) := by
  rcases place_cases items x with ⟨before, y, after, hitems, hyx, hplace⟩ | ⟨hnew, hplace⟩
  · rw [hplace]
    exact h.replace hsame hlater hitems hyx
  · rw [hplace]
    exact h.add hsame hlater hnew

end Chronicle

end Later

/-- One item after the other is put in, each later than those before. -/
theorem Chronicle.run (hsame : Equivalence fun x y : α => Entity.same x y = true)
    (h : Chronicle put items) {log : List (T × α)} (hlog : log.Pairwise fun u v => u.1 < v.1)
    (hlater : ∀ u y, put u y → ∀ entry ∈ log, u < entry.1) :
    Chronicle (fun t x => put t x ∨ (t, x) ∈ log) ((log.map Prod.snd).foldl place items) := by
  induction log generalizing put items with
  | nil => exact h.congr fun t x => by simp
  | cons entry log ih =>
    obtain ⟨t, x⟩ := entry
    obtain ⟨hfirst, hrest⟩ := List.pairwise_cons.mp hlog
    have hstep : Chronicle (andThen put t x) (place items x) :=
      h.step hsame fun u y hu => hlater u y hu _ List.mem_cons_self
    refine (ih hstep hrest ?_).congr fun u y => ?_
    · rintro u y (hu | ⟨rfl, -⟩) entry hentry
      · exact hlater u y hu entry (List.mem_cons_of_mem _ hentry)
      · exact hfirst entry hentry
    · rw [List.mem_cons, Prod.mk.injEq]
      exact or_assoc

end LiveExpr.Queue
