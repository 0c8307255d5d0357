import LiveExpr.Proofs.Rounding

/-!
The order of floating-point numbers, and which way a sum goes. Adding something that is not
negative to a finite number does not make it smaller, and adding something that is not positive
does not make it larger. This holds whatever is lost in rounding and also if the sum is so large
that it becomes infinite.
-/
namespace LiveExpr.Number

open Float.Model Float.Model.UnpackedFloat

/-- Where an unpacked number stands among the others. The two zeros stand at the same place. -/
def place : UnpackedFloat → ℤ ×ₗ ℤ ×ₗ ℤ
  | .infinity .negative => toLex (-2, toLex (0, 0))
  | .finite .negative m e _ => toLex (-1, toLex (-e, -m))
  | .zero _ => toLex (0, toLex (0, 0))
  | .finite .positive m e _ => toLex (1, toLex (e, m))
  | .infinity .positive => toLex (2, toLex (0, 0))
  | .notANumber => toLex (3, toLex (0, 0))

theorem compare_toLex {α β : Type*} [LinearOrder α] [LinearOrder β] (a c : α) (b d : β) :
    compare (toLex (a, b)) (toLex (c, d)) = (compare a c).then (compare b d) := by
  rw [Prod.Lex.compare_def]
  rfl

theorem compare_neg (a b : ℤ) : compare (-a) (-b) = (compare a b).swap := by
  rcases lt_trichotomy a b with h | rfl | h
  · rw [compare_lt_iff_lt.mpr h, compare_gt_iff_gt.mpr (neg_lt_neg h)]
    rfl
  · simp
  · rw [compare_gt_iff_gt.mpr h, compare_lt_iff_lt.mpr (neg_lt_neg h)]
    rfl

theorem compare_cast (a b : ℕ) : compare (a : ℤ) (b : ℤ) = compare a b := by
  rcases lt_trichotomy a b with h | rfl | h
  · rw [compare_lt_iff_lt.mpr h, compare_lt_iff_lt.mpr (Int.ofNat_lt.mpr h)]
  · simp
  · rw [compare_gt_iff_gt.mpr h, compare_gt_iff_gt.mpr (Int.ofNat_lt.mpr h)]

theorem compare_place {u v : UnpackedFloat} (hu : u.isNaN = false) (hv : v.isNaN = false) :
    u.compare v = some (compare (place u) (place v)) := by
  cases u with
  | notANumber => cases hu
  | infinity s =>
    cases v with
    | notANumber => cases hv
    | infinity t => cases s <;> cases t <;> rfl
    | zero t => cases s <;> cases t <;> rfl
    | finite t m e h => cases s <;> cases t <;> rfl
  | zero s =>
    cases v with
    | notANumber => cases hv
    | infinity t => cases s <;> cases t <;> rfl
    | zero t => cases s <;> cases t <;> rfl
    | finite t m e h => cases s <;> cases t <;> rfl
  | finite s m e h =>
    cases v with
    | notANumber => cases hv
    | infinity t => cases s <;> cases t <;> rfl
    | zero t => cases s <;> cases t <;> rfl
    | finite t n f h' =>
      cases s with
      | negative =>
        cases t with
        | negative =>
          simp only [place, compare_toLex, compare_neg, compare_cast]
          rw [← Ordering.swap_then]
          rfl
        | positive => rfl
      | positive =>
        cases t with
        | negative => rfl
        | positive =>
          simp only [place, compare_toLex, compare_cast]
          rfl

theorem lt_iff_place {u v : UnpackedFloat} (hu : u.isNaN = false) (hv : v.isNaN = false) :
    u.lt v = true ↔ place u < place v := by
  unfold UnpackedFloat.lt
  rw [compare_place hu hv, beq_iff_eq, Option.some_inj, compare_lt_iff_lt]

theorem le_iff_place {u v : UnpackedFloat} (hu : u.isNaN = false) (hv : v.isNaN = false) :
    u.le v = true ↔ place u ≤ place v := by
  unfold UnpackedFloat.le
  rw [compare_place hu hv]
  show (compare (place u) (place v)).isLE = true ↔ _
  rw [Ordering.isLE_iff_ne_gt]
  exact compare_le_iff_le

/-- An unpacked number as the format can hold it. -/
def Held (u : UnpackedFloat) : Prop :=
  ∀ s m e h, u = .finite s m e h → Canonical m e ∧ e ≤ 971

/-- What comes back from the bits that a number is packed into. -/
def packed (u : UnpackedFloat) : UnpackedFloat :=
  UnpackedFloat.unpack .binary64 (UnpackedFloat.pack .binary64 u)

theorem packed_eq {u : UnpackedFloat} (hu : Held u) : packed u = u := by
  cases u with
  | notANumber => rfl
  | infinity s => cases s <;> rfl
  | zero s => cases s <;> rfl
  | finite s m e h =>
    obtain ⟨hc, he⟩ := hu s m e h rfl
    exact unpack_pack_of_fits hc he s h

/-- The second of two numbers, if one comes to it from the first in the direction of the sign. -/
def Reaches (s : Sign) (u v : UnpackedFloat) : Prop :=
  v.isNaN = false ∧
    match s with
    | .positive => place u ≤ place v
    | .negative => place v ≤ place u

namespace Reaches

variable {s t : Sign} {m n : ℕ} {e f : ℤ} {hm : 0 < m} {hn : 0 < n}

theorem of_eq {u v : UnpackedFloat} (hv : v.isNaN = false) (h : place u = place v) :
    Reaches s u v := by
  cases s with
  | negative => exact ⟨hv, h.ge⟩
  | positive => exact ⟨hv, h.le⟩

theorem infinity {u : UnpackedFloat} (hu : u.isNaN = false) : Reaches s u (.infinity s) := by
  cases u with
  | notANumber => cases hu
  | infinity t =>
    cases s <;> cases t <;>
      simp [Reaches, UnpackedFloat.isNaN, place, Prod.Lex.toLex_le_toLex]
  | zero t => cases s <;> simp [Reaches, UnpackedFloat.isNaN, place, Prod.Lex.toLex_le_toLex]
  | finite t m e h =>
    cases s <;> cases t <;>
      simp [Reaches, UnpackedFloat.isNaN, place, Prod.Lex.toLex_le_toLex]

theorem finite_of_zero : Reaches s (.zero t) (.finite s n f hn) := by
  cases s <;> simp [Reaches, UnpackedFloat.isNaN, place, Prod.Lex.toLex_le_toLex]

theorem zero_of_neg : Reaches s (.finite (-s) m e hm) (.zero t) := by
  cases s <;> simp [Reaches, UnpackedFloat.isNaN, place, Prod.Lex.toLex_le_toLex]

theorem finite_of_neg : Reaches s (.finite (-s) m e hm) (.finite s n f hn) := by
  cases s <;> simp [Reaches, UnpackedFloat.isNaN, place, Prod.Lex.toLex_le_toLex]

theorem of_within (h : Within m e n f) : Reaches s (.finite s m e hm) (.finite s n f hn) := by
  unfold Within at h
  cases s <;>
    refine ⟨rfl, Prod.Lex.toLex_le_toLex.mpr (Or.inr ⟨rfl, Prod.Lex.toLex_le_toLex.mpr ?_⟩)⟩ <;>
    dsimp only <;> omega

/-- On the other side of zero it is the smaller one of two numbers that is farther on. -/
theorem neg_of_within (h : Within n f m e) :
    Reaches s (.finite (-s) m e hm) (.finite (-s) n f hn) := by
  unfold Within at h
  cases s <;>
    refine ⟨rfl, Prod.Lex.toLex_le_toLex.mpr (Or.inr ⟨rfl, Prod.Lex.toLex_le_toLex.mpr ?_⟩)⟩ <;>
    dsimp only <;> omega

theorem sign_of_infinity (h : Reaches s (.zero .positive) (.infinity t)) : s = t := by
  cases s <;> cases t <;> simp_all [Reaches, place, Prod.Lex.toLex_le_toLex]

theorem sign_of_finite (h : Reaches s (.zero .positive) (.finite t n f hn)) : s = t := by
  cases s <;> cases t <;> simp_all [Reaches, place, Prod.Lex.toLex_le_toLex]

end Reaches

theorem normalize_apply (s : Sign) {n : ℕ} (hn : 0 < n) (e : ℤ) (z : Sign) :
    UnpackedFloat.normalize .binary64 (s.apply n) e z = UnpackedFloat.round .binary64 s n e := by
  cases s with
  | negative =>
    have h : compare (-(n : ℤ)) 0 = .lt := compare_lt_iff_lt.mpr (by omega)
    show UnpackedFloat.normalize _ (-(n : ℤ)) _ _ = _
    unfold UnpackedFloat.normalize
    rw [h]
    simp
  | positive =>
    have h : compare (n : ℤ) 0 = .gt := compare_gt_iff_gt.mpr (by omega)
    show UnpackedFloat.normalize _ (n : ℤ) _ _ = _
    unfold UnpackedFloat.normalize
    rw [h]
    simp

theorem normalize_zero (e : ℤ) (z : Sign) : UnpackedFloat.normalize .binary64 0 e z = .zero z := by
  unfold UnpackedFloat.normalize
  simp

theorem packed_round (s : Sign) {n : ℕ} (hn : 0 < n) {e : ℤ} (he : -1074 ≤ e) :
    ∃ M E, Rounds n e M E ∧
      ((E ≤ 971 ∧ ∃ h : 0 < M, packed (UnpackedFloat.round .binary64 s n e) = .finite s M E h) ∨
        971 < E ∧ packed (UnpackedFloat.round .binary64 s n e) = .infinity s) := by
  obtain ⟨M, E, hM, hround, hrounds⟩ := round_eq hn he s
  refine ⟨M, E, hrounds, ?_⟩
  rw [hround]
  rcases le_or_gt E 971 with hE | hE
  · exact Or.inl ⟨hE, hM, unpack_pack_of_fits hrounds.canonical hE s hM⟩
  · exact Or.inr ⟨hE, unpack_pack_of_large hE s hM⟩

theorem add_finite (s t : Sign) {m n : ℕ} {e f : ℤ} (hm : 0 < m) (hn : 0 < n) :
    UnpackedFloat.add .binary64 (.finite s m e hm) (.finite t n f hn) =
      normalize .binary64 (s.apply (m * 2 ^ (e - min e f).toNat : ℕ) +
        t.apply (n * 2 ^ (f - min e f).toNat : ℕ)) (min e f) .positive := by
  rw [← Nat.shiftLeft_eq, ← Nat.shiftLeft_eq]
  rfl

theorem apply_zero (s : Sign) : s.apply (0 : ℕ) = 0 := by
  cases s <;> rfl

theorem apply_add (s : Sign) (a b : ℕ) : s.apply a + s.apply b = s.apply (a + b : ℕ) := by
  cases s with
  | negative =>
    show -(a : ℤ) + -(b : ℤ) = -((a + b : ℕ) : ℤ)
    omega
  | positive => rfl

theorem neg_apply_add_of_le {s : Sign} {a b : ℕ} (h : a ≤ b) :
    (-s).apply a + s.apply b = s.apply (b - a : ℕ) := by
  cases s with
  | negative =>
    show (a : ℤ) + -(b : ℤ) = -((b - a : ℕ) : ℤ)
    omega
  | positive =>
    show -(a : ℤ) + (b : ℤ) = ((b - a : ℕ) : ℤ)
    omega

theorem neg_apply_add_of_ge {s : Sign} {a b : ℕ} (h : b ≤ a) :
    (-s).apply a + s.apply b = (-s).apply (a - b : ℕ) := by
  cases s with
  | negative =>
    show (a : ℤ) + -(b : ℤ) = ((a - b : ℕ) : ℤ)
    omega
  | positive =>
    show -(a : ℤ) + (b : ℤ) = -((a - b : ℕ) : ℤ)
    omega

section Sums

variable {s : Sign} {m n : ℕ} {e f : ℤ} {hm : 0 < m} {hn : 0 < n}

theorem reaches_add_of_same (hc : Canonical m e) (hd : Canonical n f) :
    Reaches s (.finite s m e hm)
      (packed (UnpackedFloat.add .binary64 (.finite s m e hm) (.finite s n f hn))) := by
  have hleast : -1074 ≤ min e f := le_min hc.least hd.least
  have hpos : 0 < m * 2 ^ (e - min e f).toNat + n * 2 ^ (f - min e f).toNat :=
    Nat.add_pos_left (Nat.mul_pos hm (Nat.two_pow_pos _)) _
  rw [add_finite, apply_add, normalize_apply s hpos]
  obtain ⟨M, E, hrounds, ⟨-, h, heq⟩ | ⟨-, heq⟩⟩ := packed_round s hpos hleast
  · rw [heq]
    exact .of_within (hrounds.above m e hc (min_le_left e f) (Nat.le_add_right _ _))
  · rw [heq]
    exact .infinity rfl

/-- The sum of numbers on the two sides of zero. If it is on the side of the first one, it is not
above that one in size and so cannot be infinite. -/
theorem reaches_add_of_neg (hc : Canonical m e) (he : e ≤ 971) (hd : Canonical n f) :
    Reaches s (.finite (-s) m e hm)
      (packed (UnpackedFloat.add .binary64 (.finite (-s) m e hm) (.finite s n f hn))) := by
  have hleast : -1074 ≤ min e f := le_min hc.least hd.least
  rw [add_finite]
  -- Both are brought to the lesser exponent, and then the sizes decide on the side.
  rcases lt_trichotomy (m * 2 ^ (e - min e f).toNat) (n * 2 ^ (f - min e f).toNat) with
    hlt | heq | hgt
  · have hpos := Nat.sub_pos_of_lt hlt
    rw [neg_apply_add_of_le hlt.le, normalize_apply s hpos]
    obtain ⟨M, E, -, ⟨-, h, heq⟩ | ⟨-, heq⟩⟩ := packed_round s hpos hleast
    · rw [heq]
      exact .finite_of_neg
    · rw [heq]
      exact .infinity rfl
  · rw [neg_apply_add_of_le heq.le, heq, Nat.sub_self, apply_zero, normalize_zero]
    exact .zero_of_neg
  · have hpos := Nat.sub_pos_of_lt hgt
    rw [neg_apply_add_of_ge hgt.le, normalize_apply (-s) hpos]
    obtain ⟨M, E, hrounds, hcases⟩ := packed_round (-s) hpos hleast
    have hwithin : Within M E m e := hrounds.below m e hc (min_le_left e f) (Nat.sub_le _ _)
    have hE : E ≤ 971 := by
      unfold Within at hwithin
      omega
    obtain ⟨-, h, heq⟩ := hcases.resolve_right fun hlarge => hlarge.1.not_ge hE
    rw [heq]
    exact .neg_of_within hwithin

end Sums

theorem eq_or_eq_neg (s t : Sign) : t = s ∨ t = -s := by
  cases s <;> cases t <;> simp [Neg.neg]

theorem zero_or_finite {u : UnpackedFloat} (hu : u.isFinite = true) :
    (∃ s, u = .zero s) ∨ ∃ s m e h, u = .finite s m e h := by
  cases u with
  | notANumber => cases hu
  | infinity s => cases hu
  | zero s => exact Or.inl ⟨s, rfl⟩
  | finite s m e h => exact Or.inr ⟨s, m, e, h, rfl⟩

/-- A sum lies from its first term, which is finite, in the direction in which the second term lies
from zero. -/
theorem reaches_add {s : Sign} {u v : UnpackedFloat} (hu : u.isFinite = true) (hheld : Held u)
    (hheld' : Held v) (hs : Reaches s (.zero .positive) v) :
    Reaches s u (packed (UnpackedFloat.add .binary64 u v)) := by
  obtain ⟨r, rfl⟩ | ⟨r, m, e, hm, rfl⟩ := zero_or_finite hu
  · cases v with
    | notANumber => cases hs.1
    | infinity t =>
      obtain rfl := hs.sign_of_infinity
      have hsum : UnpackedFloat.add .binary64 (.zero r) (.infinity s) = .infinity s := rfl
      rw [hsum, packed_eq hheld']
      exact .infinity rfl
    | zero t => cases r <;> cases t <;> exact .of_eq rfl rfl
    | finite t n f hn =>
      obtain rfl := hs.sign_of_finite
      have hsum : UnpackedFloat.add .binary64 (.zero r) (.finite s n f hn) = .finite s n f hn :=
        rfl
      rw [hsum, packed_eq hheld']
      exact .finite_of_zero
  · obtain ⟨hc, he⟩ := hheld r m e hm rfl
    cases v with
    | notANumber => cases hs.1
    | infinity t =>
      obtain rfl := hs.sign_of_infinity
      have hsum : UnpackedFloat.add .binary64 (.finite r m e hm) (.infinity s) = .infinity s := rfl
      rw [hsum, packed_eq hheld']
      exact .infinity rfl
    | zero t =>
      have hsum : UnpackedFloat.add .binary64 (.finite r m e hm) (.zero t) = .finite r m e hm := rfl
      rw [hsum, packed_eq hheld]
      exact .of_eq rfl rfl
    | finite t n f hn =>
      obtain rfl := hs.sign_of_finite
      obtain ⟨hd, -⟩ := hheld' s n f hn rfl
      rcases eq_or_eq_neg s r with rfl | rfl
      · exact reaches_add_of_same hc hd
      · exact reaches_add_of_neg hc he hd

/-- What the bits of a number stand for. -/
def value (x : Float) : UnpackedFloat := x.toModel.unpack

theorem held_value (x : Float) : Held (value x) := fun _ _ _ _ h => canonical_of_unpack h

theorem value_add (x y : Float) :
    value (x + y) = packed (UnpackedFloat.add .binary64 (value x) (value y)) := rfl

theorem value_sub (x y : Float) :
    value (x - y) = packed (UnpackedFloat.sub .binary64 (value x) (value y)) := rfl

theorem lt_iff {x y : Float} (hx : x.isNaN = false) (hy : y.isNaN = false) :
    x < y ↔ place (value x) < place (value y) := by
  refine Iff.trans ?_ (lt_iff_place hx hy)
  show decide (x.toModel.lt y.toModel = true) = true ↔ _
  rw [decide_eq_true_eq]
  rfl

theorem le_iff {x y : Float} (hx : x.isNaN = false) (hy : y.isNaN = false) :
    x ≤ y ↔ place (value x) ≤ place (value y) := by
  refine Iff.trans ?_ (le_iff_place hx hy)
  show decide (x.toModel.le y.toModel = true) = true ↔ _
  rw [decide_eq_true_eq]
  rfl

theorem isFinite_eq (x : Float) : x.isFinite = (value x).isFinite := rfl

theorem isNaN_eq (x : Float) : x.isNaN = (value x).isNaN := rfl

theorem isNaN_of_isFinite {x : Float} (h : x.isFinite = true) : x.isNaN = false := by
  rw [isNaN_eq]
  obtain ⟨s, hx⟩ | ⟨s, m, e, hm, hx⟩ := zero_or_finite h
  all_goals
    rw [value, hx]
    rfl

theorem value_of_isNaN {x : Float} (h : x.isNaN = true) : value x = .notANumber := by
  rw [isNaN_eq] at h
  cases hx : value x with
  | notANumber => rfl
  | _ => rw [hx] at h; cases h

theorem not_lt_of_isNaN {x : Float} (h : x.isNaN = true) (y : Float) : ¬ y < x := by
  have hnone : (value y).compare (value x) = none := by
    rw [value_of_isNaN h]
    cases value y <;> rfl
  show ¬ decide (((value y).compare (value x) == some .lt) = true) = true
  rw [hnone]
  decide

theorem isNaN_add {y : Float} (h : y.isNaN = true) (x : Float) : (x + y).isNaN = true := by
  have hsum : UnpackedFloat.add .binary64 (value x) .notANumber = .notANumber := by
    cases value x <;> rfl
  rw [isNaN_eq, value_add, value_of_isNaN h, hsum]
  rfl

theorem exists_apply (n : ℤ) : ∃ (s : Sign) (k : ℕ), n = s.apply k := by
  rcases Int.natAbs_eq n with h | h
  · exact ⟨.positive, n.natAbs, h⟩
  · exact ⟨.negative, n.natAbs, h⟩

theorem isNaN_packed_normalize (n : ℤ) {e : ℤ} (he : -1074 ≤ e) :
    (packed (UnpackedFloat.normalize .binary64 n e .positive)).isNaN = false := by
  obtain ⟨s, k, rfl⟩ := exists_apply n
  rcases Nat.eq_zero_or_pos k with rfl | hk
  · rw [apply_zero, normalize_zero]
    rfl
  · rw [normalize_apply s hk]
    obtain ⟨M, E, -, ⟨-, h, heq⟩ | ⟨-, heq⟩⟩ := packed_round s hk he
    · rw [heq]
      rfl
    · rw [heq]
      rfl

/-- The difference of two finite numbers is a number, though it may be infinite. -/
theorem isNaN_sub {x y : Float} (hx : x.isFinite = true) (hy : y.isFinite = true) :
    (x - y).isNaN = false := by
  have hheld := held_value x
  have hheld' := held_value y
  rw [isFinite_eq] at hx hy
  rw [isNaN_eq, value_sub]
  rcases zero_or_finite hx with ⟨s, hu⟩ | ⟨s, m, e, hm, hu⟩
  · rw [hu]
    rcases zero_or_finite hy with ⟨t, hv⟩ | ⟨t, n, f, hn, hv⟩
    · rw [hv]
      cases s <;> cases t <;> rfl
    · rw [hv] at hheld' ⊢
      obtain ⟨hd, hf⟩ := hheld' t n f hn rfl
      have hdifference : packed (UnpackedFloat.sub .binary64 (.zero s) (.finite t n f hn)) =
          .finite (-t) n f hn := unpack_pack_of_fits hd hf (-t) hn
      rw [hdifference]
      rfl
  · rw [hu] at hheld ⊢
    rcases zero_or_finite hy with ⟨t, hv⟩ | ⟨t, n, f, hn, hv⟩
    · rw [hv]
      have hdifference : packed (UnpackedFloat.sub .binary64 (.finite s m e hm) (.zero t)) =
          .finite s m e hm := packed_eq hheld
      rw [hdifference]
      rfl
    · rw [hv] at hheld' ⊢
      exact isNaN_packed_normalize _
        (le_min (hheld s m e hm rfl).1.least (hheld' t n f hn rfl).1.least)

theorem value_zero : value 0.0 = .zero .positive := rfl

theorem isNaN_zero : (0.0 : Float).isNaN = false := rfl

variable {x y z : Float}

/-- Numbers that are compared are numbers. -/
theorem isNaN_of_le (h : x ≤ y) : x.isNaN = false ∧ y.isNaN = false := by
  have hcompare : ((value x).compare (value y)).any (·.isLE) = true := by
    have h' : decide (((value x).compare (value y)).any (·.isLE) = true) = true := h
    exact of_decide_eq_true h'
  rw [isNaN_eq, isNaN_eq]
  cases hx : value x with
  | notANumber => rw [hx] at hcompare; cases hcompare
  | _ =>
    refine ⟨rfl, ?_⟩
    cases hy : value y with
    | notANumber => rw [hx, hy] at hcompare; cases hcompare
    | _ => rfl

protected theorem le_trans (h : x ≤ y) (h' : y ≤ z) : x ≤ z := by
  obtain ⟨hx, hy⟩ := isNaN_of_le h
  obtain ⟨-, hz⟩ := isNaN_of_le h'
  rw [le_iff hx hy] at h
  rw [le_iff hy hz] at h'
  rw [le_iff hx hz]
  exact le_trans h h'

theorem le_of_not_lt (hx : x.isNaN = false) (hy : y.isNaN = false) (h : ¬ x < y) : y ≤ x := by
  rw [lt_iff hx hy] at h
  rw [le_iff hy hx]
  exact le_of_not_gt h

protected theorem not_lt_of_le (h : x ≤ y) : ¬ y < x := by
  obtain ⟨hx, hy⟩ := isNaN_of_le h
  rw [le_iff hx hy] at h
  rw [lt_iff hy hx]
  exact not_lt_of_ge h

protected theorem le_of_lt (h : x < y) : x ≤ y := by
  have hcompare : (value x).compare (value y) = some .lt := by
    have h' : decide (((value x).compare (value y) == some .lt) = true) = true := h
    exact beq_iff_eq.mp (of_decide_eq_true h')
  show decide (((value x).compare (value y)).any (·.isLE) = true) = true
  rw [hcompare]
  rfl

theorem reaches_value_add {s : Sign} (hx : x.isFinite = true)
    (hs : Reaches s (value 0.0) (value y)) : Reaches s (value x) (value (x + y)) := by
  rw [isFinite_eq] at hx
  rw [value_zero] at hs
  rw [value_add]
  exact reaches_add hx (held_value x) (held_value y) hs

/-- Adding what is not negative does not make a number smaller. -/
theorem le_add (hx : x.isFinite = true) (hy : 0.0 ≤ y) : x ≤ x + y := by
  obtain ⟨-, hnumber⟩ := isNaN_of_le hy
  have hs : Reaches .positive (value 0.0) (value y) :=
    ⟨hnumber, (le_iff isNaN_zero hnumber).mp hy⟩
  obtain ⟨hsum, hle⟩ := reaches_value_add hx hs
  exact (le_iff (isNaN_of_isFinite hx) hsum).mpr hle

theorem add_le (hx : x.isFinite = true) (hy : y ≤ 0.0) : x + y ≤ x := by
  obtain ⟨hnumber, -⟩ := isNaN_of_le hy
  have hs : Reaches .negative (value 0.0) (value y) :=
    ⟨hnumber, (le_iff hnumber isNaN_zero).mp hy⟩
  obtain ⟨hsum, hle⟩ := reaches_value_add hx hs
  exact (le_iff hsum (isNaN_of_isFinite hx)).mpr hle

theorem isNaN_add_of_isFinite (hx : x.isFinite = true) (hy : y.isNaN = false) :
    (x + y).isNaN = false := by
  by_cases hneg : y < 0.0
  · exact (isNaN_of_le (add_le hx (Number.le_of_lt hneg))).1
  · exact (isNaN_of_le (le_add hx (le_of_not_lt hy isNaN_zero hneg))).2

end LiveExpr.Number
