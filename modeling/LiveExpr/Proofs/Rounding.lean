import Mathlib

/-!
Rounding in the binary format with 53 bits. A sum is made exactly, as a mantissa and an exponent,
and is then rounded to a number that the format has. What counts here is that no number of the
format is passed over: one that is not above the exact sum is not above the rounded one either,
and likewise below. A rounded number comes back from the bits that it is packed into, unless its
exponent is too large, in which case the bits are those of an infinity.
-/
namespace LiveExpr.Number

open Float.Model Float.Model.UnpackedFloat

/-- A mantissa and an exponent that a number other than zero has in the format. Whether the exponent
is too large for it does not count. -/
structure Canonical (m : ℕ) (e : ℤ) : Prop where
  below : m < 2 ^ 53
  least : -1074 ≤ e
  full : 2 ^ 52 ≤ m ∨ e = -1074

/-- Of two numbers that the format has, the first one is not the larger one. -/
def Within (m : ℕ) (e : ℤ) (n : ℕ) (f : ℤ) : Prop := e < f ∨ e = f ∧ m ≤ n

/-- The exponent at which a number is rounded. -/
def grid (m : ℕ) (e : ℤ) : ℤ := max (m.log2 + e - 52) (-1074)

theorem targetExponent_eq (m : ℕ) (e : ℤ) :
    Format.binary64.targetExponent (totalExponent m e) = grid m e := by
  show max ((m.log2 : ℤ) + 1 + e - (53 : ℕ)) (3 - 2 ^ 10 - (53 : ℕ)) =
    max ((m.log2 : ℤ) + e - 52) (-1074)
  omega

theorem log2_mul_two_pow {m : ℕ} (hm : 0 < m) (k : ℕ) : (m * 2 ^ k).log2 = m.log2 + k := by
  refine (Nat.log2_eq_iff (by positivity)).mpr ⟨?_, ?_⟩
  · rw [pow_add]
    exact Nat.mul_le_mul_right _ (Nat.log2_self_le hm.ne')
  · rw [add_right_comm, pow_add]
    exact Nat.mul_lt_mul_of_pos_right Nat.lt_log2_self (Nat.two_pow_pos k)

/-- The quotient by the grid, as it comes before rounding. -/
theorem quotient_bounds {m : ℕ} {e : ℤ} (hm : 0 < m) (hleast : -1074 ≤ e) (he : e ≤ grid m e) :
    m / 2 ^ (grid m e - e).toNat < 2 ^ 53 ∧ 0 < m / 2 ^ (grid m e - e).toNat ∧
      (2 ^ 52 ≤ m / 2 ^ (grid m e - e).toNat ∨ grid m e = -1074) := by
  have hlow : 2 ^ m.log2 ≤ m := Nat.log2_self_le hm.ne'
  have hhigh : m < 2 ^ (m.log2 + 1) := Nat.lt_log2_self
  unfold grid at he ⊢
  rcases le_total ((m.log2 : ℤ) + e - 52) (-1074) with h | h
  · -- No bit is dropped.
    rw [max_eq_right h] at he ⊢
    obtain rfl : e = -1074 := le_antisymm he hleast
    have hlog : m.log2 + 1 ≤ 53 := by omega
    simp only [sub_self, Int.toNat_zero, pow_zero, Nat.div_one, or_true, and_true]
    exact ⟨hhigh.trans_le (Nat.pow_le_pow_right two_pos hlog), hm⟩
  · rw [max_eq_left h] at he ⊢
    obtain ⟨k, hk⟩ : ∃ k, m.log2 = 52 + k := ⟨m.log2 - 52, by omega⟩
    have hshift : (((m.log2 : ℤ) + e - 52) - e).toNat = k := by omega
    rw [hshift]
    rw [hk] at hlow hhigh
    have hquotient : 2 ^ 52 ≤ m / 2 ^ k := by
      rw [Nat.le_div_iff_mul_le (Nat.two_pow_pos k), ← pow_add]
      exact hlow
    refine ⟨?_, (Nat.two_pow_pos 52).trans_le hquotient, Or.inl hquotient⟩
    rw [Nat.div_lt_iff_lt_mul (Nat.two_pow_pos k), ← pow_add]
    rwa [add_right_comm] at hhigh

/-- A mantissa whose bits are dropped one by one becomes the quotient. If nothing is lost, there are
no residual bits. -/
theorem shiftRight_exact (m k : ℕ) :
    ((ExtendedMantissa.mk m false false) >>> k).mantissa = m / 2 ^ k ∧
      (2 ^ k ∣ m → (ExtendedMantissa.mk m false false) >>> k = ⟨m / 2 ^ k, false, false⟩) := by
  induction k with
  | zero => exact ⟨(Nat.div_one m).symm, fun _ => by rw [pow_zero, Nat.div_one]; rfl⟩
  | succ k ih =>
    obtain ⟨hquotient, hexact⟩ := ih
    have hstep : (ExtendedMantissa.mk m false false) >>> (k + 1) =
        ((ExtendedMantissa.mk m false false) >>> k).shiftRightOne := rfl
    have hhalf : m / 2 ^ k / 2 = m / 2 ^ (k + 1) := by
      rw [Nat.div_div_eq_div_mul, pow_succ]
    rw [hstep]
    refine ⟨?_, fun hdvd => ?_⟩
    · rw [← hhalf, ← hquotient]
      rfl
    · have heven : m / 2 ^ k % 2 = 0 := by
        obtain ⟨c, rfl⟩ := hdvd
        rw [pow_succ, mul_assoc, Nat.mul_div_cancel_left _ (Nat.two_pow_pos k)]
        exact Nat.mul_mod_right 2 c
      rw [hexact ((pow_dvd_pow 2 k.le_succ).trans hdvd), ← hhalf]
      simp [ExtendedMantissa.shiftRightOne, heven]

theorem roundedMantissa_bounds (em : ExtendedMantissa) :
    em.mantissa ≤ em.roundedMantissa ∧ em.roundedMantissa ≤ em.mantissa + 1 := by
  obtain ⟨m, r, s⟩ := em
  cases r <;> cases s <;>
    simp only [ExtendedMantissa.roundedMantissa, ExtendedMantissa.accuracy,
      Accuracy.roundToNearestEven] <;> omega

/-- The mantissa that `m` is rounded to when bits below the grid are dropped. -/
def rounded (m : ℕ) (e : ℤ) : ℕ :=
  ((ExtendedMantissa.mk m false false) >>> (grid m e - e).toNat).roundedMantissa

theorem rounded_bounds (m : ℕ) (e : ℤ) :
    m / 2 ^ (grid m e - e).toNat ≤ rounded m e ∧
      rounded m e ≤ m / 2 ^ (grid m e - e).toNat + 1 := by
  obtain ⟨hlow, hhigh⟩ :=
    roundedMantissa_bounds ((ExtendedMantissa.mk m false false) >>> (grid m e - e).toNat)
  rw [(shiftRight_exact m _).1] at hlow hhigh
  exact ⟨hlow, hhigh⟩

theorem rounded_of_dvd {m : ℕ} {e : ℤ} (h : 2 ^ (grid m e - e).toNat ∣ m) :
    rounded m e = m / 2 ^ (grid m e - e).toNat := by
  unfold rounded
  rw [(shiftRight_exact m _).2 h]
  rfl

theorem shiftToTargetExponent_eq (m : ℕ) (e : ℤ) :
    shiftToTargetExponent .binary64 m e .exact =
      ((ExtendedMantissa.mk m false false) >>> (grid m e - e).toNat, e + (grid m e - e).toNat) := by
  unfold shiftToTargetExponent shiftToExponent
  rw [targetExponent_eq]
  rfl

/-- What the number becomes on its grid. A carry into one bit too many makes the exponent larger. -/
def Carried (m : ℕ) (e : ℤ) (M : ℕ) (E : ℤ) : Prop :=
  rounded m e < 2 ^ 53 ∧ M = rounded m e ∧ E = grid m e ∨
    rounded m e = 2 ^ 53 ∧ M = 2 ^ 52 ∧ E = grid m e + 1

theorem roundWithAccuracy_eq {m : ℕ} {e : ℤ} (hm : 0 < m) (hleast : -1074 ≤ e) (he : e ≤ grid m e)
    (s : Sign) :
    ∃ M E, ∃ h : 0 < M, roundWithAccuracy .binary64 s m e .exact = .finite s M E h ∧
      Carried m e M E := by
  obtain ⟨hbelow, hpos, -⟩ := quotient_bounds hm hleast he
  obtain ⟨hlow, hhigh⟩ := rounded_bounds m e
  have hgrid : -1074 ≤ grid m e := le_max_right _ _
  have hround : roundWithAccuracy .binary64 s m e .exact =
      let final := shiftToTargetExponent .binary64 (rounded m e) (grid m e) .exact
      if h : final.1.mantissa = 0 then .zero s
      else .finite s final.1.mantissa final.2 (Nat.pos_of_ne_zero h) := by
    unfold roundWithAccuracy
    rw [shiftToTargetExponent_eq, Int.toNat_of_nonneg (sub_nonneg.mpr he), add_sub_cancel]
    rfl
  rw [shiftToTargetExponent_eq] at hround
  -- The mantissa is put on its grid once more, which moves it only if there was a carry.
  rcases Nat.lt_or_ge (rounded m e) (2 ^ 53) with hsmall | hcarry
  · have hlog : (rounded m e).log2 < 53 := (Nat.log2_lt (by omega)).mpr hsmall
    have hagain : (grid (rounded m e) (grid m e) - grid m e).toNat = 0 := by
      unfold grid at hgrid hlog ⊢
      omega
    rw [hagain] at hround
    refine ⟨rounded m e, grid m e, by omega, ?_, Or.inl ⟨hsmall, rfl, rfl⟩⟩
    have hsame : grid m e + ((0 : ℕ) : ℤ) = grid m e := add_zero _
    rw [hround, hsame]
    exact dif_neg (show ¬ rounded m e = 0 by omega)
  · have heq : rounded m e = 2 ^ 53 := by omega
    have hagain : (grid (2 ^ 53) (grid m e) - grid m e).toNat = 1 := by
      unfold grid at hgrid ⊢
      rw [Nat.log2_two_pow]
      omega
    rw [heq, hagain] at hround
    exact ⟨2 ^ 52, grid m e + 1, Nat.two_pow_pos 52, hround, Or.inr ⟨heq, rfl, rfl⟩⟩

/-- A number and what it is rounded to. No number of the format lies between the two. -/
structure Rounds (m : ℕ) (e : ℤ) (M : ℕ) (E : ℤ) : Prop where
  canonical : Canonical M E
  above : ∀ n f, Canonical n f → e ≤ f → n * 2 ^ (f - e).toNat ≤ m → Within n f M E
  below : ∀ n f, Canonical n f → e ≤ f → m ≤ n * 2 ^ (f - e).toNat → Within M E n f

/-- On a finer scale the number is the same. -/
theorem Rounds.of_scaled {m : ℕ} {e : ℤ} {M : ℕ} {E : ℤ} (k : ℕ)
    (h : Rounds (m * 2 ^ k) (e - k) M E) : Rounds m e M E := by
  have hscale (n : ℕ) {f : ℤ} (hf : e ≤ f) :
      n * 2 ^ (f - (e - k)).toNat = n * 2 ^ (f - e).toNat * 2 ^ k := by
    rw [mul_assoc, ← pow_add]
    congr 2
    omega
  refine ⟨h.canonical, fun n f hn hf hle => h.above n f hn (by omega) ?_,
    fun n f hn hf hle => h.below n f hn (by omega) ?_⟩
  · rw [hscale n hf]
    exact Nat.mul_le_mul_right _ hle
  · rw [hscale n hf]
    exact Nat.mul_le_mul_right _ hle

namespace Carried

variable {m M n : ℕ} {e E f : ℤ}

theorem canonical (h : Carried m e M E) (hm : 0 < m) (hleast : -1074 ≤ e) (he : e ≤ grid m e) :
    Canonical M E := by
  obtain ⟨-, -, hfull⟩ := quotient_bounds hm hleast he
  obtain ⟨hlow, -⟩ := rounded_bounds m e
  have hgrid : -1074 ≤ grid m e := le_max_right _ _
  rcases h with ⟨hsmall, rfl, rfl⟩ | ⟨-, rfl, rfl⟩
  · exact ⟨hsmall, hgrid, by omega⟩
  · exact ⟨by norm_num, by omega, Or.inl le_rfl⟩

theorem above (h : Carried m e M E) (hm : 0 < m) (hleast : -1074 ≤ e) (he : e ≤ grid m e)
    (hn : Canonical n f) (hf : e ≤ f) (hle : n * 2 ^ (f - e).toNat ≤ m) : Within n f M E := by
  obtain ⟨hbelow, -, -⟩ := quotient_bounds hm hleast he
  obtain ⟨hlow, -⟩ := rounded_bounds m e
  have hgrid : -1074 ≤ grid m e := le_max_right _ _
  unfold Carried at h
  unfold Within
  rcases lt_or_ge f (grid m e) with hf' | hf'
  · omega
  · -- The other number is a multiple of the grid, so that it does not exceed the quotient.
    have hmultiple : n * 2 ^ (f - grid m e).toNat ≤ m / 2 ^ (grid m e - e).toNat := by
      rw [Nat.le_div_iff_mul_le (Nat.two_pow_pos _), mul_assoc, ← pow_add]
      have hsum : (f - grid m e).toNat + (grid m e - e).toNat = (f - e).toNat := by omega
      rwa [hsum]
    rcases hf'.eq_or_lt with rfl | hlt
    · rw [sub_self, Int.toNat_zero, pow_zero, mul_one] at hmultiple
      omega
    · have hn' : 2 ^ 52 ≤ n := hn.full.resolve_right (by omega)
      have htwo : 2 ^ 1 ≤ 2 ^ (f - grid m e).toNat := Nat.pow_le_pow_right two_pos (by omega)
      have hlarge := Nat.mul_le_mul hn' htwo
      omega

theorem below (h : Carried m e M E) (hm : 0 < m) (hleast : -1074 ≤ e) (he : e ≤ grid m e)
    (hn : Canonical n f) (hf : e ≤ f) (hle : m ≤ n * 2 ^ (f - e).toNat) : Within M E n f := by
  obtain ⟨-, -, hfull⟩ := quotient_bounds hm hleast he
  obtain ⟨-, hhigh⟩ := rounded_bounds m e
  have hn' := hn.below
  unfold Carried at h
  unfold Within
  rcases lt_trichotomy f (grid m e) with hf' | rfl | hf'
  · -- The other number is too small for the bits that the quotient has.
    have hfull' : 2 ^ 52 ≤ m / 2 ^ (grid m e - e).toNat :=
      hfull.resolve_right (hn.least.trans_lt hf').ne'
    have hm' : 2 ^ 52 * 2 ^ (grid m e - e).toNat ≤ m :=
      (Nat.le_div_iff_mul_le (Nat.two_pow_pos _)).mp hfull'
    have hpow : 2 ^ ((f - e).toNat + 1) ≤ 2 ^ (grid m e - e).toNat :=
      Nat.pow_le_pow_right two_pos (by omega)
    have hlt : n * 2 ^ (f - e).toNat < 2 ^ 53 * 2 ^ (f - e).toNat :=
      Nat.mul_lt_mul_of_pos_right hn' (Nat.two_pow_pos _)
    rw [pow_succ] at hpow
    omega
  · have hle' : rounded m e ≤ n := by
      by_cases hdvd : 2 ^ (grid m e - e).toNat ∣ m
      · rw [rounded_of_dvd hdvd]
        exact Nat.div_le_of_le_mul (by rwa [mul_comm])
      · have hne : m ≠ n * 2 ^ (grid m e - e).toNat := fun heq =>
          hdvd (Dvd.intro_left n heq.symm)
        have hquotient : m / 2 ^ (grid m e - e).toNat < n :=
          (Nat.div_lt_iff_lt_mul (Nat.two_pow_pos _)).mpr (lt_of_le_of_ne hle hne)
        omega
    omega
  · have hgrid : -1074 ≤ grid m e := le_max_right _ _
    have hfull' : 2 ^ 52 ≤ n := hn.full.resolve_right (hgrid.trans_lt hf').ne'
    omega

theorem rounds (h : Carried m e M E) (hm : 0 < m) (hleast : -1074 ≤ e) (he : e ≤ grid m e) :
    Rounds m e M E where
  canonical := h.canonical hm hleast he
  above _ _ hn hf hle := h.above hm hleast he hn hf hle
  below _ _ hn hf hle := h.below hm hleast he hn hf hle

end Carried

/-- Whatever the exponent is, a number is rounded to one of the format. -/
theorem round_eq {m : ℕ} {e : ℤ} (hm : 0 < m) (hleast : -1074 ≤ e) (s : Sign) :
    ∃ M E, ∃ h : 0 < M, UnpackedFloat.round .binary64 s m e = .finite s M E h ∧
      Rounds m e M E := by
  let k := (e - grid m e).toNat
  have hgrid : -1074 ≤ grid m e := le_max_right _ _
  have hm' : 0 < m * 2 ^ k := Nat.mul_pos hm (Nat.two_pow_pos k)
  have hsame : grid (m * 2 ^ k) (e - k) = grid m e := by
    unfold grid
    rw [log2_mul_two_pow hm]
    push_cast
    ring_nf
  have he : e - k ≤ grid (m * 2 ^ k) (e - k) := by omega
  obtain ⟨M, E, hM, hround, hcarried⟩ :=
    roundWithAccuracy_eq hm' (show -1074 ≤ e - k by omega) he s
  refine ⟨M, E, hM, ?_, (hcarried.rounds hm' (by omega) he).of_scaled k⟩
  unfold UnpackedFloat.round decreaseExponent
  rw [targetExponent_eq]
  show roundWithAccuracy .binary64 s (m <<< k) (e - k) .exact = _
  rw [Nat.shiftLeft_eq, hround]

theorem toNat_one_append (m : BitVec 52) : (1#1 ++ m).toNat = 2 ^ 52 + m.toNat := by
  rw [BitVec.toNat_append, ← Nat.shiftLeft_add_eq_or_of_lt m.isLt]
  rfl

theorem ofBitVec_unpackSign (s : Sign) (exponent : BitVec 11) (mantissa : BitVec 52) :
    Sign.ofBitVec (unpackSign (packComponents .binary64 s exponent mantissa)) = s := by
  have hsign : unpackSign (packComponents .binary64 s exponent mantissa) = s.toBitVec := by
    unfold unpackSign packComponents BitVec.extractLsb
    rw [BitVec.extractLsb'_append_eq_of_le (by decide),
      BitVec.extractLsb'_append_eq_of_le (by decide)]
    exact BitVec.extractLsb'_eq_self
  rw [hsign]
  cases s <;> rfl

theorem canonical_of_unpack {b : BitVec Format.binary64.numBits} {s : Sign} {m : ℕ} {e : ℤ}
    {h : 0 < m} (hb : UnpackedFloat.unpack .binary64 b = .finite s m e h) :
    Canonical m e ∧ e ≤ 971 := by
  have hbias : ((Format.binary64.exponentBias : ℕ) : ℤ) = 1023 := rfl
  have hmantissa : (unpackMantissa b).toNat < 2 ^ 52 := (unpackMantissa b).isLt
  have hexponent : (unpackExponent b).toNat < 2 ^ 11 := (unpackExponent b).isLt
  unfold UnpackedFloat.unpack at hb
  dsimp only at hb
  split at hb
  · split at hb <;> cases hb
  · rename_i hlast
    split at hb
    · rename_i hfirst
      split at hb
      · cases hb
      · cases hb
        rw [hfirst, hbias]
        exact ⟨⟨by omega, by decide, Or.inr rfl⟩, by decide⟩
    · rename_i hfirst
      have hpos : (unpackExponent b).toNat ≠ 0 := fun hzero => hfirst (BitVec.toNat_inj.mp hzero)
      have hlt : (unpackExponent b).toNat ≠ 2 ^ 11 - 1 := fun hones =>
        hlast (BitVec.toNat_inj.mp hones)
      cases hb
      rw [toNat_one_append, hbias]
      refine ⟨⟨?_, ?_, Or.inl ?_⟩, ?_⟩
      · omega
      · push_cast
        omega
      · omega
      · push_cast
        omega

theorem unpack_packComponents (s : Sign) (exponent : BitVec 11) (mantissa : BitVec 52)
    (hlast : exponent ≠ -1#11) (hfirst : exponent ≠ 0#11) :
    UnpackedFloat.unpack .binary64 (packComponents .binary64 s exponent mantissa) =
      .finite s (2 ^ 52 + mantissa.toNat) (exponent.toNat - 1075) (by omega) := by
  have hmantissa := toNat_one_append mantissa
  unfold UnpackedFloat.unpack
  dsimp only
  simp only [unpackExponent_packComponents, unpackMantissa_packComponents, ofBitVec_unpackSign,
    if_neg hlast, if_neg hfirst, hmantissa]
  rfl

theorem unpack_packComponents_zero (s : Sign) {mantissa : BitVec 52} (h : 0 < mantissa.toNat) :
    UnpackedFloat.unpack .binary64 (packComponents .binary64 s 0#11 mantissa) =
      .finite s mantissa.toNat (-1074) h := by
  have hsome : mantissa ≠ 0#52 := fun heq => by
    rw [heq] at h
    exact h.false
  unfold UnpackedFloat.unpack
  dsimp only
  simp only [unpackExponent_packComponents, unpackMantissa_packComponents, ofBitVec_unpackSign,
    dif_neg hsome]
  rfl

theorem toNat_ofNat_of_lt {m k : ℕ} (h : m < 2 ^ k) : (BitVec.ofNat k m).toNat = m := by
  rw [BitVec.toNat_ofNat, Nat.mod_eq_of_lt h]

theorem finite_congr {s : Sign} {m m' : ℕ} {e e' : ℤ} {h : 0 < m} {h' : 0 < m'} (hm : m = m')
    (he : e = e') : UnpackedFloat.finite s m e h = .finite s m' e' h' := by
  subst hm he
  rfl

theorem unpack_pack_of_large {m : ℕ} {e : ℤ} (he : 971 < e) (s : Sign) (h : 0 < m) :
    UnpackedFloat.unpack .binary64 (UnpackedFloat.pack .binary64 (.finite s m e h)) =
      .infinity s := by
  have hbias : ((Format.binary64.exponentBias : ℕ) : ℤ) = 1023 := rfl
  unfold UnpackedFloat.pack
  dsimp only
  rw [hbias, if_pos (by omega)]
  cases s <;> rfl

theorem unpack_pack_of_fits {m : ℕ} {e : ℤ} (hc : Canonical m e) (he : e ≤ 971) (s : Sign)
    (h : 0 < m) :
    UnpackedFloat.unpack .binary64 (UnpackedFloat.pack .binary64 (.finite s m e h)) =
      .finite s m e h := by
  obtain ⟨hbelow, hleast, hfull⟩ := hc
  have hbias : ((Format.binary64.exponentBias : ℕ) : ℤ) = 1023 := rfl
  have hlog : m.log2 + 1 = Format.binary64.mantissaBits ↔ 2 ^ 52 ≤ m := by
    show m.log2 + 1 = 53 ↔ _
    rw [Nat.add_right_cancel_iff (m := m.log2) (k := 52), Nat.log2_eq_iff h.ne']
    omega
  unfold UnpackedFloat.pack
  dsimp only
  rw [hbias, if_neg (by omega)]
  -- A normal number leaves out its leading bit, a subnormal one has none to leave out.
  by_cases hnormal : 2 ^ 52 ≤ m
  · obtain ⟨k, hk⟩ : ∃ k : ℕ, e + 1023 + ((52 : ℕ) : ℤ) = k := ⟨(e + 1075).toNat, by omega⟩
    have hexponent : (BitVec.ofNat 11 k).toNat = k := toNat_ofNat_of_lt (by omega)
    have hmantissa : (BitVec.ofNat 52 m).toNat = m - 2 ^ 52 := by
      rw [BitVec.toNat_ofNat]
      omega
    rw [if_pos (hlog.mpr hnormal), hk, Int.toNat_natCast, unpack_packComponents]
    · refine finite_congr ?_ ?_
      · omega
      · omega
    · intro heq
      have hones : k = 2047 := by rw [← hexponent, heq]; rfl
      omega
    · intro heq
      have hzero : k = 0 := by rw [← hexponent, heq]; rfl
      omega
  · have hmantissa : (BitVec.ofNat 52 m).toNat = m := toNat_ofNat_of_lt (by omega)
    rw [if_neg (mt hlog.mp hnormal), unpack_packComponents_zero s (hmantissa.symm ▸ h)]
    exact finite_congr hmantissa (hfull.resolve_left hnormal).symm

end LiveExpr.Number
