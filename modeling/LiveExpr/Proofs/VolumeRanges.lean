import LiveExpr.Proofs.FloatOrder
import LiveExpr.Proofs.MixerCommands

/-!
The range of volumes, from zero to the loudest. The new volume of a single channel is always in
it. The volumes of a whole device are held back on one side only, and so one that has been beyond
the other side before may stay there, though it never goes farther away. Volumes that are in the
range stay in it.
-/
namespace LiveExpr

namespace Mixer

open Number

/-- A volume that a channel should have. -/
def InRange (w : Float) : Prop := 0.0 ≤ w ∧ w ≤ loudest

instance (w : Float) : Decidable (InRange w) := inferInstanceAs (Decidable (_ ∧ _))

/-- A volume that has been out of the range and still is, but not farther than before. -/
def Returning (v w : Float) : Prop :=
  ¬ InRange v ∧ (v ≤ w ∧ w < 0.0 ∨ loudest < w ∧ w ≤ v)

variable {v w x delta : Float}

theorem zero_inRange : InRange 0.0 := by decide +kernel

theorem loudest_inRange : InRange loudest := by decide +kernel

theorem isNaN_loudest : loudest.isNaN = false := (isNaN_of_le loudest_inRange.2).1

theorem returning_of_lt_zero (hle : v ≤ w) (hlt : w < 0.0) : Returning v w :=
  ⟨fun h => Number.not_lt_of_le (Number.le_trans h.1 hle) hlt, Or.inl ⟨hle, hlt⟩⟩

theorem returning_of_loudest_lt (hle : w ≤ v) (hlt : loudest < w) : Returning v w :=
  ⟨fun h => Number.not_lt_of_le (Number.le_trans hle h.2) hlt, Or.inr ⟨hlt, hle⟩⟩

theorem clamp_inRange (hx : x.isNaN = false) : InRange (clamp x 0.0 loudest) := by
  unfold clamp
  split_ifs with hlow hhigh
  · exact zero_inRange
  · exact loudest_inRange
  · exact ⟨le_of_not_lt hx isNaN_zero hlow, le_of_not_lt isNaN_loudest hx hhigh⟩

theorem atMost_inRange_or (hv : v.isFinite = true) (hdelta : 0.0 < delta) :
    InRange (atMost (v + delta) loudest) ∨ Returning v (atMost (v + delta) loudest) := by
  have hle : v ≤ v + delta := le_add hv (Number.le_of_lt hdelta)
  obtain ⟨-, hsum⟩ := isNaN_of_le hle
  unfold atMost
  split_ifs with hhigh
  · by_cases hlow : v + delta < 0.0
    · exact Or.inr (returning_of_lt_zero hle hlow)
    · exact Or.inl ⟨le_of_not_lt hsum isNaN_zero hlow, Number.le_of_lt hhigh⟩
  · exact Or.inl loudest_inRange

/-- What is subtracted may be no number, if the average is none. Then the volume becomes zero. -/
theorem atLeast_inRange_or (hv : v.isFinite = true) (hdelta : ¬ 0.0 < delta) :
    InRange (atLeast (v + delta) 0.0) ∨ Returning v (atLeast (v + delta) 0.0) := by
  unfold atLeast
  split_ifs with hlow
  · have hnumber : delta.isNaN = false := by
      by_contra hnan
      exact not_lt_of_isNaN (isNaN_add (Bool.eq_true_of_not_eq_false hnan) v) 0.0 hlow
    have hle : v + delta ≤ v := add_le hv (le_of_not_lt isNaN_zero hnumber hdelta)
    obtain ⟨hsum, -⟩ := isNaN_of_le hle
    by_cases hhigh : loudest < v + delta
    · exact Or.inr (returning_of_loudest_lt hle hhigh)
    · exact Or.inl ⟨Number.le_of_lt hlow, le_of_not_lt isNaN_loudest hsum hhigh⟩
  · exact Or.inl zero_inRange

namespace Device

variable {d : Device} {n k : Nat} {arg : String} {volumes : List Float} {c : ChannelVolume}

/-- A volume of the whole device after it has been changed. -/
theorem shift_zero_inRange_or (hfinite : ∀ c ∈ d.channels, c.volume.isFinite = true)
    (h : d.shift 0 delta = some volumes) (hc : d.channels[k]? = some c)
    (hw : volumes[k]? = some w) : InRange w ∨ Returning c.volume w := by
  have hvolume : c.volume.isFinite = true := hfinite c (List.mem_of_getElem? hc)
  unfold shift at h
  dsimp only at h
  split_ifs at h with hdelta
  · cases h
    simp only [List.getElem?_map, hc, Option.map_some, Option.some_inj] at hw
    rw [← hw]
    exact atMost_inRange_or hvolume hdelta
  · cases h
    simp only [List.getElem?_map, hc, Option.map_some, Option.some_inj] at hw
    rw [← hw]
    exact atLeast_inRange_or hvolume hdelta

theorem shift_succ_inRange {j : Nat} (hfinite : ∀ c ∈ d.channels, c.volume.isFinite = true)
    (hdelta : delta.isNaN = false) (h : d.shift (j + 1) delta = some volumes)
    (hc : d.channels[k]? = some c) (hw : volumes[k]? = some w) (hne : w ≠ c.volume) :
    InRange w := by
  obtain ⟨v, hv, rfl⟩ := Option.map_eq_some_iff.mp h
  rcases eq_or_ne j k with rfl | hother
  · rw [List.getElem?_map, hc] at hv
    cases hv
    rw [List.getElem?_set_self', List.getElem?_map, hc] at hw
    cases hw
    exact clamp_inRange (isNaN_add_of_isFinite (hfinite c (List.mem_of_getElem? hc)) hdelta)
  · rw [List.getElem?_set_ne hother, List.getElem?_map, hc] at hw
    exact absurd (Option.some.inj hw).symm hne

/-- An amount to add to a channel is a number, be it given or the distance to a new volume. -/
theorem isNaN_change {amount : Float} (signed : Bool)
    (hfinite : ∀ c ∈ d.channels, c.volume.isFinite = true) (hamount : amount.isFinite = true)
    (hc : d.channels[k]? = some c) :
    (if signed then amount else amount - d.volumeAt (k + 1)).isNaN = false := by
  split
  · exact isNaN_of_isFinite hamount
  · have hvolume : d.volumeAt (k + 1) = c.volume := by
      simp only [volumeAt, channel?, hc]
    rw [hvolume]
    exact isNaN_sub hamount (hfinite c (List.mem_of_getElem? hc))

/-- Whatever the argument is, a volume that it changes comes into the range. The only exception are
volumes out of the range when the whole device is changed: these may come back in part only. -/
theorem changed_volume_inRange_or (hfinite : ∀ c ∈ d.channels, c.volume.isFinite = true)
    (h : d.adjust n arg = some volumes) (hc : d.channels[k]? = some c)
    (hw : volumes[k]? = some w) (hne : w ≠ c.volume) :
    InRange w ∨ n = 0 ∧ Returning c.volume w := by
  unfold adjust at h
  dsimp only at h
  obtain ⟨amount, -, h⟩ := Option.bind_eq_some_iff.mp h
  split at h
  · rename_i hamount
    cases n with
    | zero => exact (shift_zero_inRange_or hfinite h hc hw).imp_right fun hr => ⟨rfl, hr⟩
    | succ j =>
      obtain ⟨hj, -⟩ := (shift_volumes h).others j rfl
      have hnumber := isNaN_change (isSigned (Text.trimStart arg)) hfinite hamount
        (List.getElem?_eq_getElem hj)
      exact Or.inl (shift_succ_inRange hfinite hnumber h hc hw hne)
  · cases h

end Device

end Mixer

namespace Bare

open Mixer

def loud : Device := headset 200.0 100.0 5.0

theorem isFinite_loud : ∀ c ∈ loud.channels, c.volume.isFinite = true := by
  decide +kernel

theorem lowered_loud : loud.adjust 0 "-10" = some [190.0, 90.0, 0.0] := by
  decide +kernel

/-- All three volumes go down. The first one comes nearer to the range and the second one is in
it. -/
theorem changed_volume_inRange_or_lowered : Returning 200.0 190.0 ∧ InRange 90.0 := by
  have hfirst := Device.changed_volume_inRange_or (k := 0) (c := ⟨"front-left", 200.0⟩)
    (w := 190.0) isFinite_loud lowered_loud rfl rfl (by decide +kernel)
  have hsecond := Device.changed_volume_inRange_or (k := 1) (c := ⟨"rear:b-c", 100.0⟩)
    (w := 90.0) isFinite_loud lowered_loud rfl rfl (by decide +kernel)
  have hloud : ¬ InRange 190.0 := by decide +kernel
  have hmoderate : InRange 100.0 := by decide +kernel
  exact ⟨(hfirst.resolve_left hloud).2, hsecond.resolve_right fun h => h.2.1 hmoderate⟩

/-- A volume that is changed need not come into the range. -/
theorem changed_volume_out_of_range :
    ¬ ∀ (d : Device) (n : Nat) (arg : String) (volumes : List Float),
      (∀ c ∈ d.channels, c.volume.isFinite = true) → d.adjust n arg = some volumes →
      ∀ (k : Nat) (c : ChannelVolume) (w : Float),
        d.channels[k]? = some c → volumes[k]? = some w → w ≠ c.volume → InRange w := by
  intro h
  have hloud : InRange 190.0 := h loud 0 "-10" _ isFinite_loud lowered_loud 0
    ⟨"front-left", 200.0⟩ 190.0 rfl rfl (by decide +kernel)
  exact absurd hloud (by decide +kernel)

end Bare

end LiveExpr
