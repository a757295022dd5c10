import TimedQuiz.Number.Binary64

/-!
# Division of doubles

* `copySign` — a magnitude with the sign of another double;
* `divide` — the quotient, with the case of a zero divisor spelled out.

Main statement: `divide_eq_div` — the case spelled out is the one of IEEE 754.
-/

namespace TimedQuiz.Binary64

open Float.Model (UnpackedFloat)

/-- The double one. -/
def one : Float := Float.ofBits 0x3FF0000000000000

/-- The sign of the double is negative; zeros and infinities have one too. -/
def isNegative (x : Float) : Bool :=
  match x.toModel.unpack with
  | .infinity .negative => true
  | .zero .negative => true
  | .finite .negative .. => true
  | _ => false

/-- The magnitude of the first double with the sign of the second. -/
def copySign (x y : Float) : Float := if isNegative y then -x.abs else x.abs

/-- The quotient of two doubles. Over zero it is an infinity with the product of the two signs, or
not a number if the dividend is zero or not a number. -/
def divide (x y : Float) : Float :=
  if y == Float.ofBits 0 then
    if x == Float.ofBits 0 || x.isNaN then nan else copySign infinity x * copySign one y
  else x / y

theorem unpack_zero : (Float.ofBits 0).toModel.unpack = .zero .positive := rfl

/-- Only the two zeros equal zero. -/
theorem beq_zero_iff (x : Float) :
    (x == Float.ofBits 0) = true ↔ ∃ s, x.toModel.unpack = .zero s := by
  have h : (x == Float.ofBits 0) = (x.toModel.unpack.compare (.zero .positive) == some .eq) := by
    rw [← unpack_zero]; rfl
  rw [h]
  cases x.toModel.unpack with
  | zero s => exact ⟨fun _ => ⟨s, rfl⟩, fun _ => rfl⟩
  | infinity s => cases s <;> exact ⟨nofun, nofun⟩
  | notANumber => exact ⟨nofun, nofun⟩
  | finite s m e h => cases s <;> exact ⟨nofun, nofun⟩

theorem isNaN_iff (x : Float) : x.isNaN = true ↔ x.toModel.unpack = .notANumber := by
  have h : x.isNaN = x.toModel.unpack.isNaN := rfl
  rw [h]
  cases x.toModel.unpack with
  | notANumber => exact ⟨fun _ => rfl, fun _ => rfl⟩
  | zero s => exact ⟨nofun, nofun⟩
  | infinity s => exact ⟨nofun, nofun⟩
  | finite s m e h => exact ⟨nofun, nofun⟩

theorem isNegative_of_zero {x : Float} {s} (h : x.toModel.unpack = .zero s) :
    isNegative x = (s == .negative) := by
  rw [isNegative, h]
  cases s <;> rfl

/-- What is neither zero nor NaN divided by a zero is an infinity. -/
theorem unpacked_div_zero {x : Float} (hx : ¬ ∃ s, x.toModel.unpack = .zero s)
    (hn : x.toModel.unpack ≠ .notANumber) (t) :
    ∃ s, isNegative x = (s == .negative) ∧
      UnpackedFloat.div .binary64 x.toModel.unpack (.zero t) = .infinity (s / t) := by
  cases hu : x.toModel.unpack with
  | notANumber => exact absurd hu hn
  | zero s => exact absurd ⟨s, hu⟩ hx
  | infinity s => exact ⟨s, by rw [isNegative, hu]; cases s <;> rfl, rfl⟩
  | finite s m e h => exact ⟨s, by rw [isNegative, hu]; cases s <;> rfl, rfl⟩

/-- **Division by zero is that of IEEE 754.** -/
theorem divide_eq_div (x y : Float) : divide x y = x / y := by
  have hdiv : x / y = .ofModel (.pack (.div .binary64 x.toModel.unpack y.toModel.unpack)) := rfl
  unfold divide
  split
  · rename_i hy
    obtain ⟨t, ht⟩ := (beq_zero_iff y).mp hy
    rw [hdiv, ht]
    split
    · rename_i hx
      rw [Bool.or_eq_true, beq_zero_iff, isNaN_iff] at hx
      rcases hx with ⟨s, hs⟩ | hs <;> rw [hs] <;> rfl
    · rename_i hx
      rw [Bool.or_eq_true, beq_zero_iff, isNaN_iff, not_or] at hx
      obtain ⟨s, hs, hinf⟩ := unpacked_div_zero hx.1 hx.2 t
      rw [hinf, copySign, copySign, hs, isNegative_of_zero ht]
      cases s <;> cases t <;> rfl
  · rfl

end TimedQuiz.Binary64
