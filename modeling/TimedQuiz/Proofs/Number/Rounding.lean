import Mathlib.Algebra.Order.Field.Power
import Mathlib.Algebra.Order.Floor.Ring
import Mathlib.Data.Rat.Cast.Order
import Mathlib.Data.Rat.Floor
import Mathlib.Tactic.Linarith
import Mathlib.Tactic.NormNum
import Mathlib.Tactic.Positivity
import TimedQuiz.Number.Binary64

/-!
# Rounding to a double keeps the order and errs by little

* `rounded` — the double nearest to a rational, were there no largest one.

Main statements: `rounded_mono` — of two numbers that are not negative the larger one is never
rounded to the smaller double; `abs_rounded_sub_le` — rounding below `2 ^ e` errs by at most
`2 ^ (e - 54)`; `nearest?_eq` — what is not negative and below a number whose rounding is in range
has a nearest double.
-/

namespace TimedQuiz.Binary64

/-! ## Powers of two -/

theorem twoPow_eq_zpow (e : Int) : twoPow e = (2 : Rat) ^ e := by
  unfold twoPow
  split
  · rename_i h
    obtain ⟨n, rfl⟩ := Int.eq_ofNat_of_zero_le h
    simp
  · rename_i h
    obtain ⟨n, hn⟩ := Int.eq_ofNat_of_zero_le (show 0 ≤ -e by omega)
    rw [hn, show e = -(n : Int) by omega]
    simp

theorem twoPow_pos (e : Int) : 0 < twoPow e := by
  rw [twoPow_eq_zpow]
  positivity

theorem twoPow_le_twoPow {e f : Int} (h : e ≤ f) : twoPow e ≤ twoPow f := by
  rw [twoPow_eq_zpow, twoPow_eq_zpow]
  exact zpow_le_zpow_right₀ (by norm_num) h

theorem lt_of_twoPow_lt {e f : Int} (h : twoPow e < twoPow f) : e < f := by
  by_contra hle
  exact absurd h (not_lt.mpr (twoPow_le_twoPow (not_lt.mp hle)))

theorem twoPow_add (e f : Int) : twoPow (e + f) = twoPow e * twoPow f := by
  simp only [twoPow_eq_zpow]
  exact zpow_add₀ (by norm_num) e f

/-! ## Binades -/

/-- **The binade of a number** lies between two neighbouring powers of two. -/
theorem binade_bounds {x : Rat} (h : 0 < x) :
    twoPow (binade x) ≤ x ∧ x < twoPow (binade x + 1) := by
  have hden : (0 : Rat) < x.den := by exact_mod_cast x.den_pos
  have hx : x * x.den = x.num.natAbs := by
    rw [Rat.mul_den_eq_num, Nat.cast_natAbs, abs_of_pos (Rat.num_pos.mpr h)]
  have hnum : x.num.natAbs ≠ 0 := Int.natAbs_ne_zero.mpr (Rat.num_pos.mpr h).ne'
  rw [← mul_le_mul_iff_left₀ hden, ← mul_lt_mul_iff_left₀ hden, hx]
  simp only [binade]
  -- the numerator and the denominator lie in binades of their own
  have scaled : ∀ (e : Int) (n : Nat), twoPow e * (2 : Rat) ^ n = twoPow (e + n) := by
    intro e n
    rw [twoPow_add, twoPow_eq_zpow n, zpow_natCast]
  split
  · rename_i hle
    refine ⟨hle, ?_⟩
    have hhigh : (x.num.natAbs : Rat) < 2 ^ (x.num.natAbs.log2 + 1) := by
      exact_mod_cast Nat.lt_log2_self
    have hlow : (2 : Rat) ^ x.den.log2 ≤ x.den := by
      exact_mod_cast Nat.log2_self_le x.den_pos.ne'
    refine lt_of_lt_of_le hhigh (le_trans (le_of_eq ?_)
      (mul_le_mul_of_nonneg_left hlow (twoPow_pos _).le))
    rw [scaled, twoPow_eq_zpow, ← zpow_natCast]
    congr 1
    push_cast
    omega
  · rename_i hlt
    refine ⟨?_, by rw [Int.sub_add_cancel]; exact not_le.mp hlt⟩
    have hlow : (2 : Rat) ^ x.num.natAbs.log2 ≤ x.num.natAbs := by
      exact_mod_cast Nat.log2_self_le hnum
    have hhigh : (x.den : Rat) ≤ 2 ^ (x.den.log2 + 1) := by
      exact_mod_cast (Nat.lt_log2_self (n := x.den)).le
    refine le_trans (mul_le_mul_of_nonneg_left hhigh (twoPow_pos _).le)
      (le_trans (le_of_eq ?_) hlow)
    rw [scaled, twoPow_eq_zpow, ← zpow_natCast]
    congr 1
    push_cast
    omega

theorem binade_lt_of_lt {x : Rat} {e : Int} (h : 0 < x) (hlt : x < twoPow e) : binade x < e :=
  lt_of_twoPow_lt (lt_of_le_of_lt (binade_bounds h).1 hlt)

theorem binade_mono {x y : Rat} (h : 0 < x) (hle : x ≤ y) : binade x ≤ binade y :=
  Int.lt_add_one_iff.mp
    (binade_lt_of_lt h (lt_of_le_of_lt hle (binade_bounds (lt_of_lt_of_le h hle)).2))

theorem spacing_pos (x : Rat) : 0 < spacing x := twoPow_pos _

/-- A power of two that is not below the spacing of a number is a multiple of it. -/
theorem exists_twoPow_eq {x : Rat} {e : Int} (h : max (binade x - 52) (-1074) ≤ e) :
    ∃ n : Int, twoPow e = n * spacing x := by
  refine ⟨2 ^ (e - max (binade x - 52) (-1074)).toNat, ?_⟩
  have hsum : e = ((e - max (binade x - 52) (-1074)).toNat : Int) +
      max (binade x - 52) (-1074) := by omega
  rw [spacing]
  conv_lhs => rw [hsum, twoPow_add]
  rw [twoPow_eq_zpow ((e - max (binade x - 52) (-1074)).toNat : Int), zpow_natCast]
  push_cast
  rfl

/-! ## The nearest integer -/

theorem roundHalfEven_cases (x : Rat) :
    (roundHalfEven x = x.floor ∧ x - x.floor ≤ 1 / 2) ∨
      (roundHalfEven x = x.floor + 1 ∧ 1 / 2 ≤ x - x.floor) := by
  simp only [roundHalfEven]
  split
  · exact .inl ⟨rfl, by linarith⟩
  · split
    · exact .inr ⟨rfl, by linarith⟩
    · split
      · exact .inl ⟨rfl, by linarith⟩
      · exact .inr ⟨rfl, by linarith⟩

theorem abs_roundHalfEven_sub_le (x : Rat) : |(roundHalfEven x : Rat) - x| ≤ 1 / 2 := by
  have hlow : (x.floor : Rat) ≤ x := Rat.floor_le x
  have hhigh : x - 1 < x.floor := Rat.lt_floor
  rw [abs_le]
  rcases roundHalfEven_cases x with ⟨h, hrest⟩ | ⟨h, hrest⟩
  · rw [h]
    constructor <;> linarith
  · rw [h]
    push_cast
    constructor <;> linarith

theorem roundHalfEven_mono {x y : Rat} (h : x ≤ y) : roundHalfEven x ≤ roundHalfEven y := by
  rcases (Rat.floor_monotone h).lt_or_eq with hlt | heq
  · rcases roundHalfEven_cases x with ⟨hx, -⟩ | ⟨hx, -⟩ <;>
      rcases roundHalfEven_cases y with ⟨hy, -⟩ | ⟨hy, -⟩ <;> omega
  · -- within one unit only the distance from the integer below counts
    simp only [roundHalfEven, heq]
    split_ifs <;> first | omega | (exfalso; linarith)

@[simp] theorem roundHalfEven_intCast (n : Int) : roundHalfEven (n : Rat) = n := by
  simp [roundHalfEven]

/-! ## The nearest double -/

/-- The double nearest to a rational, were there no largest one. -/
def rounded (x : Rat) : Rat := roundHalfEven (x / spacing x) * spacing x

@[simp] theorem rounded_zero : rounded 0 = 0 := by
  have h := roundHalfEven_intCast 0
  rw [Int.cast_zero] at h
  rw [rounded, zero_div, h, Int.cast_zero, zero_mul]

/-- No number is rounded past a multiple of its spacing. -/
theorem rounded_le_of_le_mul {x : Rat} {n : Int} (h : x ≤ n * spacing x) :
    rounded x ≤ n * spacing x := by
  have hle := roundHalfEven_mono ((div_le_iff₀ (spacing_pos x)).mpr h)
  rw [roundHalfEven_intCast] at hle
  exact mul_le_mul_of_nonneg_right (by exact_mod_cast hle) (spacing_pos x).le

theorem le_rounded_of_mul_le {x : Rat} {n : Int} (h : n * spacing x ≤ x) :
    n * spacing x ≤ rounded x := by
  have hle := roundHalfEven_mono ((le_div_iff₀ (spacing_pos x)).mpr h)
  rw [roundHalfEven_intCast] at hle
  exact mul_le_mul_of_nonneg_right (by exact_mod_cast hle) (spacing_pos x).le

theorem rounded_nonneg {x : Rat} (h : 0 ≤ x) : 0 ≤ rounded x := by
  have hle := le_rounded_of_mul_le (x := x) (n := 0) (by simpa using h)
  simpa using hle

/-- **Of two numbers that are not negative the larger one is never rounded to the smaller
double.** -/
theorem rounded_mono {x y : Rat} (h0 : 0 ≤ x) (h : x ≤ y) : rounded x ≤ rounded y := by
  rcases h0.eq_or_lt with rfl | hpos
  · rw [rounded_zero]
    exact rounded_nonneg h
  · rcases (binade_mono hpos h).lt_or_eq with hlt | heq
    · -- the power of two at which the binade of the larger number begins lies between the two
      by_cases hfine : binade y - 52 ≤ -1074
      · have hsame : spacing x = spacing y := by
          rw [spacing, spacing, max_eq_right hfine, max_eq_right (by omega)]
        rw [rounded, rounded, hsame]
        exact mul_le_mul_of_nonneg_right
          (by exact_mod_cast roundHalfEven_mono (div_le_div_of_nonneg_right h (spacing_pos y).le))
          (spacing_pos y).le
      · have hbelow : x ≤ twoPow (binade y) :=
          (binade_bounds hpos).2.le.trans (twoPow_le_twoPow (by omega))
        have habove : twoPow (binade y) ≤ y := (binade_bounds (lt_of_lt_of_le hpos h)).1
        obtain ⟨n, hn⟩ := exists_twoPow_eq (x := x) (e := binade y) (by omega)
        obtain ⟨m, hm⟩ := exists_twoPow_eq (x := y) (e := binade y) (by omega)
        calc rounded x ≤ n * spacing x := rounded_le_of_le_mul (hn ▸ hbelow)
          _ = m * spacing y := hn.symm.trans hm
          _ ≤ rounded y := le_rounded_of_mul_le (hm ▸ habove)
    · have hsame : spacing x = spacing y := by rw [spacing, spacing, heq]
      rw [rounded, rounded, hsame]
      exact mul_le_mul_of_nonneg_right
        (by exact_mod_cast roundHalfEven_mono (div_le_div_of_nonneg_right h (spacing_pos y).le))
        (spacing_pos y).le

/-- **Rounding below a power of two errs by little.** -/
theorem abs_rounded_sub_le {x : Rat} {e : Int} (h0 : 0 ≤ x) (hlt : x < twoPow e)
    (he : -1021 ≤ e) : |rounded x - x| ≤ twoPow (e - 54) := by
  rcases h0.eq_or_lt with rfl | hpos
  · rw [rounded_zero, sub_zero, abs_zero]
    exact (twoPow_pos _).le
  · have hspacing : spacing x ≤ twoPow (e - 53) := by
      have hbinade := binade_lt_of_lt hpos hlt
      exact twoPow_le_twoPow (by omega)
    have herror : rounded x - x =
        ((roundHalfEven (x / spacing x) : Rat) - x / spacing x) * spacing x := by
      rw [sub_mul, div_mul_cancel₀ x (spacing_pos x).ne', rounded]
    have hhalf : 1 / 2 * twoPow (e - 53) = twoPow (e - 54) := by
      rw [show e - 53 = 1 + (e - 54) by omega, twoPow_add, twoPow_eq_zpow 1]
      ring
    rw [herror, abs_mul, abs_of_pos (spacing_pos x), ← hhalf]
    exact mul_le_mul (abs_roundHalfEven_sub_le _) hspacing (spacing_pos x).le (by norm_num)

/-- **What is not negative and not above a number whose rounding is in range has a nearest
double.** -/
theorem nearest?_eq {x y : Rat} (h0 : 0 ≤ x) (h : x ≤ y) (hy : rounded y < twoPow 1024) :
    nearest? x = some (rounded x) := by
  have hhigh : rounded x < twoPow 1024 := lt_of_le_of_lt (rounded_mono h0 h) hy
  have hlow : -twoPow 1024 < rounded x :=
    lt_of_lt_of_le (neg_lt_zero.mpr (twoPow_pos 1024)) (rounded_nonneg h0)
  rw [nearest?]
  exact if_pos (And.intro hlow hhigh)

end TimedQuiz.Binary64
