import Mathlib.Tactic.FieldSimp
import TimedQuiz.Proofs.Number.Rounding
import TimedQuiz.Round.Basic
import TimedQuiz.Scoring.Grade

/-!
# What a percentage comes to

A percentage is computed in doubles: the share, its hundredfold and that plus a half are each
rounded to the nearest one. Rounding keeps the order, so percentages do; it errs, so that a share
of `m + 1/2` percent may be shifted to less than `m + 1`.

* `percentageOf` — the percentage of a share, without the range of the doubles;
* `halfUp` — the exact percentage, halves going up;
* `shortHalves` — the `m` for which `m + 1/2` percent come out as `m`.

Main statements: `percentage_eq` — every share of at most the whole has a percentage;
`score_near_halfUp` — where the score is the exact one; `score_mono` — scores and the progress of a
round are between 0 and 100 and in order.
-/

namespace TimedQuiz

open Binary64

/-- The percentage of a share, were there no largest double. -/
def percentageOf (share : Rat) : Int := (rounded (rounded (rounded share * 100) + 1 / 2)).floor

/-- The percentage as it would be without rounding errors, halves going up. -/
def halfUp (part whole : Int) : Int := (200 * part + whole) / (2 * whole)

/-- The `m` for which a share of `m + 1/2` percent is taken for less. -/
def shortHalves : List Int := [14, 28, 56, 57]

/-! ## Percentages keep the order of the shares -/

theorem rounded_one : rounded 1 = 1 := by decide +kernel

theorem rounded_hundred : rounded 100 = 100 := by decide +kernel

/-- The share and the percent of at most the whole, as doubles. -/
theorem rounded_share_bounds {share : Rat} (h0 : 0 ≤ share) (h1 : share ≤ 1) :
    (0 ≤ rounded share ∧ rounded share ≤ 1) ∧
      0 ≤ rounded (rounded share * 100) ∧ rounded (rounded share * 100) ≤ 100 := by
  have hlow : 0 ≤ rounded share := rounded_nonneg h0
  have hhigh : rounded share ≤ rounded 1 := rounded_mono h0 h1
  rw [rounded_one] at hhigh
  have hpercent : rounded (rounded share * 100) ≤ rounded 100 :=
    rounded_mono (by linarith) (by linarith)
  rw [rounded_hundred] at hpercent
  exact ⟨⟨hlow, hhigh⟩, rounded_nonneg (by linarith), hpercent⟩

theorem share_bounds {part whole : Int} (h0 : 0 ≤ part) (hle : part ≤ whole) (hpos : 0 < whole) :
    0 ≤ (part : Rat) / whole ∧ (part : Rat) / whole ≤ 1 := by
  have hwhole : (0 : Rat) < whole := by exact_mod_cast hpos
  exact ⟨div_nonneg (by exact_mod_cast h0) hwhole.le,
    (div_le_one hwhole).mpr (by exact_mod_cast hle)⟩

/-- **Every share of at most the whole has a percentage**, however large the two are: nothing is
out of range. -/
theorem percentage_eq {part whole : Int} (h0 : 0 ≤ part) (hle : part ≤ whole)
    (hpos : 0 < whole) : percentage part whole = .ok (percentageOf (part / whole)) := by
  obtain ⟨hshare0, hshare1⟩ := share_bounds h0 hle hpos
  obtain ⟨⟨hs0, hs1⟩, hp0, hp1⟩ := rounded_share_bounds hshare0 hshare1
  have hshare := nearest?_eq hshare0 hshare1 (by decide +kernel)
  have hpercent := nearest?_eq (x := rounded (part / whole) * 100) (y := 100)
    (by linarith) (by linarith) (by decide +kernel)
  have hshifted := nearest?_eq (x := rounded (rounded (part / whole) * 100) + 1 / 2)
    (y := 100 + 1 / 2) (by linarith) (by linarith) (by decide +kernel)
  unfold percentage
  split <;> rename_i h <;> rw [hshare] at h <;> cases h
  split <;> rename_i h <;> rw [hpercent] at h <;> cases h
  split <;> rename_i h <;> rw [hshifted] at h <;> cases h
  rfl

theorem percentageOf_mono {x y : Rat} (h0 : 0 ≤ x) (h : x ≤ y) :
    percentageOf x ≤ percentageOf y := by
  have hshare : rounded x ≤ rounded y := rounded_mono h0 h
  have hshare0 : 0 ≤ rounded x := rounded_nonneg h0
  have hpercent : rounded (rounded x * 100) ≤ rounded (rounded y * 100) :=
    rounded_mono (by linarith) (by linarith)
  have hpercent0 : 0 ≤ rounded (rounded x * 100) := rounded_nonneg (by linarith)
  exact Rat.floor_monotone (rounded_mono (by linarith) (by linarith))

@[simp] theorem percentageOf_zero : percentageOf 0 = 0 := by decide +kernel

@[simp] theorem percentageOf_one : percentageOf 1 = 100 := by decide +kernel

theorem percentageOf_bounds {share : Rat} (h0 : 0 ≤ share) (h1 : share ≤ 1) :
    0 ≤ percentageOf share ∧ percentageOf share ≤ 100 := by
  have hlow := percentageOf_mono le_rfl h0
  have hhigh := percentageOf_mono h0 h1
  rw [percentageOf_zero] at hlow
  rw [percentageOf_one] at hhigh
  exact ⟨hlow, hhigh⟩

theorem score_of_percentage {correct total n : Int} (hpos : 0 < total)
    (h : percentage correct total = .ok n) : score correct total = .ok n := by
  simp only [score, if_neg (Int.not_le.mpr hpos), h]

/-- A score is the percentage of the share of right answers. -/
theorem score_eq {correct total : Int} (h0 : 0 ≤ correct) (hle : correct ≤ total)
    (hpos : 0 < total) : score correct total = .ok (percentageOf (correct / total)) :=
  score_of_percentage hpos (percentage_eq h0 hle hpos)

/-! ## How far a percentage is from the exact one -/

/-- **What is rounded down at the end is close to the exact percentage and a half.** -/
theorem abs_shifted_sub_lt {share : Rat} (h0 : 0 ≤ share) (h1 : share ≤ 1) :
    |rounded (rounded (rounded share * 100) + 1 / 2) - (100 * share + 1 / 2)| < 1 / 2 ^ 45 := by
  obtain ⟨⟨hs0, hs1⟩, hp0, hp1⟩ := rounded_share_bounds h0 h1
  have htwo : twoPow 1 = 2 := by decide +kernel
  have hseven : twoPow 7 = 128 := by decide +kernel
  have hshare := abs_rounded_sub_le (e := 1) h0 (by linarith) (by decide)
  have hpercent := abs_rounded_sub_le (x := rounded share * 100) (e := 7) (by linarith)
    (by linarith) (by decide)
  have hshifted := abs_rounded_sub_le (x := rounded (rounded share * 100) + 1 / 2) (e := 7)
    (by linarith) (by linarith) (by decide)
  have hfine : twoPow (1 - 54) = 1 / 2 ^ 53 := by decide +kernel
  have hcoarse : twoPow (7 - 54) = 1 / 2 ^ 47 := by decide +kernel
  rw [hfine, abs_le] at hshare
  rw [hcoarse, abs_le] at hpercent hshifted
  rw [abs_lt]
  constructor <;> linarith

/-- The exact percentage, halves going up, between multiples of twice the whole. -/
theorem halfUp_bounds (part : Int) {whole : Int} (hpos : 0 < whole) :
    2 * whole * halfUp part whole ≤ 200 * part + whole ∧
      200 * part + whole < 2 * whole * (halfUp part whole + 1) := by
  have hrem := Int.emod_add_mul_ediv (200 * part + whole) (2 * whole)
  have hlow := Int.emod_nonneg (200 * part + whole) (show 2 * whole ≠ 0 by omega)
  have hhigh := Int.emod_lt_of_pos (200 * part + whole) (show 0 < 2 * whole by omega)
  rw [halfUp, Int.mul_add]
  omega

/-- Between a number and one that is close to it the floor differs by at most one, and only if an
integer lies close. -/
theorem floor_near {x y ε : Rat} (hε : ε ≤ 1) (h : |y - x| < ε) :
    y.floor = x.floor ∨ (|y.floor - x.floor| = 1 ∧ ∃ m : Int, |x - m| < ε) := by
  rw [abs_lt] at h
  have hx := Rat.floor_le x
  have hx' : x - 1 < x.floor := Rat.lt_floor
  have hy := Rat.floor_le y
  have hy' : y - 1 < y.floor := Rat.lt_floor
  have hup : y.floor < x.floor + 2 := by
    have hlt : (y.floor : Rat) < x.floor + 2 := by linarith
    exact_mod_cast hlt
  have hdown : x.floor < y.floor + 2 := by
    have hlt : (x.floor : Rat) < y.floor + 2 := by linarith
    exact_mod_cast hlt
  rcases (show y.floor = x.floor ∨ y.floor = x.floor + 1 ∨ y.floor + 1 = x.floor by omega) with
    hsame | hover | hunder
  · exact .inl hsame
  · refine .inr ⟨by rw [hover, add_sub_cancel_left, abs_one], x.floor + 1, ?_⟩
    have hcast : (y.floor : Rat) = x.floor + 1 := by exact_mod_cast hover
    rw [abs_lt]
    push_cast
    constructor <;> linarith
  · refine .inr ⟨by rw [← hunder, sub_add_cancel_left, abs_neg, abs_one], x.floor, ?_⟩
    have hcast : (y.floor : Rat) + 1 = x.floor := by exact_mod_cast hunder
    rw [abs_lt]
    constructor <;> linarith

/-- The exact percentage is the floor of the percent and a half. -/
theorem floor_percent_eq_halfUp (part : Int) {whole : Int} (hpos : 0 < whole) :
    (100 * ((part : Rat) / whole) + 1 / 2).floor = halfUp part whole := by
  have hwhole : (0 : Rat) < whole := by exact_mod_cast hpos
  obtain ⟨hlow, hhigh⟩ := halfUp_bounds part hpos
  have hlow' : 2 * (whole : Rat) * halfUp part whole ≤ 200 * part + whole := by
    exact_mod_cast hlow
  have hhigh' : 200 * part + whole < 2 * (whole : Rat) * (halfUp part whole + 1) := by
    exact_mod_cast hhigh
  have hpercent : 100 * ((part : Rat) / whole) + 1 / 2 = (200 * part + whole) / (2 * whole) := by
    field_simp
    ring
  rw [hpercent]
  refine le_antisymm (Int.lt_add_one_iff.mp (Rat.floor_lt_iff.mpr ?_)) (Rat.le_floor_iff.mpr ?_)
  · rw [div_lt_iff₀ (by linarith)]
    push_cast
    linarith
  · rw [le_div_iff₀ (by linarith)]
    linarith

/-- **A percentage is the exact one, unless the share is close to an odd number of half percents.**
It is then off by at most one. -/
theorem percentageOf_near {part whole : Int} (h0 : 0 ≤ part) (hle : part ≤ whole)
    (hpos : 0 < whole) :
    percentageOf (part / whole) = halfUp part whole ∨
      (|percentageOf (part / whole) - halfUp part whole| = 1 ∧
        ∃ m : Int, 2 ^ 44 * |200 * part - (2 * m + 1) * whole| < whole) := by
  obtain ⟨hshare0, hshare1⟩ := share_bounds h0 hle hpos
  have hwhole : (0 : Rat) < whole := by exact_mod_cast hpos
  have hnear := floor_near (by norm_num) (abs_shifted_sub_lt hshare0 hshare1)
  rw [floor_percent_eq_halfUp part hpos] at hnear
  refine hnear.imp_right (And.imp_right ?_)
  rintro ⟨m, hm⟩
  refine ⟨m - 1, ?_⟩
  have hscaled : (200 * part - (2 * (m - 1) + 1) * whole : Rat) =
      (100 * ((part : Rat) / whole) + 1 / 2 - m) * (2 * whole) := by
    field_simp
    ring
  have hclose : (2 : Rat) ^ 44 * ((|200 * part - (2 * (m - 1) + 1) * whole| : Int) : Rat) <
      whole := by
    push_cast
    rw [hscaled, abs_mul, abs_of_pos (show (0 : Rat) < 2 * whole by linarith)]
    calc (2 : Rat) ^ 44 * (|100 * ((part : Rat) / whole) + 1 / 2 - m| * (2 * whole))
        < 2 ^ 44 * (1 / 2 ^ 45 * (2 * whole)) := by gcongr
      _ = (whole : Rat) := by ring
  exact_mod_cast hclose

/-- **The half percents, one by one.** -/
theorem percentageOf_half {m : Int} (h0 : 0 ≤ m) (h : m < 100) :
    percentageOf ((2 * m + 1) / 200) = if m ∈ shortHalves then m else m + 1 := by
  have hall : ∀ k ∈ List.range 100,
      percentageOf ((2 * ((k : Nat) : Int) + 1) / 200) =
        if ((k : Nat) : Int) ∈ shortHalves then (k : Int) else k + 1 := by
    decide +kernel
  obtain ⟨k, rfl⟩ := Int.eq_ofNat_of_zero_le h0
  exact hall k (List.mem_range.mpr (by omega))

/-- At an exact half the exact percentage is the one above. -/
theorem halfUp_of_half {part whole m : Int} (hpos : 0 < whole)
    (h : 200 * part = (2 * m + 1) * whole) : halfUp part whole = m + 1 := by
  rw [halfUp, h, show (2 * m + 1) * whole + whole = (m + 1) * (2 * whole) by ring,
    Int.mul_ediv_cancel _ (by omega)]

/-- A share of the whole that is an exact half is one of the half percents. -/
theorem percentageOf_of_half {part whole m : Int} (h0 : 0 ≤ part) (hle : part ≤ whole)
    (hpos : 0 < whole) (h : 200 * part = (2 * m + 1) * whole) :
    percentageOf (part / whole) = if m ∈ shortHalves then m else m + 1 := by
  have hwhole : (whole : Rat) ≠ 0 := by exact_mod_cast hpos.ne'
  have hshare : (part : Rat) / whole = (2 * m + 1) / 200 := by
    rw [div_eq_div_iff hwhole (by norm_num)]
    have hcast : (200 * part : Rat) = (2 * m + 1) * whole := by exact_mod_cast h
    linarith
  have hlow : 0 < 2 * m + 2 := by nlinarith
  have hhigh : 2 * m + 1 ≤ 200 := by nlinarith
  rw [hshare]
  exact percentageOf_half (by omega) (by omega)

/-- **Where the score is the exact percentage rounded half up.** It always is, up to one, and it
is exactly so unless the share in percent is closer than `1 / 2 ^ 45` to a half. For a set of at
most `2 ^ 44` problems that leaves the halves themselves: 14.5, 28.5, 56.5 and 57.5 percent are
rounded down and the others up. -/
theorem score_near_halfUp {correct total : Int} (h0 : 0 ≤ correct) (hle : correct ≤ total)
    (hpos : 0 < total) :
    ∃ n, score correct total = .ok n ∧
      (n = halfUp correct total ∨
        (|n - halfUp correct total| = 1 ∧
          ∃ m, 2 ^ 44 * |200 * correct - (2 * m + 1) * total| < total)) ∧
      (total ≤ 2 ^ 44 →
        (n = halfUp correct total ↔ ∀ m ∈ shortHalves, 200 * correct ≠ (2 * m + 1) * total)) ∧
      ∀ m, 200 * correct = (2 * m + 1) * total → n = if m ∈ shortHalves then m else m + 1 := by
  have hhalf := fun m => percentageOf_of_half (m := m) h0 hle hpos
  refine ⟨_, score_eq h0 hle hpos, percentageOf_near h0 hle hpos, fun hsmall => ⟨?_, ?_⟩, hhalf⟩
  · intro hexact m hshort h
    rw [hhalf m h, if_pos hshort, halfUp_of_half hpos h] at hexact
    omega
  · intro hnone
    rcases percentageOf_near h0 hle hpos with hexact | ⟨hoff, m, hclose⟩
    · exact hexact
    · -- what is closer to a half percent than one part in the whole is that half percent
      have hzero : |200 * correct - (2 * m + 1) * total| = 0 := by
        have := abs_nonneg (200 * correct - (2 * m + 1) * total)
        omega
      have h : 200 * correct = (2 * m + 1) * total := by
        have := abs_eq_zero.mp hzero
        omega
      rw [hhalf m h, if_neg (fun hshort => hnone m hshort h), halfUp_of_half hpos h]

theorem score_near_halfUp_of_eighth :
    ∃ n, score 1 8 = .ok n ∧
      (n = halfUp 1 8 ∨
        (|n - halfUp 1 8| = 1 ∧ ∃ m, 2 ^ 44 * |200 * 1 - (2 * m + 1) * 8| < (8 : Int))) ∧
      ((8 : Int) ≤ 2 ^ 44 →
        (n = halfUp 1 8 ↔ ∀ m ∈ shortHalves, 200 * 1 ≠ (2 * m + 1) * 8)) ∧
      ∀ m, 200 * 1 = (2 * m + 1) * 8 → n = if m ∈ shortHalves then m else m + 1 :=
  score_near_halfUp (by decide) (by decide) (by decide)

/-- Twenty-three of forty are 57.5 percent. -/
theorem score_short_of_half :
    ¬ ∀ correct total : Int, 0 ≤ correct → correct ≤ total → 1 ≤ total →
      score correct total = .ok (halfUp correct total) := by
  intro h
  have hscore : score 23 40 = .ok 57 := by
    rw [score_eq (by decide) (by decide) (by decide)]
    decide +kernel
  have hexact := h 23 40 (by decide) (by decide) (by decide)
  rw [hscore] at hexact
  revert hexact
  decide

/-! ## Order -/

/-- The place of a grade, counted from the lowest. -/
def Grade.rank : Grade → Nat
  | .needsImprovement => 0
  | .passing => 1
  | .average => 2
  | .good => 3
  | .excellent => 4

instance : LE Grade where
  le g h := g.rank ≤ h.rank

/-- **A higher score is never graded lower.** -/
theorem Grade.ofScore_mono {n k : Int} (h : n ≤ k) : Grade.ofScore n ≤ Grade.ofScore k := by
  show (Grade.ofScore n).rank ≤ (Grade.ofScore k).rank
  simp only [Grade.ofScore]
  split_ifs <;> first | decide | omega

/-- Percentages of two parts of a whole are between 0 and 100 and in order. -/
theorem percentage_mono {fewer more whole : Int} (h0 : 0 ≤ fewer) (hle : fewer ≤ more)
    (hmore : more ≤ whole) (hpos : 0 < whole) :
    ∃ n k, percentage fewer whole = .ok n ∧ percentage more whole = .ok k ∧
      0 ≤ n ∧ n ≤ k ∧ k ≤ 100 := by
  have hwhole : (0 : Rat) < whole := by exact_mod_cast hpos
  obtain ⟨hfewer0, hfewer1⟩ := share_bounds h0 (hle.trans hmore) hpos
  obtain ⟨hmore0, hmore1⟩ := share_bounds (h0.trans hle) hmore hpos
  have hshares : (fewer : Rat) / whole ≤ more / whole :=
    div_le_div_of_nonneg_right (by exact_mod_cast hle) hwhole.le
  exact ⟨_, _, percentage_eq h0 (hle.trans hmore) hpos, percentage_eq (h0.trans hle) hmore hpos,
    (percentageOf_bounds hfewer0 hfewer1).1, percentageOf_mono hfewer0 hshares,
    (percentageOf_bounds hmore0 hmore1).2⟩

theorem percentage_zero {whole : Int} (hpos : 0 < whole) : percentage 0 whole = .ok 0 := by
  rw [percentage_eq le_rfl hpos.le hpos, Int.cast_zero, zero_div, percentageOf_zero]

theorem percentage_whole {whole : Int} (hpos : 0 < whole) : percentage whole whole = .ok 100 := by
  have hwhole : (whole : Rat) ≠ 0 := by exact_mod_cast hpos.ne'
  rw [percentage_eq hpos.le le_rfl hpos, div_self hwhole, percentageOf_one]

namespace Round

/-- With problems the progress is the percentage of the place on show, counted from one. -/
theorem progress_eq {r : Round} (hpos : 0 < r.size) :
    r.progress = percentage (r.index + 1) r.size := by
  have hne : r.problems ≠ [] := by
    intro hnil
    rw [size, hnil] at hpos
    exact absurd hpos (by decide)
  rw [progress, if_neg (by simpa using hne)]

/-- The progress of two rounds of one size is between 0 and 100 and in the order of the places. -/
theorem progress_mono {r later : Round} (hsize : r.size = later.size) (h0 : 0 ≤ r.index)
    (hle : r.index ≤ later.index) (hlt : later.index < later.size) :
    ∃ n k, r.progress = .ok n ∧ later.progress = .ok k ∧ 0 ≤ n ∧ n ≤ k ∧ k ≤ 100 ∧
      (later.index = later.lastIndex → k = 100) := by
  have hpos : 0 < later.size := by omega
  obtain ⟨n, k, hn, hk, hbounds⟩ := percentage_mono (show 0 ≤ r.index + 1 by omega)
    (show r.index + 1 ≤ later.index + 1 by omega) (show later.index + 1 ≤ later.size by omega) hpos
  refine ⟨n, k, ?_, (progress_eq hpos).trans hk, hbounds.1, hbounds.2.1, hbounds.2.2, ?_⟩
  · rw [progress_eq (hsize ▸ hpos), hsize, hn]
  · intro hlast
    rw [show later.index + 1 = later.size by rw [hlast, lastIndex]; omega,
      percentage_whole hpos] at hk
    cases hk
    rfl

end Round

/-- **Scores are between 0 and 100, in the order of the right answers, and so are the grades**, for
sets of any size; no right answer scores 0, and all right ones 100. The progress of a round is
bounded and ordered likewise and 100 at the last problem. -/
theorem score_mono {fewer more total : Int} (h0 : 0 ≤ fewer) (hle : fewer ≤ more)
    (hmore : more ≤ total) (hpos : 0 < total) :
    (∃ n k, score fewer total = .ok n ∧ score more total = .ok k ∧ 0 ≤ n ∧ n ≤ k ∧ k ≤ 100 ∧
      Grade.ofScore n ≤ Grade.ofScore k) ∧
    score 0 total = .ok 0 ∧ score total total = .ok 100 ∧
    ∀ r later : Round, r.size = later.size → 0 ≤ r.index → r.index ≤ later.index →
      later.index < later.size →
      ∃ n k, r.progress = .ok n ∧ later.progress = .ok k ∧ 0 ≤ n ∧ n ≤ k ∧ k ≤ 100 ∧
        (later.index = later.lastIndex → k = 100) := by
  obtain ⟨n, k, hn, hk, h0n, hnk, hk100⟩ := percentage_mono h0 hle hmore hpos
  exact ⟨⟨n, k, score_of_percentage hpos hn, score_of_percentage hpos hk, h0n, hnk, hk100,
      Grade.ofScore_mono hnk⟩,
    score_of_percentage hpos (percentage_zero hpos),
    score_of_percentage hpos (percentage_whole hpos), fun _ _ => Round.progress_mono⟩

/-- The numbers are beyond every double. -/
theorem score_mono_of_huge :
    (∃ n k, score (10 ^ 400) (3 * 10 ^ 400) = .ok n ∧ score (2 * 10 ^ 400) (3 * 10 ^ 400) = .ok k ∧
      0 ≤ n ∧ n ≤ k ∧ k ≤ 100 ∧ Grade.ofScore n ≤ Grade.ofScore k) ∧
    score 0 (3 * 10 ^ 400) = .ok 0 ∧ score (3 * 10 ^ 400) (3 * 10 ^ 400) = .ok 100 ∧
    ∀ r later : Round, r.size = later.size → 0 ≤ r.index → r.index ≤ later.index →
      later.index < later.size →
      ∃ n k, r.progress = .ok n ∧ later.progress = .ok k ∧ 0 ≤ n ∧ n ≤ k ∧ k ≤ 100 ∧
        (later.index = later.lastIndex → k = 100) :=
  score_mono (by positivity) (by norm_num) (by norm_num) (by positivity)

end TimedQuiz
