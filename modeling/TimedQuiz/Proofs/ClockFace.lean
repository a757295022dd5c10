import Mathlib.Algebra.Ring.Int.Defs
import Mathlib.Data.List.Basic
import Mathlib.Data.List.Induction
import TimedQuiz.ClockFace
import TimedQuiz.Proofs.Number.Reading

/-!
# The time that a clock face shows

A clock face is a decimal, a colon, and two digits that denote less than sixty. Each time from zero
on has a clock face of its own, until the minutes have more digits than an integer may have.

* `IsDecimal` — digits with no zero in front of others;
* `timeShown?` — the seconds that a text shows, if it is a clock face;
* `face` — the clock face of a time, however long.

Main statements: `toDigits_ofDigitChars` — a decimal is the only one of its number;
`timeShown?_eq_some_iff` — the texts that show a time are the clock faces; `clockFace_eq` — which
times are shown; `clockFace_tells_time` — what a clock face looks like, and that it can be read
back.
-/

namespace TimedQuiz

open Nat (toDigits ofDigitChars)

/-- Digits with no zero in front of others. -/
def IsDecimal (cs : List Char) : Prop :=
  cs ≠ [] ∧ (∀ c ∈ cs, c.isDigit = true) ∧ (cs.head? = some '0' → cs = ['0'])

instance (cs : List Char) : Decidable (IsDecimal cs) := inferInstanceAs (Decidable (_ ∧ _ ∧ _))

/-- The seconds that a text shows: minutes as a decimal, a colon and two digits below sixty. -/
def timeShown? (text : String) : Option Nat :=
  match Number.cutAt (· == ':') text.toList with
  | (minutes, some [tens, units]) =>
    let seconds := ofDigitChars 10 [tens, units] 0
    if IsDecimal minutes ∧ tens.isDigit = true ∧ units.isDigit = true ∧ seconds < 60 then
      some (60 * ofDigitChars 10 minutes 0 + seconds)
    else none
  | _ => none

/-! ## Decimals -/

theorem exists_digitChar {c : Char} (h : c.isDigit = true) : ∃ d < 10, c = Nat.digitChar d := by
  have hc : 48 ≤ c.toNat ∧ c.toNat ≤ 57 := Char.isDigit_iff_toNat.mp h
  refine ⟨c.toNat - 48, by omega, Char.toNat_inj.mp ?_⟩
  rw [Nat.toNat_digitChar_of_lt_ten (by omega)]
  omega

/-- Only zero is written with a zero in front. -/
theorem eq_zero_of_head?_toDigits (n : Nat) (h : (toDigits 10 n).head? = some '0') : n = 0 := by
  induction n using Nat.strongRecOn with
  | ind n ih =>
    rw [Nat.toDigits_eq_if (by decide)] at h
    split at h
    · exact Nat.digitChar_eq_zero.mp (Option.some.inj h)
    · rename_i hten
      -- the last digit is not the first one
      rw [List.head?_append_of_ne_nil _ Nat.toDigits_ne_nil] at h
      have := ih (n / 10) (by omega) h
      omega

theorem isDecimal_toDigits (n : Nat) : IsDecimal (toDigits 10 n) := by
  refine ⟨Nat.toDigits_ne_nil, fun c hc => Nat.isDigit_of_mem_toDigits (by decide) (by decide) hc,
    fun h => ?_⟩
  rw [eq_zero_of_head?_toDigits n h, Nat.toDigits_zero]

/-- **A decimal is the only one of its number.** -/
theorem toDigits_ofDigitChars {cs : List Char} (h : IsDecimal cs) :
    toDigits 10 (ofDigitChars 10 cs 0) = cs := by
  induction cs using List.reverseRecOn with
  | nil => exact absurd rfl h.1
  | append_singleton cs c ih =>
    obtain ⟨-, hdigits, hzero⟩ := h
    obtain ⟨hcs, hc⟩ := List.forall_mem_append.mp hdigits
    obtain ⟨d, hd, rfl⟩ := exists_digitChar (hc c (List.mem_singleton_self c))
    rw [Nat.ofDigitChars_append, Nat.ofDigitChars_cons_digitChar_of_lt_ten hd, Nat.ofDigitChars_nil]
    by_cases hnil : cs = []
    · subst hnil
      rw [Nat.ofDigitChars_nil, Nat.mul_zero, Nat.zero_add, Nat.toDigits_of_lt_base hd,
        List.nil_append]
    · have hfront : cs.head? ≠ some '0' := by
        intro hhead
        have hlength := congrArg List.length (hzero (by rwa [List.head?_append_of_ne_nil _ hnil]))
        exact hnil (List.length_eq_zero_iff.mp (by simpa using hlength))
      have hdecimal := ih ⟨hnil, hcs, fun hhead => absurd hhead hfront⟩
      have hpos : 0 < ofDigitChars 10 cs 0 := by
        refine Nat.pos_of_ne_zero fun hvalue => hfront ?_
        rw [← hdecimal, hvalue, Nat.toDigits_zero]
        rfl
      rw [← Nat.toDigits_append_toDigits (by decide) hpos hd, hdecimal,
        Nat.toDigits_of_lt_base hd]

/-! ## Two digits -/

theorem length_twoDigits (n : Nat) : (twoDigits n).length = 2 := rfl

theorem isDigit_of_mem_twoDigits {n : Nat} {c : Char} (h : c ∈ twoDigits n) : c.isDigit = true := by
  simp only [twoDigits, List.mem_cons, List.not_mem_nil, or_false] at h
  rcases h with rfl | rfl <;> rw [Nat.isDigit_digitChar, decide_eq_true_iff] <;> omega

theorem ofDigitChars_twoDigits {n : Nat} (h : n < 100) : ofDigitChars 10 (twoDigits n) 0 = n := by
  rw [twoDigits, Nat.ofDigitChars_cons_digitChar_of_lt_ten (by omega),
    Nat.ofDigitChars_cons_digitChar_of_lt_ten (by omega), Nat.ofDigitChars_nil]
  omega

theorem twoDigits_ofDigitChars {t u : Char} (ht : t.isDigit = true) (hu : u.isDigit = true) :
    twoDigits (ofDigitChars 10 [t, u] 0) = [t, u] := by
  obtain ⟨d, hd, rfl⟩ := exists_digitChar ht
  obtain ⟨e, he, rfl⟩ := exists_digitChar hu
  rw [Nat.ofDigitChars_cons_digitChar_of_lt_ten hd, Nat.ofDigitChars_cons_digitChar_of_lt_ten he,
    Nat.ofDigitChars_nil, twoDigits]
  have htens : (10 * (10 * 0 + d) + e) / 10 % 10 = d := by omega
  have hunits : (10 * (10 * 0 + d) + e) % 10 = e := by omega
  rw [htens, hunits]

/-! ## Clock faces -/

/-- The clock face of a time, however long. -/
def face (n : Nat) : String := String.ofList (toDigits 10 (n / 60) ++ ':' :: twoDigits (n % 60))

theorem toList_face (n : Nat) :
    (face n).toList = toDigits 10 (n / 60) ++ ':' :: twoDigits (n % 60) :=
  String.toList_ofList

/-- A text of a decimal, a colon and two digits shows what they denote. -/
theorem timeShown?_of_isDecimal {text : String} {m : List Char} {t u : Char}
    (htext : text.toList = m ++ ':' :: [t, u]) (hm : IsDecimal m) (ht : t.isDigit = true)
    (hu : u.isDigit = true) (hsixty : ofDigitChars 10 [t, u] 0 < 60) :
    timeShown? text = some (60 * ofDigitChars 10 m 0 + ofDigitChars 10 [t, u] 0) := by
  have hcolon : ∀ c ∈ m, (c == ':') = false := by
    intro c hc
    have hdigit := hm.2.1 c hc
    refine beq_eq_false_iff_ne.mpr ?_
    rintro rfl
    cases hdigit
  rw [timeShown?, htext, Number.cutAt_append hcolon rfl]
  exact if_pos ⟨hm, ht, hu, hsixty⟩

/-- A text that shows a time is of this form. -/
theorem exists_of_timeShown? {text : String} {n : Nat} (h : timeShown? text = some n) :
    ∃ m t u, text.toList = m ++ ':' :: [t, u] ∧ IsDecimal m ∧ t.isDigit = true ∧
      u.isDigit = true ∧ ofDigitChars 10 [t, u] 0 < 60 ∧
      n = 60 * ofDigitChars 10 m 0 + ofDigitChars 10 [t, u] 0 := by
  rcases Number.cutAt_cases (· == ':') text.toList with hcut | ⟨m, c, r, htext, hc, hcut⟩
  · rw [timeShown?, hcut] at h
    cases h
  · obtain rfl : c = ':' := by simpa using hc
    rw [timeShown?, hcut] at h
    match r, h with
    | [t, u], h =>
      dsimp only at h
      split at h
      · rename_i hface
        obtain ⟨hm, ht, hu, hsixty⟩ := hface
        exact ⟨m, t, u, htext, hm, ht, hu, hsixty, (Option.some.inj h).symm⟩
      · cases h

/-- **The texts that show a time are the clock faces**, each its own time. -/
theorem timeShown?_eq_some_iff {text : String} {n : Nat} :
    timeShown? text = some n ↔ text = face n := by
  constructor
  · intro h
    obtain ⟨m, t, u, htext, hm, ht, hu, hsixty, rfl⟩ := exists_of_timeShown? h
    have hminutes : (60 * ofDigitChars 10 m 0 + ofDigitChars 10 [t, u] 0) / 60 =
        ofDigitChars 10 m 0 := by omega
    have hseconds : (60 * ofDigitChars 10 m 0 + ofDigitChars 10 [t, u] 0) % 60 =
        ofDigitChars 10 [t, u] 0 := by omega
    rw [← String.toList_inj, htext, toList_face, hminutes, hseconds,
      toDigits_ofDigitChars hm, twoDigits_ofDigitChars ht hu]
  · rintro rfl
    have hseconds : ofDigitChars 10 (twoDigits (n % 60)) 0 = n % 60 :=
      ofDigitChars_twoDigits (by omega)
    have hdigits : ∀ c ∈ twoDigits (n % 60), c.isDigit = true := fun _ => isDigit_of_mem_twoDigits
    calc timeShown? (face n)
        = some (60 * ofDigitChars 10 (toDigits 10 (n / 60)) 0 +
            ofDigitChars 10 (twoDigits (n % 60)) 0) :=
          timeShown?_of_isDecimal (toList_face n) (isDecimal_toDigits (n / 60))
            (hdigits _ (by simp [twoDigits])) (hdigits _ (by simp [twoDigits]))
            (hseconds.trans_lt (Nat.mod_lt n (by decide)))
      _ = some n := by
          rw [Nat.ofDigitChars_ten_toDigits, hseconds]
          congr 1
          omega

/-! ## The times that are shown -/

/-- A number has at most as many digits as an integer may have if it is below a power of ten. -/
theorem isWritable_natCast_iff {n : Nat} :
    Number.isWritable n = true ↔ n < 10 ^ Number.maxDigits := by
  rw [Number.isWritable, decide_eq_true_iff, Int.natAbs_natCast,
    Nat.length_toDigits_le_iff (by decide) (by decide)]

/-- **The clock shows a time unless its minutes have too many digits**; times before zero show as
zero. -/
theorem clockFace_eq (s : Int) :
    clockFace s =
      if s < 60 * 10 ^ Number.maxDigits then .ok (face s.toNat) else .error .tooLong := by
  have hminutes : Number.isWritable (s.toNat / 60 : Nat) = true ↔
      s < 60 * 10 ^ Number.maxDigits := by
    have hcast : ((10 ^ Number.maxDigits : Nat) : Int) = 10 ^ Number.maxDigits := Nat.cast_pow _ _
    have hlimit : 0 < 10 ^ Number.maxDigits := Nat.pow_pos (by decide)
    rw [isWritable_natCast_iff, ← hcast]
    generalize 10 ^ Number.maxDigits = limit at hlimit
    omega
  by_cases hs : s < 60 * 10 ^ Number.maxDigits
  · have htext : toString ((s.toNat / 60 : Nat) : Int) =
        String.ofList (toDigits 10 (s.toNat / 60)) := rfl
    rw [clockFace, Number.decimal, if_pos (hminutes.mpr hs), if_pos hs, htext]
    refine congrArg Except.ok (String.toList_inj.mp ?_)
    simp only [toList_face, String.toList_append, String.toList_ofList, List.append_assoc]
    rfl
  · rw [clockFace, Number.decimal, if_neg (mt hminutes.mp hs), if_neg hs]
    rfl

/-- A clock face can be read back. -/
theorem timeShown?_of_clockFace {s : Int} {text : String} (h : clockFace s = .ok text) :
    timeShown? text = some s.toNat := by
  rw [clockFace_eq] at h
  split at h
  · exact timeShown?_eq_some_iff.mpr (Except.ok.inj h).symm
  · cases h

/-- **A clock face tells the time.** It is a decimal, a colon and two digits that denote less than
sixty, together the seconds that have passed, none before zero; so it can be read back, and
different times from zero on have different clock faces. From the time on whose minutes have more
digits than an integer may have there is none. -/
theorem clockFace_tells_time (s : Int) :
    (s < 60 * 10 ^ Number.maxDigits →
      ∃ (m r : List Char) (M R : Nat), clockFace s = .ok (String.ofList (m ++ ':' :: r)) ∧
        IsDecimal m ∧ ofDigitChars 10 m 0 = M ∧
        r.length = 2 ∧ (∀ c ∈ r, c.isDigit = true) ∧ ofDigitChars 10 r 0 = R ∧ R < 60 ∧
        60 * (M : Int) + R = max 0 s) ∧
    (60 * 10 ^ Number.maxDigits ≤ s → clockFace s = .error .tooLong) ∧
    ∀ text, clockFace s = .ok text →
      (∃ n, timeShown? text = some n ∧ (n : Int) = max 0 s) ∧
      ∀ t, clockFace t = .ok text ↔ max 0 s = max 0 t := by
  refine ⟨fun hs => ?_, fun hs => ?_, fun text h => ⟨?_, fun t => ?_⟩⟩
  · exact ⟨toDigits 10 (s.toNat / 60), twoDigits (s.toNat % 60), s.toNat / 60, s.toNat % 60,
      (clockFace_eq s).trans (if_pos hs), isDecimal_toDigits _, Nat.ofDigitChars_ten_toDigits,
      length_twoDigits _, fun _ => isDigit_of_mem_twoDigits, ofDigitChars_twoDigits (by omega),
      by omega, by omega⟩
  · rw [clockFace_eq, if_neg (not_lt.mpr hs)]
  · exact ⟨s.toNat, timeShown?_of_clockFace h, by omega⟩
  · constructor
    · intro ht
      have := (timeShown?_of_clockFace h).symm.trans (timeShown?_of_clockFace ht)
      have := Option.some.inj this
      omega
    · intro hmax
      have hsame : t.toNat = s.toNat := by omega
      rw [← h, clockFace, clockFace, hsame]

/-- Not every time is shown: the minutes of this one have one digit too many. -/
theorem clockFace_of_long_time :
    clockFace (60 * 10 ^ 4300) = .error .tooLong ∧
      ¬ ∀ s : Int, ∃ m r : List Char, clockFace s = .ok (String.ofList (m ++ ':' :: r)) := by
  have htoo : clockFace (60 * 10 ^ Number.maxDigits) = .error .tooLong := by
    rw [clockFace_eq, if_neg (lt_irrefl _)]
  refine ⟨htoo, fun hall => ?_⟩
  obtain ⟨m, r, hshown⟩ := hall (60 * 10 ^ Number.maxDigits)
  rw [htoo] at hshown
  cases hshown

end TimedQuiz
