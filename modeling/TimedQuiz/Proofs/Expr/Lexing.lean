import Mathlib.Data.List.Chain
import TimedQuiz.Expr.Token

/-!
# Tokens and the text that they spell

* `spell` — the text of a token list;
* `Separated` — no two numerals stand side by side.

Main statements: `lex_eq_ok_iff` — the tokens of a text are the only separated ones that spell it;
`lex_foreign_iff` — a text is foreign if it is empty or leaves the alphabet.
-/

namespace TimedQuiz.Expr

/-- The text of a token list. -/
def spell (ts : List Token) : List Char := ts.flatMap Token.chars

@[simp] theorem spell_nil : spell [] = [] := rfl

@[simp] theorem spell_cons (t : Token) (ts : List Token) :
    spell (t :: ts) = t.chars ++ spell ts := rfl

/-- The token is a numeral. -/
def Token.IsNumber : Token → Prop
  | .number _ => True
  | _ => False

/-- No two numerals stand side by side. -/
def Separated (ts : List Token) : Prop := ts.IsChain fun t u => ¬ (t.IsNumber ∧ u.IsNumber)

theorem Separated.cons {t : Token} {ts : List Token} (h : Separated ts) (ht : ¬ t.IsNumber) :
    Separated (t :: ts) := by
  cases ts with
  | nil => exact List.isChain_singleton _
  | cons u us => exact List.isChain_cons_cons.mpr ⟨fun hu => ht hu.1, h⟩

theorem separated_flush (hand : Option Numeral) : Separated (flush hand) := by
  cases hand with
  | none => exact List.isChain_nil
  | some n => exact List.isChain_singleton _

theorem separated_flush_append (hand : Option Numeral) {t : Token} {ts : List Token}
    (h : Separated ts) (ht : ¬ t.IsNumber) : Separated (flush hand ++ t :: ts) := by
  cases hand with
  | none => exact h.cons ht
  | some n => exact List.isChain_cons_cons.mpr ⟨fun hnumbers => ht hnumbers.2, h.cons ht⟩

/-! ## The alphabet -/

/-- The characters of arithmetic. -/
def alphabet : List Char :=
  ['0', '1', '2', '3', '4', '5', '6', '7', '8', '9', '+', '-', '*', '/', '(', ')', '.']

theorem mem_alphabet_of_isDigit {c : Char} (h : c.isDigit = true) : c ∈ alphabet := by
  have hall : ∀ n < 58, 48 ≤ n → Char.ofNat n ∈ alphabet := by decide
  have hc : 48 ≤ c.toNat ∧ c.toNat ≤ 57 := Char.isDigit_iff_toNat.mp h
  have := hall c.toNat (by omega) hc.1
  rwa [Char.ofNat_toNat] at this

theorem Token.ofSymbol?_eq_some {c : Char} {t : Token} (h : Token.ofSymbol? c = some t) :
    t.chars = [c] ∧ ¬ t.IsNumber ∧ c ∈ alphabet := by
  unfold Token.ofSymbol? at h
  split at h <;> cases h <;> exact ⟨rfl, id, by decide⟩

theorem inAlphabet_iff {c : Char} : inAlphabet c = true ↔ c ∈ alphabet := by
  constructor
  · intro h
    simp only [inAlphabet, Bool.or_eq_true, beq_iff_eq] at h
    rcases h with (h | rfl) | h
    · exact mem_alphabet_of_isDigit h
    · decide
    · obtain ⟨t, ht⟩ := Option.isSome_iff_exists.mp h
      exact (Token.ofSymbol?_eq_some ht).2.2
  · have hall : alphabet.all inAlphabet = true := by decide
    exact List.all_eq_true.mp hall c

theorem Digit.char_mem_alphabet (d : Digit) : d.char ∈ alphabet := by
  revert d; decide

theorem Token.chars_mem_alphabet (t : Token) : ∀ c ∈ t.chars, c ∈ alphabet := by
  cases t with
  | number n =>
    obtain ⟨first, more, fraction⟩ := n
    intro c hc
    simp only [chars, Numeral.chars, List.mem_append, List.mem_map] at hc
    rcases hc with ⟨d, -, rfl⟩ | hc
    · exact d.char_mem_alphabet
    · cases fraction with
      | none => cases hc
      | some ds =>
        rcases List.mem_cons.mp hc with rfl | hc
        · decide
        · obtain ⟨d, -, rfl⟩ := List.mem_map.mp hc
          exact d.char_mem_alphabet
  | add op => cases op <;> exact List.forall_mem_singleton.mpr (by decide)
  | mul op => cases op <;> exact List.forall_mem_singleton.mpr (by decide)
  | opening => exact List.forall_mem_singleton.mpr (by decide)
  | closing => exact List.forall_mem_singleton.mpr (by decide)

theorem mem_alphabet_of_mem_spell {ts : List Token} : ∀ c ∈ spell ts, c ∈ alphabet := by
  intro c hc
  obtain ⟨t, -, ht⟩ := List.mem_flatMap.mp hc
  exact t.chars_mem_alphabet c ht

theorem Token.chars_ne_nil (t : Token) : t.chars ≠ [] := by
  cases t with
  | number n => simp [chars, Numeral.chars]
  | add op => cases op <;> decide
  | mul op => cases op <;> decide
  | opening => decide
  | closing => decide

/-- A token that is no numeral is the one that its only character makes up. -/
theorem Token.chars_of_not_isNumber {t : Token} (h : ¬ t.IsNumber) :
    ∃ c, t.chars = [c] ∧ Token.ofSymbol? c = some t ∧ Digit.ofChar? c = none := by
  cases t with
  | number n => exact absurd trivial h
  | add op => cases op <;> exact ⟨_, rfl, rfl, rfl⟩
  | mul op => cases op <;> exact ⟨_, rfl, rfl, rfl⟩
  | opening => exact ⟨_, rfl, rfl, rfl⟩
  | closing => exact ⟨_, rfl, rfl, rfl⟩

/-! ## Scanning -/

theorem Digit.ofChar?_eq_some {c : Char} {d : Digit} (h : Digit.ofChar? c = some d) :
    d.char = c := by
  unfold Digit.ofChar? at h
  split at h
  · rename_i hc
    have hall : ∀ n < 58, 48 ≤ n → Digit.char (Fin.ofNat 10 (n - 48)) = Char.ofNat n := by decide
    have hr : 48 ≤ c.toNat ∧ c.toNat ≤ 57 := Char.isDigit_iff_toNat.mp hc
    cases h
    rw [hall c.toNat (by omega) hr.1, Char.ofNat_toNat]
  · cases h

theorem scan_symbol {c : Char} {t : Token} (hand : Option Numeral) (cs : List Char)
    (ht : Token.ofSymbol? c = some t) (hd : Digit.ofChar? c = none) :
    scan hand (c :: cs) = (scan none cs).map fun ts => flush hand ++ t :: ts := by
  simp only [scan, hd, ht]
  cases scan none cs <;> rfl

/-- Digits go to the numeral at hand. -/
theorem scan_digits (n : Numeral) (ds : List Digit) (cs : List Char) :
    scan (some n) (ds.map Digit.char ++ cs) = scan (some (ds.foldl Numeral.snoc n)) cs := by
  induction ds generalizing n with
  | nil => rfl
  | cons d ds ih =>
    simp only [List.map_cons, List.cons_append, scan, Digit.ofChar?_char, List.foldl_cons]
    exact ih (n.snoc d)

theorem foldl_snoc_whole (first : Digit) (more ds : List Digit) :
    ds.foldl Numeral.snoc ⟨first, more, none⟩ = ⟨first, more ++ ds, none⟩ := by
  induction ds generalizing more with
  | nil => simp
  | cons d ds ih => simp [Numeral.snoc, ih]

theorem foldl_snoc_fraction (first : Digit) (more places ds : List Digit) :
    ds.foldl Numeral.snoc ⟨first, more, some places⟩ = ⟨first, more, some (places ++ ds)⟩ := by
  induction ds generalizing places with
  | nil => simp
  | cons d ds ih => simp [Numeral.snoc, ih]

/-- A whole numeral comes to hand. -/
theorem scan_numeral (n : Numeral) (cs : List Char) :
    scan none (n.chars ++ cs) = scan (some n) cs := by
  obtain ⟨first, more, fraction⟩ := n
  simp only [Numeral.chars, List.map_cons, List.cons_append, List.append_assoc, scan,
    Digit.ofChar?_char]
  rw [scan_digits, foldl_snoc_whole]
  cases fraction with
  | none => rfl
  | some ds =>
    have hpoint : Digit.ofChar? '.' = none ∧ Token.ofSymbol? '.' = none := ⟨rfl, rfl⟩
    simp only [List.nil_append, List.cons_append, scan, hpoint.1, hpoint.2, if_pos]
    rw [scan_digits, foldl_snoc_fraction]
    rfl

/-- Scanning finds the tokens behind what they spell; the numeral at hand comes before them, and no
numeral follows it at once. -/
theorem scan_spell (ts : List Token) (hand : Option Numeral)
    (hs : Separated (flush hand ++ ts)) : scan hand (spell ts) = .ok (flush hand ++ ts) := by
  induction ts generalizing hand with
  | nil => simp [scan]
  | cons t ts ih =>
    by_cases ht : t.IsNumber
    · -- a numeral: nothing can be at hand, and it comes to hand itself
      cases t with
      | number n =>
        cases hand with
        | none =>
          rw [spell_cons, Token.chars, scan_numeral, ih (some n) hs]
          rfl
        | some m => exact absurd ⟨trivial, trivial⟩ (List.isChain_cons_cons.mp hs).1
      | _ => cases ht
    · obtain ⟨c, hc, hsym, hd⟩ := Token.chars_of_not_isNumber ht
      have htail : Separated ts := (List.isChain_append.mp hs).2.1.tail
      rw [spell_cons, hc, List.cons_append, List.nil_append, scan_symbol hand _ hsym hd,
        ih none htail]
      rfl

/-- What scanning finds spells the text, and is separated. -/
theorem spell_of_scan {cs : List Char} {hand : Option Numeral} {ts : List Token}
    (h : scan hand cs = .ok ts) :
    spell ts = spell (flush hand) ++ cs ∧ Separated ts ∧
      (hand.isSome → ∃ n us, ts = .number n :: us) := by
  induction cs generalizing hand ts with
  | nil =>
    cases h
    cases hand with
    | none => exact ⟨rfl, List.isChain_nil, by simp⟩
    | some n => exact ⟨by simp [flush], List.isChain_singleton _, fun _ => ⟨n, [], rfl⟩⟩
  | cons c cs ih =>
    cases hd : Digit.ofChar? c with
    | some d =>
      have hc : d.char = c := Digit.ofChar?_eq_some hd
      cases hand with
      | none =>
        simp only [scan, hd] at h
        obtain ⟨h1, h2, -⟩ := ih h
        exact ⟨by rw [h1, ← hc]; rfl, h2, by simp⟩
      | some n =>
        simp only [scan, hd] at h
        obtain ⟨h1, h2, h3⟩ := ih h
        refine ⟨?_, h2, fun _ => h3 rfl⟩
        rw [h1, ← hc]
        simp [flush, Token.chars, Numeral.chars_snoc]
    | none =>
      cases ht : Token.ofSymbol? c with
      | some t =>
        rw [scan_symbol hand cs ht hd] at h
        cases hr : scan none cs with
        | error e => rw [hr] at h; cases h
        | ok us =>
          rw [hr] at h
          cases h
          obtain ⟨h1, h2, -⟩ := ih hr
          obtain ⟨hchars, hnum, -⟩ := Token.ofSymbol?_eq_some ht
          have hseparated := separated_flush_append hand h2 hnum
          cases hand with
          | none => exact ⟨by simp [flush, hchars, h1], hseparated, by simp⟩
          | some n =>
            exact ⟨by simp [flush, hchars, h1], hseparated, fun _ => ⟨n, t :: us, rfl⟩⟩
      | none =>
        match hand with
        | none => simp only [scan, hd, ht] at h; cases h
        | some ⟨first, more, some ds⟩ => simp only [scan, hd, ht] at h; cases h
        | some ⟨first, more, none⟩ =>
          simp only [scan, hd, ht] at h
          split at h
          · rename_i hc
            obtain ⟨h1, h2, h3⟩ := ih h
            refine ⟨?_, h2, fun _ => h3 rfl⟩
            rw [h1, hc]
            simp [flush, Token.chars, Numeral.chars]
          · cases h

/-- Scanning finds fault with numerals only. -/
theorem brokenNumber_of_scan {cs : List Char} {hand : Option Numeral} {e : Rejection}
    (h : scan hand cs = .error e) : e = .brokenNumber := by
  fun_induction scan hand cs with
  | case1 hand => cases h
  | case2 d _ _ _ ih => exact ih h
  | case3 d _ _ _ _ ih => exact ih h
  | case4 c cs t hand _ _ ih =>
    cases hr : scan none cs with
    | ok us => rw [hr] at h; cases h
    | error e' => rw [hr] at h ih; cases h; exact ih rfl
  | case5 _ _ _ _ _ ih => exact ih h
  | case6 => cases h; rfl
  | case7 => cases h; rfl

/-! ## The tokens of a text -/

/-- **A text is foreign if it is empty or leaves the alphabet.** -/
theorem lex_foreign_iff {cs : List Char} :
    lex cs = .error .foreignCharacter ↔ cs = [] ∨ ∃ c ∈ cs, c ∉ alphabet := by
  unfold lex
  split
  · rename_i h
    simpa [inAlphabet_iff] using h
  · rename_i h
    have hne : scan none cs ≠ .error .foreignCharacter := fun hscan =>
      nomatch brokenNumber_of_scan hscan
    simp only [hne, false_iff]
    simpa [inAlphabet_iff] using h

/-- A text that has no tokens is foreign or has a broken number. -/
theorem lex_error_cases {cs : List Char} {e : Rejection} (h : lex cs = .error e) :
    e = .foreignCharacter ∨ e = .brokenNumber := by
  unfold lex at h
  split at h
  · cases h
    exact .inl rfl
  · exact .inr (brokenNumber_of_scan h)

/-- **The tokens of a text are the only separated ones that spell it.** -/
theorem lex_eq_ok_iff {cs : List Char} {ts : List Token} :
    lex cs = .ok ts ↔ ts ≠ [] ∧ Separated ts ∧ spell ts = cs := by
  constructor
  · intro h
    unfold lex at h
    split at h
    · cases h
    · rename_i hcs
      obtain ⟨h1, h2, -⟩ := spell_of_scan h
      refine ⟨?_, h2, h1⟩
      rintro rfl
      have : cs = [] := h1.symm
      simp [this] at hcs
  · rintro ⟨hne, hs, rfl⟩
    have hin : ∀ c ∈ spell ts, c ∈ alphabet := mem_alphabet_of_mem_spell
    have hnil : spell ts ≠ [] := by
      obtain ⟨t, us, rfl⟩ := List.exists_cons_of_ne_nil hne
      simp [t.chars_ne_nil]
    unfold lex
    rw [if_neg]
    · exact scan_spell ts none hs
    · simpa [inAlphabet_iff, hnil] using hin

end TimedQuiz.Expr
