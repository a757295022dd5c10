import TimedQuiz.Proofs.Expr.Lexing

/-!
# Splitting a text into tokens

The tokens can be found by a search from left to right, which takes the longest numeral or the
symbol that comes next and passes over what is neither; what it found is then held against the
text. A character is lost exactly where a run of digits and points is no numeral.

* `found`, `search` — the search, without and with the comparison;
* `IsRun` — the stretches of digits and points that cannot be made longer;
* `Splits` — the texts of tokens that make up a text.

Main statements: `lex_eq_search` — the search gives the tokens of a text; `exists_lex_eq_ok_iff` —
there are tokens where all runs are numerals; `lex_splits` — which texts have tokens, and which.
-/

namespace TimedQuiz.Expr

variable {s rest : List Char}

/-! ## The search -/

/-- The digits at the front, as many as there are, and what follows them. -/
def leadingDigits : List Char → List Digit × List Char
  | [] => ([], [])
  | c :: cs =>
    match Digit.ofChar? c with
    | some d => (d :: (leadingDigits cs).1, (leadingDigits cs).2)
    | none => ([], c :: cs)

/-- The longest numeral with this first digit, and what follows it. -/
def longestNumeral (first : Digit) (cs : List Char) : Numeral × List Char :=
  match leadingDigits cs with
  | (more, '.' :: rest) =>
    (⟨first, more, some (leadingDigits rest).1⟩, (leadingDigits rest).2)
  | (more, rest) => (⟨first, more, none⟩, rest)

/-- The digits at the front are split off, and nothing is lost. -/
theorem leadingDigits_append (cs : List Char) :
    (leadingDigits cs).1.map Digit.char ++ (leadingDigits cs).2 = cs ∧
      ∀ c ∈ (leadingDigits cs).2.head?, Digit.ofChar? c = none := by
  induction cs with
  | nil => exact ⟨rfl, nofun⟩
  | cons c cs ih =>
    rw [leadingDigits]
    cases hc : Digit.ofChar? c with
    | none =>
      refine ⟨rfl, fun x hx => ?_⟩
      cases hx
      exact hc
    | some d =>
      refine ⟨?_, ih.2⟩
      rw [List.map_cons, List.cons_append, ih.1, Digit.ofChar?_eq_some hc]

/-- The numeral at the front is split off, nothing is lost, and no digit follows. -/
theorem longestNumeral_append (first : Digit) (cs : List Char) :
    (longestNumeral first cs).1.chars ++ (longestNumeral first cs).2 = first.char :: cs ∧
      ∀ c ∈ (longestNumeral first cs).2.head?, Digit.ofChar? c = none := by
  obtain ⟨hmore, hstop⟩ := leadingDigits_append cs
  unfold longestNumeral
  split
  · rename_i more rest hcut
    obtain ⟨hplaces, hstop'⟩ := leadingDigits_append rest
    rw [hcut] at hmore
    refine ⟨?_, hstop'⟩
    simp only [Numeral.chars, List.map_cons, List.cons_append, List.append_assoc, hplaces]
    rw [← hmore]
  · rename_i more rest _ hcut
    rw [hcut] at hmore hstop
    refine ⟨?_, hstop⟩
    simp only [Numeral.chars, List.map_cons, List.cons_append, List.append_nil]
    rw [← hmore]

/-- What the search finds: numerals, each as long as it can be, and symbols. What is neither is
passed over. -/
def found : List Char → List Token
  | [] => []
  | c :: cs =>
    match Digit.ofChar? c, Token.ofSymbol? c with
    | some d, _ => .number (longestNumeral d cs).1 :: found (longestNumeral d cs).2
    | none, some t => t :: found cs
    | none, none => found cs
termination_by s => s.length
decreasing_by
  · have hlength := congrArg List.length (longestNumeral_append d cs).1
    have hpos : 0 < (longestNumeral d cs).1.chars.length := by simp [Numeral.chars]
    simp only [List.length_append, List.length_cons] at hlength ⊢
    omega
  · exact Nat.lt_succ_self cs.length
  · exact Nat.lt_succ_self cs.length

/-- The tokens of a text within the alphabet, unless the search lost a character. -/
def search (s : List Char) : Except Rejection (List Token) :=
  if s.isEmpty || s.any (· ∉ alphabet) then .error .foreignCharacter
  else if spell (found s) = s then .ok (found s)
  else .error .brokenNumber

theorem leadingDigits_map (ds : List Digit) (hrest : ∀ c ∈ rest.head?, Digit.ofChar? c = none) :
    leadingDigits (ds.map Digit.char ++ rest) = (ds, rest) := by
  induction ds with
  | nil =>
    cases rest with
    | nil => rfl
    | cons c cs => simp [leadingDigits, hrest c rfl]
  | cons d ds ih => simp [leadingDigits, Digit.ofChar?_char, ih]

/-- A numeral that no digit or point follows is found whole. -/
theorem longestNumeral_chars (n : Numeral) (hdigit : ∀ c ∈ rest.head?, Digit.ofChar? c = none)
    (hpoint : rest.head? ≠ some '.') :
    ∃ cs, n.chars ++ rest = n.first.char :: cs ∧ longestNumeral n.first cs = (n, rest) := by
  obtain ⟨first, more, fraction⟩ := n
  cases fraction with
  | none =>
    refine ⟨more.map Digit.char ++ rest, by simp [Numeral.chars], ?_⟩
    rw [longestNumeral, leadingDigits_map more hdigit]
    split
    · rename_i heq
      cases heq
      exact absurd rfl hpoint
    · rename_i heq
      cases heq
      rfl
  | some ds =>
    refine ⟨more.map Digit.char ++ '.' :: (ds.map Digit.char ++ rest), by simp [Numeral.chars], ?_⟩
    have hmore : ∀ c ∈ ('.' :: (ds.map Digit.char ++ rest)).head?, Digit.ofChar? c = none := by
      rintro _ ⟨⟩
      rfl
    rw [longestNumeral, leadingDigits_map more hmore]
    simp only [leadingDigits_map ds hdigit]

theorem found_numeral (n : Numeral) (hdigit : ∀ c ∈ rest.head?, Digit.ofChar? c = none)
    (hpoint : rest.head? ≠ some '.') : found (n.chars ++ rest) = .number n :: found rest := by
  obtain ⟨cs, hchars, hlongest⟩ := longestNumeral_chars n hdigit hpoint
  rw [hchars, found, Digit.ofChar?_char]
  simp only [hlongest]

theorem found_symbol {c : Char} {t : Token} (cs : List Char) (hc : Token.ofSymbol? c = some t)
    (hd : Digit.ofChar? c = none) : found (c :: cs) = t :: found cs := by
  rw [found, hc, hd]

/-- What follows a numeral in separated tokens begins with neither a digit nor a point. -/
theorem Separated.head?_spell {n : Numeral} {ts : List Token} (h : Separated (.number n :: ts)) :
    (∀ c ∈ (spell ts).head?, Digit.ofChar? c = none) ∧ (spell ts).head? ≠ some '.' := by
  cases ts with
  | nil => exact ⟨nofun, nofun⟩
  | cons t ts =>
    have ht : ¬ t.IsNumber := fun ht => (List.isChain_cons_cons.mp h).1 ⟨trivial, ht⟩
    obtain ⟨c, hc, hsymbol, hdigit⟩ := Token.chars_of_not_isNumber ht
    rw [spell_cons, hc, List.singleton_append, List.head?_cons]
    refine ⟨?_, ?_⟩
    · rintro _ ⟨⟩
      exact hdigit
    · rintro ⟨⟩
      cases hsymbol

/-- Separated tokens are found in the text that they spell. -/
theorem found_spell {ts : List Token} (h : Separated ts) : found (spell ts) = ts := by
  induction ts with
  | nil => rw [spell_nil, found]
  | cons t ts ih =>
    have hts : found (spell ts) = ts := ih (List.IsChain.tail h)
    by_cases ht : t.IsNumber
    · cases t with
      | number n =>
        rw [spell_cons, Token.chars, found_numeral n h.head?_spell.1 h.head?_spell.2, hts]
      | _ => cases ht
    · obtain ⟨c, hc, hsymbol, hdigit⟩ := Token.chars_of_not_isNumber ht
      rw [spell_cons, hc, List.singleton_append, found_symbol _ hsymbol hdigit, hts]

/-- The search adds nothing to a text. -/
theorem length_spell_found_le (s : List Char) : (spell (found s)).length ≤ s.length := by
  fun_induction found s with
  | case1 => exact Nat.le_refl _
  | case2 c cs d hd ih =>
    have hlength := congrArg List.length (longestNumeral_append d cs).1
    simp only [spell_cons, Token.chars, List.length_append, List.length_cons] at hlength ⊢
    omega
  | case3 c cs t ht _ ih =>
    rw [spell_cons, (Token.ofSymbol?_eq_some ht).1]
    simpa using ih
  | case4 c cs _ _ ih => exact Nat.le_succ_of_le ih

/-- **What is found is separated, if no character of the text is lost.** -/
theorem separated_found (h : spell (found s) = s) : Separated (found s) := by
  fun_induction found s with
  | case1 => exact List.isChain_nil
  | case2 c cs d hd ih =>
    obtain ⟨hchars, hstop⟩ := longestNumeral_append d cs
    have hrest : spell (found (longestNumeral d cs).2) = (longestNumeral d cs).2 := by
      rw [spell_cons, Token.chars, ← Digit.ofChar?_eq_some hd, ← hchars] at h
      exact List.append_cancel_left h
    have hseparated := ih hrest
    cases hfound : found (longestNumeral d cs).2 with
    | nil => exact List.isChain_singleton _
    | cons t ts =>
      rw [hfound] at hseparated hrest
      refine List.isChain_cons_cons.mpr ⟨fun hnumbers => ?_, hseparated⟩
      -- a numeral that followed would begin with a digit, which the first one would have taken
      cases t with
      | number m =>
        have := hstop m.first.char (by rw [← hrest]; rfl)
        rw [Digit.ofChar?_char] at this
        cases this
      | _ => cases hnumbers.2
  | case3 c cs t ht _ ih =>
    obtain ⟨hchars, hnumber, -⟩ := Token.ofSymbol?_eq_some ht
    rw [spell_cons, hchars] at h
    exact (ih (List.cons.inj h).2).cons hnumber
  | case4 c cs _ _ ih =>
    have := length_spell_found_le cs
    rw [h, List.length_cons] at this
    omega

/-- **The search gives the tokens of a text**, and what it loses tells that there are none. -/
theorem lex_eq_search (s : List Char) : lex s = search s := by
  have hforeign : (s.isEmpty || s.any (· ∉ alphabet)) = true ↔ s = [] ∨ ∃ c ∈ s, c ∉ alphabet := by
    rw [Bool.or_eq_true, List.isEmpty_iff, List.any_eq_true]
    simp only [decide_eq_true_eq]
  unfold search
  split
  · rename_i h
    exact lex_foreign_iff.mpr (hforeign.mp h)
  · rename_i h
    rw [hforeign] at h
    split
    · rename_i hspell
      refine lex_eq_ok_iff.mpr ⟨?_, separated_found hspell, hspell⟩
      rintro hnil
      rw [hnil] at hspell
      exact h (.inl hspell.symm)
    · rename_i hspell
      cases hlex : lex s with
      | ok ts =>
        obtain ⟨-, hseparated, rfl⟩ := lex_eq_ok_iff.mp hlex
        exact absurd (congrArg spell (found_spell hseparated)) hspell
      | error e =>
        rcases lex_error_cases hlex with rfl | rfl
        · exact absurd (lex_foreign_iff.mp hlex) h
        · rfl

/-! ## Runs of digits and points -/

/-- A character that numerals are made of. -/
def isNumeric (c : Char) : Bool := c.isDigit || c == '.'

/-- A stretch of digits and points that cannot be made longer. -/
def IsRun (s run : List Char) : Prop :=
  ∃ before after, s = before ++ run ++ after ∧ run ≠ [] ∧ (∀ c ∈ run, isNumeric c = true) ∧
    (∀ c ∈ before.getLast?, isNumeric c = false) ∧ (∀ c ∈ after.head?, isNumeric c = false)

/-- Nothing comes before a run inside a block of digits and points. -/
theorem eq_nil_of_getLast? {before t : List Char} (hblock : ∀ c ∈ before ++ t, isNumeric c = true)
    (hbefore : ∀ c ∈ before.getLast?, isNumeric c = false) : before = [] := by
  cases hlast : before.getLast? with
  | none => exact List.getLast?_eq_none_iff.mp hlast
  | some c =>
    have hc := hblock c (List.mem_append_left t (List.mem_of_getLast? hlast))
    cases hc.symm.trans (hbefore c hlast)

/-- Two blocks of digits and points at the front of one text are the same if neither goes on. -/
theorem eq_of_append_eq {block run after : List Char} (h : run ++ after = block ++ rest)
    (hblock : ∀ c ∈ block, isNumeric c = true) (hrun : ∀ c ∈ run, isNumeric c = true)
    (hafter : ∀ c ∈ after.head?, isNumeric c = false)
    (hrest : ∀ c ∈ rest.head?, isNumeric c = false) : run = block := by
  rcases List.append_eq_append_iff.mp h with ⟨_ | ⟨c, t⟩, heq, hrest'⟩ | ⟨_ | ⟨c, t⟩, heq, hafter'⟩
  · exact (List.append_nil run).symm.trans heq.symm
  · cases (hblock c (by simp [heq])).symm.trans (hafter c (by simp [hrest']))
  · exact heq.trans (List.append_nil block)
  · cases (hrun c (by simp [heq])).symm.trans (hrest c (by simp [hafter']))

/-- The runs of a text that begins with one are that one and those of the rest. -/
theorem isRun_append {block run : List Char} (hblock : ∀ c ∈ block, isNumeric c = true)
    (hrest : ∀ c ∈ rest.head?, isNumeric c = false) :
    IsRun (block ++ rest) run ↔ block ≠ [] ∧ run = block ∨ IsRun rest run := by
  constructor
  · rintro ⟨before, after, heq, hne, hrun, hbefore, hafter⟩
    rw [List.append_assoc] at heq
    rcases List.append_eq_append_iff.mp heq with ⟨t, rfl, hrest'⟩ | ⟨t, rfl, hrun'⟩
    · refine .inr ⟨t, after, by rw [hrest', List.append_assoc], hne, hrun, fun c hc => ?_, hafter⟩
      exact hbefore c (by rw [List.getLast?_append, hc]; rfl)
    · obtain rfl := eq_nil_of_getLast? hblock hbefore
      obtain rfl := eq_of_append_eq hrun' hblock hrun hafter hrest
      exact .inl ⟨hne, rfl⟩
  · rintro (⟨hne, rfl⟩ | ⟨before, after, rfl, hne, hrun, hbefore, hafter⟩)
    · exact ⟨[], rest, rfl, hne, hblock, nofun, hrest⟩
    · refine ⟨block ++ before, after, by simp only [List.append_assoc], hne, hrun, ?_, hafter⟩
      cases before with
      | nil =>
        obtain ⟨c, run, rfl⟩ := List.exists_cons_of_ne_nil hne
        cases (hrun c List.mem_cons_self).symm.trans (hrest c rfl)
      | cons x before =>
        rw [List.getLast?_append, List.getLast?_cons] at *
        exact hbefore

theorem isRun_cons {c : Char} {run : List Char} (hc : isNumeric c = false) :
    IsRun (c :: s) run ↔ IsRun s run := by
  constructor
  · rintro ⟨_ | ⟨x, before⟩, after, heq, hne, hrun, hbefore, hafter⟩
    · obtain ⟨x, run, rfl⟩ := List.exists_cons_of_ne_nil hne
      cases heq
      cases (hrun c List.mem_cons_self).symm.trans hc
    · cases heq
      refine ⟨before, after, rfl, hne, hrun, fun y hy => hbefore y ?_, hafter⟩
      rw [List.getLast?_cons, hy]
      rfl
  · rintro ⟨before, after, rfl, hne, hrun, hbefore, hafter⟩
    refine ⟨c :: before, after, rfl, hne, hrun, ?_, hafter⟩
    cases before with
    | nil =>
      rintro _ ⟨⟩
      exact hc
    | cons x before =>
      rw [List.getLast?_cons_cons]
      exact hbefore

theorem not_isRun_nil {run : List Char} : ¬ IsRun [] run := by
  rintro ⟨before, after, heq, hne, -⟩
  exact hne (List.append_eq_nil_iff.mp (List.append_eq_nil_iff.mp heq.symm).1).2

/-! ## Runs and numerals -/

theorem isNumeric_of_mem_chars (n : Numeral) : ∀ c ∈ n.chars, isNumeric c = true := by
  have hdigit : ∀ d : Digit, isNumeric d.char = true := by decide
  have hdigits : ∀ ds : List Digit, ∀ c ∈ ds.map Digit.char, isNumeric c = true := by
    intro ds c hc
    obtain ⟨d, -, rfl⟩ := List.mem_map.mp hc
    exact hdigit d
  obtain ⟨first, more, fraction⟩ := n
  refine List.forall_mem_append.mpr ⟨hdigits _, ?_⟩
  cases fraction with
  | none => exact nofun
  | some ds => exact List.forall_mem_cons.mpr ⟨rfl, hdigits ds⟩

theorem isNumeric_eq_false {c : Char} (hdigit : Digit.ofChar? c = none) (hpoint : c ≠ '.') :
    isNumeric c = false := by
  have hc : c.isDigit = false := by
    by_contra h
    rw [Bool.not_eq_false] at h
    rw [Digit.ofChar?, if_pos h] at hdigit
    cases hdigit
  rw [isNumeric, hc, beq_eq_false_iff_ne.mpr hpoint]
  rfl

/-- A character of the alphabet is numeric or a symbol. -/
theorem exists_ofSymbol? {c : Char} (hc : c ∈ alphabet) (hnumeric : isNumeric c = false) :
    ∃ t, Token.ofSymbol? c = some t := by
  have h : inAlphabet c = true := inAlphabet_iff.mpr hc
  rw [inAlphabet, ← isNumeric, hnumeric, Bool.false_or] at h
  exact Option.isSome_iff_exists.mp h

/-- The runs of the text that separated tokens spell are numerals. -/
theorem exists_numeral_of_isRun {ts : List Token} (h : Separated ts) {run : List Char}
    (hrun : IsRun (spell ts) run) : ∃ n : Numeral, run = n.chars := by
  induction ts with
  | nil => exact absurd hrun not_isRun_nil
  | cons t ts ih =>
    have hts : Separated ts := List.IsChain.tail h
    by_cases ht : t.IsNumber
    · cases t with
      | number n =>
        obtain ⟨hdigit, hpoint⟩ := h.head?_spell
        have hrest : ∀ c ∈ (spell ts).head?, isNumeric c = false := by
          rintro c hc
          refine isNumeric_eq_false (hdigit c hc) ?_
          rintro rfl
          exact hpoint hc
        rw [spell_cons, Token.chars, isRun_append (isNumeric_of_mem_chars n) hrest] at hrun
        rcases hrun with ⟨-, rfl⟩ | hrun
        · exact ⟨n, rfl⟩
        · exact ih hts hrun
      | _ => cases ht
    · obtain ⟨c, hc, hsymbol, hdigit⟩ := Token.chars_of_not_isNumber ht
      have hpoint : c ≠ '.' := by
        rintro rfl
        cases hsymbol
      rw [spell_cons, hc, List.singleton_append, isRun_cons (isNumeric_eq_false hdigit hpoint)]
        at hrun
      exact ih hts hrun

/-- A text begins with a block of digits and points that cannot be made longer, or with none. -/
theorem exists_block (s : List Char) : ∃ block rest, s = block ++ rest ∧
    (∀ c ∈ block, isNumeric c = true) ∧ ∀ c ∈ rest.head?, isNumeric c = false := by
  refine ⟨s.takeWhile isNumeric, s.dropWhile isNumeric,
    List.takeWhile_append_dropWhile.symm, List.all_eq_true.mp List.all_takeWhile, fun c hc => ?_⟩
  have hfirst := List.head?_dropWhile_not isNumeric s
  rwa [hc] at hfirst

/-- A text within the alphabet whose runs are numerals is spelt by separated tokens. -/
theorem exists_separated (hs : ∀ c ∈ s, c ∈ alphabet)
    (hruns : ∀ run, IsRun s run → ∃ n : Numeral, run = n.chars) :
    ∃ ts, Separated ts ∧ spell ts = s := by
  induction hlength : s.length using Nat.strongRecOn generalizing s with
  | ind length ih =>
    obtain ⟨block, rest, rfl, hblock, hrest⟩ := exists_block s
    -- the block is a numeral that comes to hand, or there is none
    obtain ⟨hand, hhand⟩ : ∃ hand, spell (flush hand) = block := by
      by_cases hne : block = []
      · exact ⟨none, hne.symm⟩
      · obtain ⟨n, hn⟩ := hruns block ((isRun_append hblock hrest).mpr (.inl ⟨hne, rfl⟩))
        exact ⟨some n, by rw [hn]; exact List.append_nil n.chars⟩
    cases rest with
    | nil => exact ⟨flush hand, separated_flush hand, by rw [hhand, List.append_nil]⟩
    | cons c cs =>
      have hc : isNumeric c = false := hrest c rfl
      obtain ⟨t, ht⟩ := exists_ofSymbol? (hs c (by simp)) hc
      obtain ⟨hchars, hnumber, -⟩ := Token.ofSymbol?_eq_some ht
      have hrun : ∀ run, IsRun cs run → ∃ n : Numeral, run = n.chars := fun run hrun =>
        hruns run ((isRun_append hblock hrest).mpr (.inr ((isRun_cons hc).mpr hrun)))
      obtain ⟨ts, hts, hspell⟩ := ih cs.length (by simp at hlength; omega)
        (fun x hx => hs x (by simp [hx])) hrun rfl
      refine ⟨flush hand ++ t :: ts, separated_flush_append hand hts hnumber, ?_⟩
      rw [← hhand, ← hspell]
      simp [spell, hchars]

/-! ## The texts of tokens -/

/-- The text of a numeral: digits, and possibly a point and more digits. -/
def IsNumberText (u : List Char) : Prop := ∃ n : Numeral, u = n.chars

/-- An operator or a parenthesis. -/
def IsSymbolText (u : List Char) : Prop := ∃ c ∈ ['+', '-', '*', '/', '(', ')'], u = [c]

/-- The texts make up a text: each is a numeral or a symbol, and no two numerals stand side by side.
-/
structure Splits (s : List Char) (us : List (List Char)) : Prop where
  flatten_eq : us.flatten = s
  number_or_symbol : ∀ u ∈ us, IsNumberText u ∨ IsSymbolText u
  separated : us.IsChain fun u v => ¬ (IsNumberText u ∧ IsNumberText v)

theorem isNumberText_chars (t : Token) : IsNumberText t.chars ↔ t.IsNumber := by
  by_cases ht : t.IsNumber
  · cases t with
    | number n => exact ⟨fun _ => trivial, fun _ => ⟨n, rfl⟩⟩
    | _ => cases ht
  · obtain ⟨c, hc, -, hdigit⟩ := Token.chars_of_not_isNumber ht
    refine iff_of_false ?_ ht
    rintro ⟨n, hn⟩
    have hfirst : c = n.first.char := (List.cons.inj (hc.symm.trans hn)).1
    rw [hfirst, Digit.ofChar?_char] at hdigit
    cases hdigit

/-- The texts of numerals and symbols are those of the tokens. -/
theorem exists_chars_eq_iff {u : List Char} :
    (∃ t : Token, u = t.chars) ↔ IsNumberText u ∨ IsSymbolText u := by
  constructor
  · rintro ⟨t, rfl⟩
    cases t with
    | number n => exact .inl ⟨n, rfl⟩
    | add op => cases op <;> exact .inr ⟨_, by decide, rfl⟩
    | mul op => cases op <;> exact .inr ⟨_, by decide, rfl⟩
    | opening => exact .inr ⟨_, by decide, rfl⟩
    | closing => exact .inr ⟨_, by decide, rfl⟩
  · rintro (⟨n, rfl⟩ | ⟨c, hc, rfl⟩)
    · exact ⟨.number n, rfl⟩
    · simp only [List.mem_cons, List.not_mem_nil, or_false] at hc
      rcases hc with rfl | rfl | rfl | rfl | rfl | rfl
      · exact ⟨.add .plus, rfl⟩
      · exact ⟨.add .minus, rfl⟩
      · exact ⟨.mul .times, rfl⟩
      · exact ⟨.mul .divide, rfl⟩
      · exact ⟨.opening, rfl⟩
      · exact ⟨.closing, rfl⟩

/-- Separated tokens split the text that they spell. -/
theorem splits_map_iff {ts : List Token} :
    Splits s (ts.map Token.chars) ↔ Separated ts ∧ spell ts = s := by
  have hchain : (ts.map Token.chars).IsChain (fun u v => ¬ (IsNumberText u ∧ IsNumberText v)) ↔
      Separated ts := by
    simp only [List.isChain_map, isNumberText_chars, Separated]
  constructor
  · rintro ⟨hflatten, -, hseparated⟩
    exact ⟨hchain.mp hseparated, (List.flatMap_def ..).trans hflatten⟩
  · rintro ⟨hseparated, rfl⟩
    refine ⟨(List.flatMap_def ..).symm, fun u hu => ?_, hchain.mpr hseparated⟩
    obtain ⟨t, -, rfl⟩ := List.mem_map.mp hu
    exact exists_chars_eq_iff.mp ⟨t, rfl⟩

/-- Only texts of tokens split a text. -/
theorem Splits.exists_map {us : List (List Char)} (h : Splits s us) :
    ∃ ts : List Token, us = ts.map Token.chars := by
  have heach : ∀ u ∈ us, ∃ t : Token, u = t.chars := fun u hu =>
    exists_chars_eq_iff.mpr (h.number_or_symbol u hu)
  clear h
  induction us with
  | nil => exact ⟨[], rfl⟩
  | cons u us ih =>
    obtain ⟨⟨t, rfl⟩, hus⟩ := List.forall_mem_cons.mp heach
    obtain ⟨ts, rfl⟩ := ih hus
    exact ⟨t :: ts, rfl⟩

/-! ## Which texts have tokens -/

/-- **A text has tokens where all its runs are numerals.** -/
theorem exists_lex_eq_ok_iff : (∃ ts, lex s = .ok ts) ↔
    (s ≠ [] ∧ ∀ c ∈ s, c ∈ alphabet) ∧ ∀ run, IsRun s run → IsNumberText run := by
  constructor
  · rintro ⟨ts, h⟩
    obtain ⟨hne, hseparated, rfl⟩ := lex_eq_ok_iff.mp h
    refine ⟨⟨?_, mem_alphabet_of_mem_spell⟩,
      fun run hrun => exists_numeral_of_isRun hseparated hrun⟩
    obtain ⟨t, us, rfl⟩ := List.exists_cons_of_ne_nil hne
    simp [t.chars_ne_nil]
  · rintro ⟨⟨hne, hs⟩, hruns⟩
    obtain ⟨ts, hseparated, rfl⟩ := exists_separated hs hruns
    refine ⟨ts, lex_eq_ok_iff.mpr ⟨?_, hseparated, rfl⟩⟩
    rintro rfl
    exact hne rfl

/-- A text within the alphabet has a broken number where it has no tokens. -/
theorem lex_eq_brokenNumber_iff : lex s = .error .brokenNumber ↔
    (s ≠ [] ∧ ∀ c ∈ s, c ∈ alphabet) ∧ ∃ run, IsRun s run ∧ ¬ IsNumberText run := by
  constructor
  · intro h
    have hne : ¬ (s = [] ∨ ∃ c ∈ s, c ∉ alphabet) := fun hforeign =>
      nomatch h.symm.trans (lex_foreign_iff.mpr hforeign)
    have halphabet : s ≠ [] ∧ ∀ c ∈ s, c ∈ alphabet := by
      simpa [not_or] using hne
    refine ⟨halphabet, by_contra fun hruns => ?_⟩
    obtain ⟨ts, hts⟩ := exists_lex_eq_ok_iff.mpr ⟨halphabet, fun run hrun =>
      by_contra fun hnumber => hruns ⟨run, hrun, hnumber⟩⟩
    cases h.symm.trans hts
  · rintro ⟨⟨hne, hs⟩, run, hrun, hnumber⟩
    cases hlex : lex s with
    | ok ts => exact absurd ((exists_lex_eq_ok_iff.mp ⟨ts, hlex⟩).2 run hrun) hnumber
    | error e =>
      rcases lex_error_cases hlex with rfl | rfl
      · rcases lex_foreign_iff.mp hlex with rfl | ⟨c, hc, hout⟩
        · exact absurd rfl hne
        · exact absurd (hs c hc) hout
      · rfl

/-- **The tokens of a text split it, and nothing else does.** They are what the search finds if it
loses nothing. A text is foreign if it is empty or leaves the alphabet; otherwise it has tokens
where all its runs of digits and points are numerals, and a broken number where one is not. -/
theorem lex_splits (s : List Char) :
    lex s = search s ∧
    (lex s = .error .foreignCharacter ↔ s = [] ∨ ∃ c ∈ s, c ∉ alphabet) ∧
    ((∃ ts, lex s = .ok ts) ↔ (s ≠ [] ∧ ∀ c ∈ s, c ∈ alphabet) ∧
      ∀ run, IsRun s run → IsNumberText run) ∧
    (lex s = .error .brokenNumber ↔ (s ≠ [] ∧ ∀ c ∈ s, c ∈ alphabet) ∧
      ∃ run, IsRun s run ∧ ¬ IsNumberText run) ∧
    ∀ ts, lex s = .ok ts → Splits s (ts.map Token.chars) ∧
      ∀ us, Splits s us → us = ts.map Token.chars := by
  refine ⟨lex_eq_search s, lex_foreign_iff, exists_lex_eq_ok_iff, lex_eq_brokenNumber_iff, ?_⟩
  intro ts h
  obtain ⟨-, hseparated, hspell⟩ := lex_eq_ok_iff.mp h
  refine ⟨splits_map_iff.mpr ⟨hseparated, hspell⟩, fun us hus => ?_⟩
  obtain ⟨ts', rfl⟩ := hus.exists_map
  obtain ⟨hseparated', hspell'⟩ := splits_map_iff.mp hus
  -- both token lists are found in the text that they spell
  rw [← found_spell hseparated, ← found_spell hseparated', hspell, hspell']

end TimedQuiz.Expr
