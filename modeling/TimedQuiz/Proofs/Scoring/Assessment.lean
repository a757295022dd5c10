import TimedQuiz.Proofs.Round.Moves
import TimedQuiz.Proofs.Scoring.Percentage

/-!
# What a report says, and that there always is one

Main statements: `report_of_assess` — a report counts the problems and the right answers;
`Round.next_ok` — with a wording that never refuses, no event breaks off.
-/

namespace TimedQuiz

/-! ## Reports -/

variable {wording : Wording} {ps : List Problem}

/-- **The report on a list of problems counts its problems and its right answers.** -/
theorem report_of_assess {report : Report} (h : (assess wording ps).outcome = .ok report) :
    report.total = ps.length ∧ report.correct = correctCount ps ∧
      report.correct + report.incorrect = report.total ∧
      score (correctCount ps) ps.length = .ok report.score := by
  obtain ⟨n, hn, h⟩ := Recorded.bind_eq_ok h
  obtain ⟨title, -, h⟩ := Recorded.bind_eq_ok h
  obtain ⟨feedback, -, h⟩ := Recorded.bind_eq_ok h
  cases h
  refine ⟨rfl, rfl, ?_, ?_⟩
  · show (correctCount ps : Int) + ((ps.length : Int) - correctCount ps) = ps.length
    omega
  · simp only [scoreOf] at hn
    split at hn
    · cases hn
      assumption
    · cases hn

/-- The wording never refuses a text. -/
def Wording.Willing (w : Wording) : Prop := ∀ key, ∃ text, w.say key = .ok text

/-- An answer that breaks off is a refusal. -/
theorem Wording.refusal_of_ask {key : String} {fault : Fault}
    (h : (wording.ask key).outcome = .error fault) :
    ∃ reason, fault = .wording reason ∧ wording.say key = .error reason := by
  simp only [Wording.ask] at h
  split at h
  · cases h
  · rename_i reason hsay
    cases h
    exact ⟨reason, rfl, hsay⟩

theorem Wording.Willing.ask_ok (hw : wording.Willing) (key : String) :
    ∃ text, (wording.ask key).outcome = .ok text := by
  obtain ⟨text, h⟩ := hw key
  exact ⟨text, by simp only [Wording.ask, h]⟩

/-- A list that is not empty has a score: the quotient of the two counts and its hundredfold are
within the doubles. -/
theorem scoreOf_ok (hne : ps ≠ []) : ∃ n, (scoreOf ps).outcome = .ok n := by
  have hcount : correctCount ps ≤ ps.length := List.countP_le_length
  have hpos : 0 < ps.length := List.length_pos_iff.mpr hne
  obtain ⟨n, hn⟩ : ∃ n, score (correctCount ps) ps.length = .ok n :=
    ⟨_, score_eq (by omega) (by omega) (by omega)⟩
  exact ⟨n, by simp only [scoreOf, hn]⟩

theorem assess_ok (hw : wording.Willing) (hne : ps ≠ []) :
    ∃ report, (assess wording ps).outcome = .ok report := by
  obtain ⟨n, hscore⟩ := scoreOf_ok hne
  obtain ⟨title, htitle⟩ := hw.ask_ok (Grade.ofScore n).titleKey
  obtain ⟨feedback, hfeedback⟩ := hw.ask_ok (Grade.ofScore n).feedbackKey
  unfold assess
  rw [(Recorded.bind_ok hscore _).1, (Recorded.bind_ok htitle _).1,
    (Recorded.bind_ok hfeedback _).1]
  exact ⟨_, rfl⟩

namespace Round

variable {rules : HouseRules} {r : Round}

theorem finishWith_ok (hw : wording.Willing) (problems : List Problem) :
    ∃ t, (r.finishWith wording problems).outcome = .ok t := by
  unfold finishWith
  split
  · exact ⟨.ignored, rfl⟩
  · rename_i hcond
    simp only [not_or, List.isEmpty_iff] at hcond
    obtain ⟨report, h⟩ := assess_ok hw hcond.2
    rw [(Recorded.bind_ok h _).1]
    exact ⟨_, rfl⟩

/-- **With a wording that never refuses, no event breaks off.** -/
theorem next_ok (rules : HouseRules) (hw : wording.Willing) (event : Event) :
    ∃ t, (r.next rules wording event).outcome = .ok t := by
  cases event with
  | finish given => exact finishWith_ok hw _
  | advance order =>
    simp only [next, advance]
    split
    · exact ⟨.ignored, rfl⟩
    · split
      · exact finishWith_ok hw _
      · exact ⟨_, rfl⟩
  | load problems => exact ⟨_, rfl⟩
  | submit id answer => exact ⟨_, rfl⟩
  | retry => exact ⟨_, rfl⟩
  | back => exact ⟨_, rfl⟩
  | forward => exact ⟨_, rfl⟩
  | tick generation => exact ⟨_, rfl⟩
  | teardown => exact ⟨_, rfl⟩

end Round

end TimedQuiz
