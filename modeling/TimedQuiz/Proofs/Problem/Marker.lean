import TimedQuiz.Proofs.Problem.Display
import TimedQuiz.Text.Replace

/-!
# Cutting off the answer marker

A marker can be cut off by a search: from left to right, wherever the text from there on goes on as
a marker does, up to the end or to a line feed at the very end, that much is cut out, as many blanks
as possible first and as few as necessary only if the rest does not fit otherwise. The glyphs are
replaced one after the other.

* `afterMarker` — what may follow a marker at the front of a text, in the order of the search;
* `cutMarkers` — a text without the markers that are found;
* `substitutions` — the glyphs and the operators that replace them.

Main statements: `cutMarkers_eq` — the search finds the marker at the end and no other;
`foldl_replaceAll` — the order of the replacements does not matter; `expressionOf_of_any` — the
expression of any text.
-/

namespace TimedQuiz.Problem

open Text

variable {s m rest : List Char}

/-! ## The search -/

/-- What may follow a run of blanks, the longest run first. -/
def afterBlanks : List Char → List (List Char)
  | [] => [[]]
  | c :: cs => if isBlank c then afterBlanks cs ++ [c :: cs] else [c :: cs]

/-- What follows an equals sign. -/
def afterEquals : List Char → List (List Char)
  | '=' :: cs => [cs]
  | _ => []

/-- What may follow a question mark that may be left out. -/
def afterQuestion : List Char → List (List Char)
  | '?' :: cs => [cs, '?' :: cs]
  | cs => [cs]

/-- The end of a text, before or behind a line feed. -/
def atEnd : List Char → List (List Char)
  | [] => [[]]
  | ['\n'] => [['\n']]
  | _ => []

/-- What may follow a marker; the search takes the first. -/
def afterMarker (s : List Char) : List (List Char) :=
  (afterBlanks s).flatMap fun s => (afterEquals s).flatMap fun s => (afterBlanks s).flatMap fun s =>
    (afterQuestion s).flatMap fun s => (afterBlanks s).flatMap atEnd

theorem mem_afterBlanks_iff :
    rest ∈ afterBlanks s ↔ ∃ a, (∀ c ∈ a, isBlank c = true) ∧ s = a ++ rest := by
  induction s with
  | nil =>
    simp only [afterBlanks, List.mem_singleton]
    constructor
    · rintro rfl
      exact ⟨[], List.forall_mem_nil _, rfl⟩
    · rintro ⟨a, -, h⟩
      exact (List.append_eq_nil_iff.mp h.symm).2
  | cons c cs ih =>
    rw [afterBlanks]
    split
    · rename_i hc
      simp only [List.mem_append, List.mem_singleton, ih]
      constructor
      · rintro (⟨a, ha, rfl⟩ | rfl)
        · exact ⟨c :: a, List.forall_mem_cons.mpr ⟨hc, ha⟩, rfl⟩
        · exact ⟨[], List.forall_mem_nil _, rfl⟩
      · rintro ⟨_ | ⟨x, a⟩, ha, h⟩
        · exact .inr h.symm
        · cases h
          exact .inl ⟨a, (List.forall_mem_cons.mp ha).2, rfl⟩
    · rename_i hc
      simp only [List.mem_singleton]
      constructor
      · rintro rfl
        exact ⟨[], List.forall_mem_nil _, rfl⟩
      · rintro ⟨_ | ⟨x, a⟩, ha, h⟩
        · exact h.symm
        · cases h
          exact absurd (List.forall_mem_cons.mp ha).1 hc

theorem mem_afterEquals_iff : rest ∈ afterEquals s ↔ s = '=' :: rest := by
  unfold afterEquals
  split
  · simp [eq_comm]
  · rename_i h
    simpa using h rest

theorem mem_afterQuestion_iff : rest ∈ afterQuestion s ↔ s = '?' :: rest ∨ s = rest := by
  unfold afterQuestion
  split
  · simp [eq_comm]
  · rename_i h
    rw [List.mem_singleton, or_iff_right (h rest), eq_comm]

theorem of_mem_atEnd (h : rest ∈ atEnd s) : s = rest ∧ ∀ c ∈ rest, isBlank c = true := by
  unfold atEnd at h
  split at h
  · cases List.mem_singleton.mp h
    exact ⟨rfl, nofun⟩
  · cases List.mem_singleton.mp h
    exact ⟨rfl, List.forall_mem_singleton.mpr rfl⟩
  · cases h

/-- Wherever the search succeeds, the text is a marker up to its end, a line feed there included. -/
theorem of_mem_afterMarker (h : rest ∈ afterMarker s) :
    IsMarker s ∧ rest.length < s.length := by
  simp only [afterMarker, List.mem_flatMap, mem_afterBlanks_iff, mem_afterEquals_iff,
    mem_afterQuestion_iff] at h
  obtain ⟨_, ⟨a, ha, rfl⟩, _, rfl, _, ⟨b, hb, rfl⟩, _, hquestion, _, ⟨d, hd, rfl⟩, hend⟩ := h
  obtain ⟨rfl, hrest⟩ := of_mem_atEnd hend
  have hd' : ∀ c ∈ d ++ _, isBlank c = true := List.forall_mem_append.mpr ⟨hd, hrest⟩
  rcases hquestion with rfl | rfl
  · exact ⟨.asking ha hb hd', by simp; omega⟩
  · exact ⟨.plain ha (List.forall_mem_append.mpr ⟨hb, hd'⟩), by simp; omega⟩

/-- The first way of going on is the one that is taken. -/
theorem head?_flatMap {α : Type} {xs : List α} {f : α → List α} {x y : α} (hx : xs.head? = some x)
    (hy : (f x).head? = some y) : (xs.flatMap f).head? = some y := by
  obtain ⟨xs, rfl⟩ := List.head?_eq_some_iff.mp hx
  rw [List.flatMap_cons, List.head?_append, hy]
  rfl

/-- As many blanks as possible are taken first. -/
theorem head?_afterBlanks {a : List Char} (ha : ∀ c ∈ a, isBlank c = true)
    (hs : ∀ c ∈ s.head?, isBlank c = false) : (afterBlanks (a ++ s)).head? = some s := by
  induction a with
  | nil =>
    cases s with
    | nil => rfl
    | cons c cs => simp [afterBlanks, hs c rfl]
  | cons c a ih =>
    obtain ⟨hc, ha⟩ := List.forall_mem_cons.mp ha
    rw [List.cons_append, afterBlanks, if_pos hc, List.head?_append, ih ha]
    rfl

/-- **A marker is found whole**, also where less of it would do. -/
theorem head?_afterMarker (h : IsMarker s) : (afterMarker s).head? = some [] := by
  have hblanks : ∀ {b}, (∀ c ∈ b, isBlank c = true) → (afterBlanks b).head? = some [] := by
    intro b hb
    have := head?_afterBlanks (s := []) hb nofun
    rwa [List.append_nil] at this
  cases h with
  | @plain a b ha hb =>
    have hstart : (afterBlanks (a ++ '=' :: b)).head? = some ('=' :: b) :=
      head?_afterBlanks ha (by simp; rfl)
    exact head?_flatMap hstart (head?_flatMap rfl (head?_flatMap (hblanks hb) rfl))
  | @asking a b d ha hb hd =>
    have hstart : (afterBlanks (a ++ '=' :: (b ++ '?' :: d))).head? =
        some ('=' :: (b ++ '?' :: d)) := head?_afterBlanks ha (by simp; rfl)
    have hquestion : (afterBlanks (b ++ '?' :: d)).head? = some ('?' :: d) :=
      head?_afterBlanks hb (by simp; rfl)
    exact head?_flatMap hstart (head?_flatMap rfl (head?_flatMap hquestion
      (head?_flatMap rfl (head?_flatMap (hblanks hd) rfl))))

/-- A text without the markers that the search finds from left to right. -/
def cutMarkers : List Char → List Char
  | [] => []
  | c :: cs =>
    match _h : (afterMarker (c :: cs)).head? with
    | some rest => cutMarkers rest
    | none => c :: cutMarkers cs
termination_by s => s.length
decreasing_by
  · exact (of_mem_afterMarker (List.mem_of_head? ‹_›)).2
  · exact Nat.lt_succ_self cs.length

theorem cutMarkers_of_isMarker (h : IsMarker s) : cutMarkers s = [] := by
  have hfound := head?_afterMarker h
  unfold cutMarkers
  split
  · rfl
  · split
    · rename_i rest hrest
      cases hfound.symm.trans hrest
      rw [cutMarkers]
    · rename_i hnone
      cases hfound.symm.trans hnone

theorem cutMarkers_cons {c : Char} {cs : List Char} (h : ¬ IsMarker (c :: cs)) :
    cutMarkers (c :: cs) = c :: cutMarkers cs := by
  rw [cutMarkers]
  split
  · rename_i rest hrest
    exact absurd (of_mem_afterMarker (List.mem_of_head? hrest)).1 h
  · rfl

/-! ## The marker at the end -/

theorem reverse_eq_of_dropWhile {p : Char → Bool} {before : List Char} {x : Char}
    (h : s.dropWhile p = x :: before) :
    s.reverse = before.reverse ++ x :: (s.takeWhile p).reverse := by
  conv_lhs => rw [← List.takeWhile_append_dropWhile (p := p) (l := s), h]
  simp

/-- A text with no marker at its end stays. -/
theorem withoutMarker_of_not_marker (h : ¬ ∃ b m, s = b ++ m ∧ IsMarker m) :
    withoutMarker s = s := by
  simp only [withoutMarker]
  split
  · rename_i before hbefore
    refine absurd ?_ h
    -- the text is put together again from what was taken off its end
    have hall : ∀ t : List Char, ∀ c ∈ (t.takeWhile isBlank).reverse, isBlank c = true :=
      fun t c hc => List.all_eq_true.mp List.all_takeWhile c (List.mem_reverse.mp hc)
    have hs : s =
        (s.reverse.dropWhile isBlank).reverse ++ (s.reverse.takeWhile isBlank).reverse := by
      rw [← List.reverse_append, List.takeWhile_append_dropWhile, List.reverse_reverse]
    split at hbefore
    · rename_i hquestion
      obtain ⟨t, ht⟩ := List.head?_eq_some_iff.mp hquestion
      rw [ht, List.tail_cons] at hbefore
      rw [ht, List.reverse_cons, reverse_eq_of_dropWhile hbefore] at hs
      exact ⟨before.reverse, _, by simpa using hs,
        .asking (a := []) (List.forall_mem_nil _) (hall t) (hall s.reverse)⟩
    · rw [reverse_eq_of_dropWhile hbefore] at hs
      exact ⟨before.reverse, _, by simpa using hs, .plain (a := []) (List.forall_mem_nil _)
        (List.forall_mem_append.mpr ⟨hall _, hall s.reverse⟩)⟩
  · rfl

/-- Blanks before a marker belong to it. -/
theorem IsMarker.blanks_append {w : List Char} (hw : ∀ c ∈ w, isBlank c = true) (h : IsMarker m) :
    IsMarker (w ++ m) := by
  cases h with
  | plain ha hb =>
    rw [← List.append_assoc]
    exact .plain (List.forall_mem_append.mpr ⟨hw, ha⟩) hb
  | asking ha hb hd =>
    rw [← List.append_assoc]
    exact .asking (List.forall_mem_append.mpr ⟨hw, ha⟩) hb hd

theorem trimEnd_cons {c : Char} (h : ¬ ∀ x ∈ c :: s, isBlank x = true) :
    trimEnd (c :: s) = c :: trimEnd s := by
  simp only [trimEnd, List.reverse_cons, List.dropWhile_append]
  split
  · rename_i hempty
    have hs : trimEnd s = [] := by
      rw [trimEnd, List.isEmpty_iff.mp hempty]
      rfl
    have hblank : ∀ x ∈ s, isBlank x = true := by
      obtain ⟨b, hb, hs'⟩ := exists_trimEnd_append s
      rw [hs', hs]
      exact hb
    have hc : isBlank c = false := Bool.eq_false_iff.mpr fun hc =>
      h (List.forall_mem_cons.mpr ⟨hc, hblank⟩)
    rw [List.isEmpty_iff.mp hempty, List.dropWhile_cons_of_neg (by simp [hc])]
    rfl
  · rw [List.reverse_append]
    rfl

theorem withoutMarker_cons {c : Char} {cs : List Char} (h : ¬ IsMarker (c :: cs)) :
    withoutMarker (c :: cs) = c :: withoutMarker cs := by
  by_cases hmarker : ∃ b m, cs = b ++ m ∧ IsMarker m
  · obtain ⟨b, m, rfl, hm⟩ := hmarker
    have hblank : ¬ ∀ x ∈ c :: b, isBlank x = true := fun hblank => h (hm.blanks_append hblank)
    rw [← List.cons_append, withoutMarker_append _ hm, withoutMarker_append _ hm,
      trimEnd_cons hblank]
  · have hmarker' : ¬ ∃ b m, c :: cs = b ++ m ∧ IsMarker m := by
      rintro ⟨_ | ⟨x, b⟩, m, heq, hm⟩
      · exact h (heq ▸ hm)
      · cases heq
        exact hmarker ⟨b, m, rfl, hm⟩
    rw [withoutMarker_of_not_marker hmarker, withoutMarker_of_not_marker hmarker']

/-- **The search finds the marker at the end and no other.** -/
theorem cutMarkers_eq (s : List Char) : cutMarkers s = withoutMarker s := by
  induction s with
  | nil => rw [cutMarkers, withoutMarker_of_not_mem List.not_mem_nil]
  | cons c cs ih =>
    by_cases h : IsMarker (c :: cs)
    · rw [cutMarkers_of_isMarker h]
      exact (withoutMarker_append [] h).symm
    · rw [cutMarkers_cons h, withoutMarker_cons h, ih]

/-- What is cut off is one marker, or nothing. -/
theorem exists_withoutMarker_append (s : List Char) :
    ∃ removed, s = withoutMarker s ++ removed ∧ (removed = [] ∨ IsMarker removed) := by
  by_cases h : ∃ b m, s = b ++ m ∧ IsMarker m
  · obtain ⟨b, m, rfl, hm⟩ := h
    obtain ⟨w, hw, hb⟩ := exists_trimEnd_append b
    refine ⟨w ++ m, ?_, .inr (hm.blanks_append hw)⟩
    rw [withoutMarker_append b hm, ← List.append_assoc, ← hb]
  · refine ⟨[], ?_, .inl rfl⟩
    rw [withoutMarker_of_not_marker h, List.append_nil]

/-! ## The glyphs -/

/-- The glyphs and the operators that replace them. -/
def substitutions : List (Char × Char) := [('×', '*'), ('✖', '*'), ('÷', '/'), ('➗', '/')]

/-- One character where another is replaced. -/
def replaced (c : Char) (p : Char × Char) : Char := if c = p.1 then p.2 else c

theorem replaceAll_singleton (p : Char × Char) (s : List Char) :
    replaceAll [p.1] [p.2] s = s.map (replaced · p) := by
  unfold replaceAll
  induction s with
  | nil => rfl
  | cons c cs ih =>
    rw [replaceFrom, List.map_cons]
    by_cases hc : c = p.1
    · have hprefix : [p.1].isPrefixOf (c :: cs) = true := by simp [List.isPrefixOf, hc]
      rw [if_pos hprefix, replaced, if_pos hc]
      exact congrArg (p.2 :: ·) ih
    · have hprefix : ¬ [p.1].isPrefixOf (c :: cs) = true := by
        simp [List.isPrefixOf, Ne.symm hc]
      rw [if_neg hprefix, replaced, if_neg hc, ih]

/-- Two replacements may change places if neither gives what the other replaces. -/
theorem replaced_replaced {p q : Char × Char} (hsame : p.1 = q.1 → p.2 = q.2) (hpq : p.2 ≠ q.1)
    (hqp : q.2 ≠ p.1) (c : Char) : replaced (replaced c p) q = replaced (replaced c q) p := by
  unfold replaced
  by_cases hp : c = p.1 <;> by_cases hq : c = q.1
  · rw [if_pos hp, if_pos hq, if_neg hpq, if_neg hqp, hsame (hp.symm.trans hq)]
  · rw [if_pos hp, if_neg hq, if_neg hpq, if_pos hp]
  · rw [if_neg hp, if_pos hq, if_neg hqp]
  · rw [if_neg hp, if_neg hq, if_neg hp]

theorem plainOperator_eq (c : Char) : plainOperator c =
    if c = '×' ∨ c = '✖' then '*' else if c = '÷' ∨ c = '➗' then '/' else c := by
  unfold plainOperator
  split
  · rfl
  · rfl
  · rfl
  · rfl
  · rename_i h₁ h₂ h₃ h₄
    rw [if_neg (not_or.mpr ⟨h₁, h₂⟩), if_neg (not_or.mpr ⟨h₃, h₄⟩)]

theorem foldl_replaced (c : Char) : substitutions.foldl replaced c = plainOperator c := by
  unfold plainOperator
  split
  · rfl
  · rfl
  · rfl
  · rfl
  · rename_i h₁ h₂ h₃ h₄
    simp only [substitutions, List.foldl_cons, List.foldl_nil, replaced, if_neg h₁, if_neg h₂,
      if_neg h₃, if_neg h₄]

/-- **The glyphs may be replaced in any order.** -/
theorem foldl_replaceAll {order : List (Char × Char)} (h : order.Perm substitutions)
    (s : List Char) :
    order.foldl (fun s p => replaceAll [p.1] [p.2] s) s = s.map plainOperator := by
  have heach : ∀ s, order.foldl (fun s p => replaceAll [p.1] [p.2] s) s =
      s.map fun c => order.foldl replaced c := by
    clear h
    induction order with
    | nil => simp
    | cons p order ih =>
      intro s
      rw [List.foldl_cons, ih, replaceAll_singleton, List.map_map]
      rfl
  have hapart : ∀ p ∈ substitutions, ∀ q ∈ substitutions,
      (p.1 = q.1 → p.2 = q.2) ∧ p.2 ≠ q.1 ∧ q.2 ≠ p.1 := by decide
  rw [heach]
  refine List.map_congr_left fun c _ => ?_
  rw [h.foldl_eq' (fun p hp q hq c => ?_) c, foldl_replaced]
  obtain ⟨hsame, hpq, hqp⟩ := hapart p (h.mem_iff.mp hp) q (h.mem_iff.mp hq)
  exact replaced_replaced hsame hpq hqp c

/-! ## The expression of a text -/

/-- **The expression of any text.** Before a marker at the end the text without the blanks there is
taken, else the whole text, and only the glyphs are replaced in it. That is also what the search
and the replacements, in any order, come to. At most one marker goes, and nothing is added. -/
theorem expressionOf_of_any (s : List Char) :
    (∀ b m, s = b ++ m → IsMarker m → expressionOf s = (trimEnd b).map plainOperator) ∧
    ((¬ ∃ b m, s = b ++ m ∧ IsMarker m) → expressionOf s = s.map plainOperator) ∧
    (∀ c, plainOperator c =
      if c = '×' ∨ c = '✖' then '*' else if c = '÷' ∨ c = '➗' then '/' else c) ∧
    (∀ order : List (Char × Char), order.Perm [('×', '*'), ('✖', '*'), ('÷', '/'), ('➗', '/')] →
      order.foldl (fun s p => replaceAll [p.1] [p.2] s) (cutMarkers s) = expressionOf s) ∧
    (∃ removed, s = withoutMarker s ++ removed ∧ (removed = [] ∨ IsMarker removed)) ∧
    (expressionOf s).length ≤ s.length := by
  obtain ⟨removed, hs, hremoved⟩ := exists_withoutMarker_append s
  refine ⟨?_, ?_, plainOperator_eq, ?_, ⟨removed, hs, hremoved⟩, ?_⟩
  · rintro b m rfl hm
    rw [expressionOf, withoutMarker_append b hm]
  · intro h
    rw [expressionOf, withoutMarker_of_not_marker h]
  · intro order horder
    rw [cutMarkers_eq, foldl_replaceAll horder, expressionOf]
  · rw [expressionOf, List.length_map]
    conv_rhs => rw [hs, List.length_append]
    exact Nat.le_add_right _ _

end TimedQuiz.Problem
