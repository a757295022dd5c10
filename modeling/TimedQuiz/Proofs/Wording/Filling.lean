import TimedQuiz.Wording.Template
import Mathlib.Data.List.Infix
import Mathlib.Data.List.Nodup

/-!
# Putting in the parameters of a template

`Template.fill` puts in one parameter after the other, each into the text that the earlier ones have
left; what an earlier one has put in is searched for the placeholders of the later ones.

* `Part`, `cut` — a template as characters and holes, a hole where a placeholder stands;
* `fillAtOnce` — each hole gives way to the value of its parameter, and nothing is searched again;
* `Settled` — whichever parameters are put in, the placeholder of another one begins nowhere but at
  its own holes.

Main statements: `settled_of_single`, `settled_of_no_brace` — templates that are settled;
`fillOne_shown` — one parameter goes into its holes; `fill_eq_fillAtOnce` — for a settled template
the order is of no account, neither for `fill` nor for `interpolate`; `fill_depends_on_order` — for
another one it is.
-/

namespace TimedQuiz

namespace Text

variable {old new s t : List Char}

/-- What belongs to an occurrence is passed over. -/
theorem replaceFrom_length_append (s : List Char) :
    replaceFrom old new s.length (s ++ t) = replaceAll old new t := by
  induction s with
  | nil => rfl
  | cons c s ih => exact ih

/-- An occurrence in front gives way. -/
theorem replaceAll_append_self (hold : old ≠ []) :
    replaceAll old new (old ++ t) = new ++ replaceAll old new t := by
  cases old with
  | nil => exact absurd rfl hold
  | cons c cs =>
    have hfront : (c :: cs).isPrefixOf (c :: (cs ++ t)) = true :=
      List.isPrefixOf_iff_prefix.mpr (List.prefix_append (c :: cs) t)
    simp only [replaceAll, List.cons_append, replaceFrom, hfront, if_true]
    exact congrArg (new ++ ·) (replaceFrom_length_append cs)

/-- A text in which no occurrence begins stays. -/
theorem replaceAll_append_of_absent (h : ∀ i < s.length, ¬ old <+: (s ++ t).drop i) :
    replaceAll old new (s ++ t) = s ++ replaceAll old new t := by
  induction s with
  | nil => rfl
  | cons c s ih =>
    have hfront : ¬ old <+: c :: (s ++ t) := h 0 (Nat.zero_lt_succ _)
    have hrest := ih fun i hi => h (i + 1) (Nat.succ_lt_succ hi)
    rw [List.cons_append, replaceAll, replaceFrom, if_neg (mt List.isPrefixOf_iff_prefix.mp hfront)]
    exact congrArg (c :: ·) hrest

/-- A character found within the first of two texts is in it. -/
theorem mem_drop_of_cons_in_front {c : Char} {l : List Char} {i : Nat} (hi : i < s.length)
    (h : c :: l <+: (s ++ t).drop i) : c ∈ s.drop i := by
  rw [List.drop_append_of_le_length hi.le, List.drop_eq_getElem_cons hi, List.cons_append,
    List.cons_prefix_cons] at h
  rw [List.drop_eq_getElem_cons hi, h.1]
  exact List.mem_cons_self

end Text

namespace Template

variable {param : String × Datum} {put : List String} {template : String}
  {params params' : Table Datum}

/-! ## Templates in parts -/

/-- A character of its own, or the place of a parameter. -/
inductive Part where
  | char (c : Char)
  | hole (param : String × Datum)

/-- What stands for a part when the parameters with these names are put in. -/
def Part.shown (put : List String) : Part → List Char
  | .char c => [c]
  | .hole param => if param.1 ∈ put then param.2.plain.toList else placeholder param.1

/-- What stands for a part in the end. -/
def Part.filled : Part → List Char
  | .char c => [c]
  | .hole param => param.2.plain.toList

/-- The part is an opening brace of its own. -/
def Part.opens : Part → Bool
  | .char c => c == '\x7b'
  | .hole _ => false

/-- The text when the parameters with these names are put in. -/
def shown (put : List String) (parts : List Part) : List Char := parts.flatMap (Part.shown put)

/-- The parts of a text after `skip` more characters, which belong to a placeholder. -/
def cutFrom (params : List (String × Datum)) (skip : Nat) : List Char → List Part
  | [] => []
  | c :: cs =>
    match skip with
    | skip + 1 => cutFrom params skip cs
    | 0 =>
      match params.find? fun param => (placeholder param.1).isPrefixOf (c :: cs) with
      | some param => .hole param :: cutFrom params ((placeholder param.1).length - 1) cs
      | none => .char c :: cutFrom params 0 cs

/-- The parts of a template, read once from left to right. -/
def cut (params : Table Datum) (template : String) : List Part :=
  cutFrom params.entries 0 template.toList

/-- All parameters are put in at once: each placeholder of the template gives way to its value, and
what is put in is not searched. -/
def fillAtOnce (template : String) (params : Table Datum) : String :=
  String.ofList ((cut params template).flatMap Part.filled)

@[simp] theorem placeholder_ne_nil (name : String) : placeholder name ≠ [] := List.cons_ne_nil _ _

@[simp] theorem shown_cons (put : List String) (part : Part) (parts : List Part) :
    shown put (part :: parts) = part.shown put ++ shown put parts := List.flatMap_cons

/-- Nothing being put in, the parts are the text. -/
theorem shown_nil_cutFrom (params : List (String × Datum)) (skip : Nat) (s : List Char) :
    shown [] (cutFrom params skip s) = s.drop skip := by
  fun_induction cutFrom params skip s with
  | case1 skip => exact List.drop_nil.symm
  | case2 c cs skip ih => exact ih
  | case3 c cs param hfind ih =>
    have hfront : (placeholder param.1).isPrefixOf (c :: cs) = true := by
      simpa using List.find?_some hfind
    obtain ⟨rest, hrest⟩ := List.isPrefixOf_iff_prefix.mp hfront
    have hcs : cs = (placeholder param.1).tail ++ rest := congrArg List.tail hrest.symm
    have hskip : cs.drop ((placeholder param.1).length - 1) = rest := by
      rw [hcs, ← List.length_tail, List.drop_left]
    rw [shown_cons, ih, hskip, Part.shown, if_neg List.not_mem_nil, hrest, List.drop_zero]
  | case4 c cs hnone ih => rw [shown_cons, ih]; rfl

/-- Every hole is the place of one of the parameters. -/
theorem mem_of_hole_mem_cutFrom {params : List (String × Datum)} {skip : Nat} {s : List Char}
    (h : .hole param ∈ cutFrom params skip s) : param ∈ params := by
  fun_induction cutFrom params skip s with
  | case1 skip => cases h
  | case2 c cs skip ih => exact ih h
  | case3 c cs found hfind ih =>
    rcases List.mem_cons.mp h with heq | hmem
    · cases heq
      exact List.mem_of_find?_eq_some hfind
    · exact ih hmem
  | case4 c cs hnone ih =>
    rcases List.mem_cons.mp h with heq | hmem
    · cases heq
    · exact ih hmem

/-- At a character of its own no placeholder begins. -/
theorem absent_of_char_suffix {params : List (String × Datum)} {skip : Nat} {s : List Char}
    {c : Char} {rest : List Part} (h : .char c :: rest <:+ cutFrom params skip s) :
    ∃ cs, rest = cutFrom params 0 cs ∧ ∀ param ∈ params, ¬ placeholder param.1 <+: c :: cs := by
  fun_induction cutFrom params skip s with
  | case1 skip => exact absurd (List.suffix_nil.mp h) (List.cons_ne_nil _ _)
  | case2 c cs skip ih => exact ih h
  | case3 c cs param hfind ih =>
    rcases List.suffix_cons_iff.mp h with heq | hrest
    · cases heq
    · exact ih hrest
  | case4 c' cs hnone ih =>
    rcases List.suffix_cons_iff.mp h with heq | hrest
    · cases heq
      exact ⟨cs, rfl, fun param hparam hfront =>
        List.find?_eq_none.mp hnone param hparam (List.isPrefixOf_iff_prefix.mpr hfront)⟩
    · exact ih hrest

theorem shown_eq_filled {parts : List Part} (h : ∀ param, .hole param ∈ parts → param.1 ∈ put) :
    shown put parts = parts.flatMap Part.filled := by
  apply List.flatMap_congr
  intro part hpart
  cases part with
  | char c => rfl
  | hole param => exact if_pos (h param hpart)

/-! ## Settled templates -/

/-- Whichever parameters are put in, the placeholder of another one begins nowhere but at its own
holes: not in the text, not in a value, not across the border of two parts. -/
def Settled (params : Table Datum) (template : String) : Prop :=
  ∀ put : List String, ∀ param ∈ params.entries, param.1 ∉ put →
    ∀ part rest, part :: rest <:+ cut params template → part ≠ .hole param →
      ∀ i < (part.shown put).length, ¬ placeholder param.1 <+: (shown put (part :: rest)).drop i

/-- A single parameter is always put in at once: what replaces it is not searched again. -/
theorem settled_of_single (h : params.entries = [param]) : Settled params template := by
  intro put p hp hput part rest hsuffix hpart i hi hfront
  obtain rfl : p = param := by simpa [h] using hp
  rw [cut, h] at hsuffix
  cases part with
  | hole q =>
    have hq : q ∈ [p] := mem_of_hole_mem_cutFrom (hsuffix.subset List.mem_cons_self)
    exact hpart (congrArg Part.hole (List.mem_singleton.mp hq))
  | char c =>
    obtain ⟨cs, rfl, habsent⟩ := absent_of_char_suffix hsuffix
    have hnil : shown put (cutFrom [p] 0 cs) = shown [] (cutFrom [p] 0 cs) := by
      apply List.flatMap_congr
      intro part hmem
      cases part with
      | char c => rfl
      | hole q =>
        obtain rfl : q = p := List.mem_singleton.mp (mem_of_hole_mem_cutFrom hmem)
        rw [Part.shown, Part.shown, if_neg hput, if_neg List.not_mem_nil]
    obtain rfl : i = 0 := Nat.lt_one_iff.mp hi
    rw [shown_cons, hnil, shown_nil_cutFrom] at hfront
    exact habsent p List.mem_cons_self hfront

/-- The placeholder that stands in front is that of the name. -/
theorem eq_of_placeholder_in_front {name other : String} {t : List Char}
    (hname : '\x7d' ∉ name.toList) (hother : '\x7d' ∉ other.toList)
    (h : placeholder name <+: placeholder other ++ t) : name = other := by
  obtain ⟨u, hu⟩ := h
  have heq : name.toList ++ '\x7d' :: ('\x7d' :: u) = other.toList ++ '\x7d' :: ('\x7d' :: t) := by
    simpa [placeholder] using hu
  have before {s t : List Char} (hs : '\x7d' ∉ s) :
      (s ++ '\x7d' :: t).takeWhile (· ≠ '\x7d') = s := by
    have hall : ∀ c ∈ s, decide (c ≠ '\x7d') = true := fun c hc =>
      decide_eq_true (ne_of_mem_of_not_mem hc hs)
    rw [List.takeWhile_append_of_pos hall, List.takeWhile_cons_of_neg (by decide), List.append_nil]
  rw [← String.toList_inj, ← before hname, heq, before hother]

/-- Within a placeholder begins no other one, if the names have no braces. -/
theorem eq_of_placeholder_within {name other : String} {t : List Char} {i : Nat}
    (hname : '\x7d' ∉ name.toList) (hother : '\x7b' ∉ other.toList ∧ '\x7d' ∉ other.toList)
    (hi : i < (placeholder other).length)
    (h : placeholder name <+: (placeholder other ++ t).drop i) : name = other := by
  have hinner : '\x7b' ∉ (placeholder other).drop 2 := by simpa [placeholder] using hother.1
  -- After its first brace, one of the two opening braces would stand where there is none.
  match i with
  | 0 => exact eq_of_placeholder_in_front hname hother.2 h
  | 1 =>
    have htail := List.IsPrefix.drop h 1
    rw [List.drop_drop] at htail
    exact absurd (Text.mem_drop_of_cons_in_front (by simp [placeholder]) htail) hinner
  | i + 2 =>
    have hbrace := Text.mem_drop_of_cons_in_front hi h
    rw [Nat.add_comm, ← List.drop_drop] at hbrace
    exact absurd (List.mem_of_mem_drop hbrace) hinner

/-- **Without braces in the names, and with no opening brace in the values and in the text around
the holes, a template is settled.** -/
theorem settled_of_no_brace
    (hnames : ∀ name ∈ params.keys, '\x7b' ∉ name.toList ∧ '\x7d' ∉ name.toList)
    (hvalues : ∀ param ∈ params.entries, '\x7b' ∉ param.2.plain.toList)
    (htext : (cut params template).any Part.opens = false) : Settled params template := by
  intro put param hparam hput part rest hsuffix hpart i hi hfront
  have hmem : part ∈ cut params template := hsuffix.subset List.mem_cons_self
  rw [shown_cons] at hfront
  have hbrace : '\x7b' ∈ (part.shown put).drop i := Text.mem_drop_of_cons_in_front hi hfront
  cases part with
  | char c =>
    have hc : '\x7b' = c := List.mem_singleton.mp (List.mem_of_mem_drop hbrace)
    exact List.any_eq_false.mp htext _ hmem (beq_iff_eq.mpr hc.symm)
  | hole p =>
    have hp : p ∈ params.entries := mem_of_hole_mem_cutFrom hmem
    by_cases hin : p.1 ∈ put
    · rw [Part.shown, if_pos hin] at hbrace
      exact hvalues p hp (List.mem_of_mem_drop hbrace)
    · rw [Part.shown, if_neg hin] at hi hfront
      have hsame : param.1 = p.1 :=
        eq_of_placeholder_within (hnames param.1 (List.mem_map_of_mem hparam)).2
          (hnames p.1 (List.mem_map_of_mem hp)) hi hfront
      have heq : param = p := List.inj_on_of_nodup_map params.nodup_keys hparam hp hsame
      exact hpart (congrArg Part.hole heq.symm)

/-! ## One parameter after the other -/

/-- **One parameter goes into its holes**, and nothing else changes. -/
theorem fillOne_shown {parts : List Part} (hput : param.1 ∉ put)
    (h : ∀ part rest, part :: rest <:+ parts → part ≠ .hole param →
      ∀ i < (part.shown put).length,
        ¬ placeholder param.1 <+: (shown put (part :: rest)).drop i) :
    fillOne (shown put parts) param = shown (param.1 :: put) parts := by
  induction parts with
  | nil => rfl
  | cons part rest ih =>
    have hrest : fillOne (shown put rest) param = shown (param.1 :: put) rest :=
      ih fun part' rest' hsuffix => h part' rest' (hsuffix.trans (List.suffix_cons part rest))
    rw [shown_cons, shown_cons, ← hrest]
    -- The search stops at a hole of the parameter, and passes over any other part.
    by_cases hpart : part = .hole param
    · subst hpart
      rw [Part.shown, Part.shown, if_neg hput, if_pos List.mem_cons_self]
      exact Text.replaceAll_append_self (placeholder_ne_nil param.1)
    · have hnot := h part rest List.suffix_rfl hpart
      have hsame : part.shown (param.1 :: put) = part.shown put := by
        cases part with
        | char c => rfl
        | hole p =>
          have hne : p.1 ≠ param.1 := by
            intro heq
            have hshown : (Part.hole p).shown put = placeholder param.1 := by
              rw [Part.shown, heq, if_neg hput]
            rw [shown_cons, hshown] at hnot
            exact hnot 0 (List.length_pos_of_ne_nil (placeholder_ne_nil _))
              (List.prefix_append _ _)
          simp only [Part.shown, List.mem_cons, hne, false_or]
      rw [hsame]
      exact Text.replaceAll_append_of_absent (by simpa only [shown_cons] using hnot)

/-- Parameters that are put in one after the other go into their holes. -/
theorem foldl_fillOne_shown (h : Settled params template) {todo : List (String × Datum)}
    (hsub : todo ⊆ params.entries) (hnodup : (todo.map (·.1)).Nodup)
    (hput : ∀ param ∈ todo, param.1 ∉ put) :
    todo.foldl fillOne (shown put (cut params template)) =
      shown ((todo.map (·.1)).reverse ++ put) (cut params template) := by
  -- by induction on what is still to be put in, whatever has been put in before
  induction todo generalizing put with
  | nil => rfl
  | cons param todo ih =>
    obtain ⟨hparam, htodo⟩ := List.cons_subset.mp hsub
    obtain ⟨hfresh, hrest⟩ := List.nodup_cons.mp hnodup
    have hnew : param.1 ∉ put := hput param List.mem_cons_self
    have hlater : ∀ p ∈ todo, p.1 ∉ param.1 :: put := by
      intro p hp hmem
      rcases List.mem_cons.mp hmem with heq | hmem
      · have hmem : p.1 ∈ todo.map (·.1) := List.mem_map_of_mem hp
        exact hfresh (show param.1 ∈ todo.map (·.1) from heq ▸ hmem)
      · exact hput p (List.mem_cons_of_mem _ hp) hmem
    rw [List.foldl_cons, fillOne_shown hnew (h put param hparam hnew), ih htodo hrest hlater]
    simp

/-- Parameters put in one after the other fill the holes of a settled template, in any order. -/
theorem foldl_fillOne_eq_filled (h : Settled params template)
    (hperm : params'.entries.Perm params.entries) :
    params'.entries.foldl fillOne template.toList =
      (cut params template).flatMap Part.filled := by
  have htemplate : template.toList = shown [] (cut params template) :=
    (shown_nil_cutFrom params.entries 0 template.toList).symm
  rw [htemplate, foldl_fillOne_shown h hperm.subset params'.nodup_keys fun _ _ => List.not_mem_nil]
  apply shown_eq_filled
  intro param hmem
  have hparam : param ∈ params'.entries := hperm.mem_iff.mpr (mem_of_hole_mem_cutFrom hmem)
  simpa using ⟨param.2, hparam⟩

/-- **The order of the parameters is of no account for a settled template**: in any of them, each
placeholder of the template gives way to the value of its parameter, and what is put in is not
searched again. Nor is it of account for whether all of them can be written. -/
theorem fill_eq_fillAtOnce (h : Settled params template)
    (hperm : params'.entries.Perm params.entries) :
    fill template params' = fillAtOnce template params ∧
      interpolate template params' =
        if params.entries.all fun param => param.2.isWritable then
          .ok (fillAtOnce template params)
        else .error .tooLong := by
  have hfill : fill template params' = fillAtOnce template params :=
    congrArg String.ofList (foldl_fillOne_eq_filled h hperm)
  refine ⟨hfill, ?_⟩
  rw [interpolate, hfill, hperm.all_eq]

/-- A value that reads like another placeholder is searched again, if that one comes later. -/
theorem fill_depends_on_order :
    ∃ template params params', params'.entries.Perm params.entries ∧
      interpolate template params = .ok "x" ∧
      interpolate template params' = .ok "\x7b\x7bb\x7d\x7d" ∧
      fill template params = "x" ∧ fill template params' = "\x7b\x7bb\x7d\x7d" ∧
      fillAtOnce template params = "\x7b\x7bb\x7d\x7d" :=
  ⟨"\x7b\x7ba\x7d\x7d", .ofList [("a", .text "\x7b\x7bb\x7d\x7d"), ("b", .text "x")],
    .ofList [("b", .text "x"), ("a", .text "\x7b\x7bb\x7d\x7d")],
    .swap _ _ _, by decide +kernel, by decide +kernel, by decide +kernel, by decide +kernel,
    by decide +kernel⟩

/-- Each placeholder of this template gives way to its value, whichever parameter comes first. -/
theorem fill_eq_fillAtOnce_of_sum :
    ∃ template params params', Settled params template ∧
      params'.entries.Perm params.entries ∧ params'.keys ≠ params.keys ∧
      interpolate template params' = .ok "2 + 2 = 4" ∧
      fill template params' = fillAtOnce template params ∧
      fillAtOnce template params = "2 + 2 = 4" := by
  let template := "\x7b\x7bn\x7d\x7d + \x7b\x7bn\x7d\x7d = \x7b\x7bsum\x7d\x7d"
  let params : Table Datum := .ofList [("n", .integer 2), ("sum", .integer 4)]
  let params' : Table Datum := .ofList [("sum", .integer 4), ("n", .integer 2)]
  have hsettled : Settled params template :=
    settled_of_no_brace (by decide +kernel) (by decide +kernel) (by decide +kernel)
  have hperm : params'.entries.Perm params.entries := .swap _ _ _
  obtain ⟨hfill, hinterpolate⟩ := fill_eq_fillAtOnce hsettled hperm
  have htext : fillAtOnce template params = "2 + 2 = 4" := by decide +kernel
  have hwritable : (params.entries.all fun param => param.2.isWritable) = true := by
    decide +kernel
  rw [htext, if_pos hwritable] at hinterpolate
  exact ⟨template, params, params', hsettled, hperm, by decide +kernel, hinterpolate, hfill, htext⟩

end Template

end TimedQuiz
