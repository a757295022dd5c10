/-!
# Replacing every occurrence of a text

* `replaceAll` — occurrences are found from left to right and do not overlap; what is put in is
  not searched again.
-/

namespace TimedQuiz.Text

/-- Goes on after `skip` more characters, which belong to an occurrence already replaced. -/
def replaceFrom (old new : List Char) (skip : Nat) : List Char → List Char
  | [] => []
  | c :: cs =>
    match skip with
    | skip + 1 => replaceFrom old new skip cs
    | 0 =>
      if old.isPrefixOf (c :: cs) then new ++ replaceFrom old new (old.length - 1) cs
      else c :: replaceFrom old new 0 cs

/-- Every occurrence of `old`, which is not empty, gives way to `new`. -/
def replaceAll (old new s : List Char) : List Char := replaceFrom old new 0 s

end TimedQuiz.Text
