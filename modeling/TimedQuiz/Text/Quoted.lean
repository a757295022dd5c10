import TimedQuiz.Text.Printable

/-!
# Quoted texts

A text is quoted between apostrophes, or between quotation marks if it holds an apostrophe and no
quotation mark. Inside, the mark in use and the backslash are escaped by a backslash, the line
feed, carriage return and tab by their letters, and every other character that is not printable by
its code in the shortest of three hexadecimal forms.

* `quote` — the quoted form of a text.
-/

namespace TimedQuiz.Text

/-- The mark that quotes most texts. -/
def apostrophe : Char := Char.ofNat 0x27

/-- The mark that quotes texts with apostrophes only. -/
def quotationMark : Char := Char.ofNat 0x22

/-- The hexadecimal digits of a code, filled up with zeros. -/
def hexCode (width code : Nat) : List Char :=
  let digits := Nat.toDigits 16 code
  List.replicate (width - digits.length) '0' ++ digits

/-- The mark to quote a text with. -/
def markFor (s : List Char) : Char :=
  if s.contains apostrophe && !s.contains quotationMark then quotationMark else apostrophe

/-- How one character is written between two marks. -/
def escape (mark c : Char) : List Char :=
  if c = mark ∨ c = '\\' then ['\\', c]
  else if c = '\n' then ['\\', 'n']
  else if c = '\r' then ['\\', 'r']
  else if c = '\t' then ['\\', 't']
  else if isPrintable c then [c]
  else if c.toNat < 0x100 then '\\' :: 'x' :: hexCode 2 c.toNat
  else if c.toNat < 0x10000 then '\\' :: 'u' :: hexCode 4 c.toNat
  else '\\' :: 'U' :: hexCode 8 c.toNat

/-- The quoted form of a text. -/
def quoteChars (s : List Char) : List Char :=
  let mark := markFor s
  mark :: (s.flatMap (escape mark) ++ [mark])

/-- The quoted form of a string. -/
def quote (s : String) : String := String.ofList (quoteChars s.toList)

end TimedQuiz.Text
