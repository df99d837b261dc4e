import FairLock.Config
import FairLock.Json.Digits

/-!
# Words and numbers in plain text

Small readers for settings that are given as text.
-/

namespace FairLock.Text

/-- The text in lower case, as far as the plain letters go. -/
def lowerCase (s : String) : String := String.ofList (s.toList.map Char.toLower)

/-- The natural number that a text writes down in digits, if it fits a word.  A plus sign may lead,
    and so may zeros. -/
def wordOf? (s : List Char) : Option Nat :=
  match s with
  | '+' :: digits => ofDigits? digits
  | digits => ofDigits? digits
where
  /-- The number that a row of digits stands for, if it fits a word. -/
  ofDigits? (ds : List Char) : Option Nat :=
    if ds.isEmpty ∨ !ds.all Char.isDigit then none
    else some (Json.ofDigits ds) |>.filter fun n => n < wordLimit

/-- The parts of a text between the separators. -/
def splitAt (separator : Char) : List Char → List (List Char)
  | [] => [[]]
  | c :: rest =>
    if c = separator then [] :: splitAt separator rest
    else
      match splitAt separator rest with
      | [] => [[c]]
      | part :: parts => (c :: part) :: parts

end FairLock.Text
