import Bindery.Text.Basic

/-!
# Markup

A word between brackets is a tag, and a backslash before a bracket takes its meaning
away.  A text is guarded against both.
-/

namespace Bindery.Console

/-- Whether a bracket starts a tag, given what follows it. -/
def startsTag : List Char → Bool
  | [] => false
  | c :: rest =>
    (c.isLower || ['#', '/', '@'].contains c) &&
      rest.find? (fun c => c == '[' || c == ']') == some ']'

def backslashes (count : Nat) : List Char :=
  List.replicate count '\\'

def closingTag (style : String) : List Char :=
  "[/".toList ++ style.toList ++ [']']

/-- What is shown of the backslashes at the end of a text.  A single one is doubled; before the tag
that closes a style, a pair of them is one, and an odd one takes the meaning of the tag away. -/
def shownEnd (style : Option String) (count : Nat) : List Char :=
  let guarded := if count = 1 then 2 else count
  match style with
  | none => backslashes guarded
  | some style =>
    backslashes (guarded / 2) ++ if guarded % 2 = 1 then closingTag style else []

/-- What is shown of a text that stands behind a number of backslashes. -/
def shownBehind (style : Option String) : (count : Nat) → List Char → List Char
  | count, [] => shownEnd style count
  | count, '\\' :: rest => shownBehind style (count + 1) rest
  | count, '[' :: rest =>
    backslashes (if startsTag rest then count else count - 1) ++
      '[' :: shownBehind style 0 rest
  | count, c :: rest => backslashes count ++ c :: shownBehind style 0 rest

/-- What is shown of a guarded text, in a style or in none. -/
def shown (style : Option String) (text : List Char) : List Char :=
  shownBehind style 0 text

end Bindery.Console
