/-!
# Readers

A reader takes something off the front of a text, or refuses the text.  Readers are put together
from smaller ones; the only one that loops is `Reader.many`, and it stops as soon as nothing is
taken, so that every reader comes to an end.

## Main definitions

* `Reader` — a reader and its ways of being put together.
* `Reader.char`, `Reader.word`, `Reader.takeWhile`, `Reader.atEnd` — taking characters.
* `Reader.optional`, `Reader.many`, `Reader.separated` — taking something several times.
-/

namespace CrateScope

namespace Toml

/-- What takes something off the front of a text, and leaves the rest. -/
def Reader (α : Type) : Type := List Char → Option (α × List Char)

namespace Reader

variable {α β : Type}

instance : Monad Reader where
  pure a := fun text => some (a, text)
  bind read next := fun text =>
    match read text with
    | none => none
    | some (a, rest) => next a rest

/-- Refuses every text. -/
def refuse : Reader α := fun _ => none

/-- Takes nothing, and has the value if there is one. -/
def ofOption : Option α → Reader α
  | none => refuse
  | some a => pure a

/-- Reads with the first reader, or where that refuses with the second. -/
def orElse (first second : Reader α) : Reader α := fun text =>
  match first text with
  | none => second text
  | some result => some result

/-- Reads with the first reader that does not refuse. -/
def firstOf : List (Reader α) → Reader α
  | [] => refuse
  | reader :: readers => reader.orElse (firstOf readers)

/-! ### Characters -/

/-- Takes one character that passes a test. -/
def satisfy (test : Char → Bool) : Reader Char
  | [] => none
  | c :: rest => if test c then some (c, rest) else none

/-- Takes one given character. -/
def char (c : Char) : Reader Char := satisfy (· == c)

/-- Takes some given characters. -/
def word (cs : List Char) : Reader Unit := fun text =>
  if cs.isPrefixOf text then some ((), text.drop cs.length) else none

/-- Takes all characters up to the first that does not pass a test. -/
def takeWhile (test : Char → Bool) : Reader (List Char) := fun text =>
  some (text.span test)

/-- Takes at least one character, up to the first that does not pass a test. -/
def takeSome (test : Char → Bool) : Reader (List Char) := do
  let first ← satisfy test
  let others ← takeWhile test
  return first :: others

/-- Takes nothing, at the end of the text only. -/
def atEnd : Reader Unit
  | [] => some ((), [])
  | _ => none

/-! ### Repetition -/

/-- Reads something if it is there. -/
def optional (reader : Reader α) : Reader (Option α) :=
  orElse (do return some (← reader)) (pure none)

/-- Reads something as often as it is there.  Taking nothing does not count as reading. -/
def many (reader : Reader α) : Reader (List α) := fun text =>
  match reader text with
  | none => some ([], text)
  | some (a, rest) =>
    if rest.length < text.length then
      match many reader rest with
      | none => none
      | some (others, rest) => some (a :: others, rest)
    else some ([], text)
termination_by text => text.length

/-- Reads something at least once, with a separator between each two. -/
def separated (reader : Reader α) (separator : Reader β) : Reader (List α) := do
  let first ← reader
  let others ← many (do let _ ← separator; reader)
  return first :: others

end Reader

end Toml

end CrateScope
