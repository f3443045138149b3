import CrateScope.Description
import CrateScope.Toml.Reader

/-!
# Strings, numbers and dates

The values of a TOML text that have no parts.

## Main definitions

* `stringReader` — the four forms of strings.
* `scalarOf?` — what a word that is neither a string nor a bracket stands for.
* `scalarReader` — such a word, taken off a text.

Characters are those of TOML: every control character but the tab is refused, and a line ends with a
line feed that may have a carriage return before it.
-/

namespace CrateScope

namespace Toml

open Description

/-! ### Characters -/

/-- Blanks inside a line. -/
def isSpace (c : Char) : Bool := c == ' ' || c == '\t'

/-- Characters that can stand in a line: the tab, and all but the control characters of ASCII. -/
def isLineChar (c : Char) : Bool :=
  c == '\t' || (0x20 ≤ c.toNat && c.toNat ≠ 0x7F)

/-- Characters that stand for themselves between double quotes. -/
def isBasicChar (c : Char) : Bool := isLineChar c && c ≠ '"' && c ≠ '\\'

/-- Characters that stand for themselves between single quotes. -/
def isLiteralChar (c : Char) : Bool := isLineChar c && c ≠ '\''

/-- Blanks inside a line, if any. -/
def spaces : Reader Unit := do
  let _ ← Reader.takeWhile isSpace

/-- The end of a line. -/
def newline : Reader Unit := (Reader.word ['\n']).orElse (Reader.word ['\r', '\n'])

/-! ### Strings -/

/-- The value of a hexadecimal digit. -/
def hexDigit? (c : Char) : Option Nat :=
  if '0' ≤ c ∧ c ≤ '9' then some (c.toNat - '0'.toNat)
  else if 'a' ≤ c ∧ c ≤ 'f' then some (c.toNat - 'a'.toNat + 10)
  else if 'A' ≤ c ∧ c ≤ 'F' then some (c.toNat - 'A'.toNat + 10)
  else none

/-- The character with a code point that is given by some hexadecimal digits. -/
def codePoint (length : Nat) : Reader Char := fun text => do
  let digits ← (text.take length).mapM hexDigit?
  let n := digits.foldl (fun n digit => 16 * n + digit) 0
  if digits.length = length ∧ n.isValidChar then some (.ofNat n, text.drop length) else none

/-- The character that a backslash and a letter stand for. -/
def escapedChars : List (Char × Char) :=
  [('b', '\x08'), ('t', '\t'), ('n', '\n'), ('f', '\x0c'), ('r', '\r'), ('"', '"'), ('\\', '\\')]

/-- A backslash and what it makes of the following characters. -/
def escape : Reader (List Char) := do
  let _ ← Reader.char '\\'
  let letter ← Reader.satisfy fun _ => true
  let c ←
    if letter = 'u' then codePoint 4
    else if letter = 'U' then codePoint 8
    else Reader.ofOption (escapedChars.lookup letter)
  return [c]

/-- A backslash at the end of a line, which takes all blanks and empty lines that follow. -/
def lineContinuation : Reader (List Char) := do
  let _ ← Reader.char '\\'
  spaces
  newline
  let _ ← Reader.many (newline.orElse (do let _ ← Reader.takeSome isSpace))
  return []

/-- The end of a line inside a string, which is always a line feed there. -/
def newlineInside : Reader (List Char) := do
  newline
  return ['\n']

/-- One or two quotes that do not end a string. -/
def quotesInside (quote : Char) : Reader (List Char) := do
  let quotes ← Reader.takeSome (· == quote)
  if quotes.length < 3 then return quotes else Reader.refuse

/-- The three quotes that end a string.  One or two more may stand before them. -/
def closingQuotes (quote : Char) : Reader (List Char) := do
  let quotes ← Reader.takeSome (· == quote)
  if 3 ≤ quotes.length ∧ quotes.length ≤ 5 then return quotes.drop 3 else Reader.refuse

/-- A string over several lines. -/
def multilineString (quote : Char) (piece : Reader (List Char)) : Reader String := do
  Reader.word [quote, quote, quote]
  let _ ← Reader.optional newline
  let pieces ← Reader.many (Reader.firstOf [piece, newlineInside, quotesInside quote])
  let last ← closingQuotes quote
  return .ofList (pieces.flatten ++ last)

/-- A string within a line. -/
def lineString (quote : Char) (piece : Reader (List Char)) : Reader String := do
  let _ ← Reader.char quote
  let pieces ← Reader.many piece
  let _ ← Reader.char quote
  return .ofList pieces.flatten

/-- A string between double quotes. -/
def basicString : Reader String :=
  lineString '"' (Reader.firstOf [Reader.takeSome isBasicChar, escape])

/-- A string between single quotes. -/
def literalString : Reader String := lineString '\'' (Reader.takeSome isLiteralChar)

/-- A string in any of the four forms. -/
def stringReader : Reader String :=
  Reader.firstOf
    [multilineString '"'
      (Reader.firstOf [Reader.takeSome isBasicChar, lineContinuation, escape]),
     basicString,
     multilineString '\'' (Reader.takeSome isLiteralChar),
     literalString]

/-! ### Integers -/

/-- Whether a text is digits, with single underscores only between two of them. -/
def areDigits (isDigit : Char → Bool) : List Char → Bool
  | [] => false
  | [c] => isDigit c
  | c :: '_' :: rest => isDigit c && areDigits isDigit rest
  | c :: rest => isDigit c && areDigits isDigit rest

/-- The number that some digits stand for. -/
def numberOf (base : Nat) (digits : List Char) : Nat :=
  (digits.filterMap hexDigit?).foldl (fun n digit => base * n + digit) 0

/-- Whether a digit is one of a base of at most sixteen. -/
def isDigitOf (base : Nat) (c : Char) : Bool := (hexDigit? c).any (· < base)

/-- A number without a sign that is written in some base. -/
def natural? (base : Nat) (text : List Char) : Option Nat :=
  if areDigits (isDigitOf base) text then some (numberOf base text) else none

/-- A decimal number without a sign.  It starts with a zero only if it is zero. -/
def decimal? (text : List Char) : Option Nat :=
  if text.head? = some '0' ∧ text ≠ ['0'] then none else natural? 10 text

/-- Splits a sign off. -/
def splitSign : List Char → Bool × List Char
  | '-' :: rest => (true, rest)
  | '+' :: rest => (false, rest)
  | text => (false, text)

/-- An integer of any size.  Only decimal ones have a sign. -/
def anyInteger? : List Char → Option Int
  | '0' :: 'x' :: digits => (natural? 16 digits).map Int.ofNat
  | '0' :: 'o' :: digits => (natural? 8 digits).map Int.ofNat
  | '0' :: 'b' :: digits => (natural? 2 digits).map Int.ofNat
  | text =>
    let (isNegative, digits) := splitSign text
    (decimal? digits).map fun n => if isNegative then -(n : Int) else n

/-- An integer that fits in sixty-four bits. -/
def integer? (text : List Char) : Option Int :=
  (anyInteger? text).filter fun n => -0x8000000000000000 ≤ n && n < 0x8000000000000000

/-! ### Other numbers -/

/-- A number that reaches a multiple of a power of ten has at least as many binary digits as the
power has zeros. -/
theorem le_log2_of_mul_pow_le {bound k n : Nat} (hb : 0 < bound) (h : bound * Nat.pow 10 k ≤ n) :
    k ≤ n.log2 := by
  have hk : Nat.pow 2 k ≤ n :=
    calc
      Nat.pow 2 k ≤ Nat.pow 10 k := Nat.pow_le_pow_left (by decide) k
      _ ≤ bound * Nat.pow 10 k := Nat.le_mul_of_pos_left _ hb
      _ ≤ n := h
  exact (Nat.le_log2 (Nat.ne_of_gt (Nat.lt_of_lt_of_le (Nat.two_pow_pos k) hk))).2 hk

/-- Whether a positive number, given as `digits` times a power of ten, is too large for a floating
point number of sixty-four bits.  The bound lies halfway between the largest and what would be the
next one.  A power of ten is only worked out where it can matter: one that divides if the digits can
reach it, and one that multiplies if it does not reach the bound by itself. -/
def isTooLarge (digits : Nat) (exponent : Int) : Bool :=
  let bound := Nat.pow 2 1024 - Nat.pow 2 970
  if digits = 0 then false
  else if exponent ≤ 0 then
    exponent.natAbs ≤ digits.log2 && bound * Nat.pow 10 exponent.natAbs ≤ digits
  else 400 < exponent || bound ≤ digits * Nat.pow 10 exponent.natAbs

/-- No power of ten that is left out makes a difference. -/
theorem isTooLarge_iff {digits : Nat} (hdigits : digits ≠ 0) (exponent : Int) :
    isTooLarge digits exponent = true ↔
      (Nat.pow 2 1024 - Nat.pow 2 970) * Nat.pow 10 (-exponent).toNat
        ≤ digits * Nat.pow 10 exponent.toNat := by
  have hbound : 0 < Nat.pow 2 1024 - Nat.pow 2 970 := by decide +kernel
  have hlarge : Nat.pow 2 1024 - Nat.pow 2 970 ≤ Nat.pow 10 400 := by decide +kernel
  unfold isTooLarge
  generalize Nat.pow 2 1024 - Nat.pow 2 970 = bound at hbound hlarge ⊢
  simp only [if_neg hdigits]
  split
  · next hle =>
    have hup : exponent.toNat = 0 := by omega
    have hdown : (-exponent).toNat = exponent.natAbs := by omega
    rw [hup, hdown, Bool.and_eq_true, decide_eq_true_iff, decide_eq_true_iff,
      show Nat.pow 10 0 = 1 from rfl, Nat.mul_one]
    exact and_iff_right_of_imp (le_log2_of_mul_pow_le hbound)
  · next hpos =>
    have hup : exponent.toNat = exponent.natAbs := by omega
    have hdown : (-exponent).toNat = 0 := by omega
    rw [hup, hdown, Bool.or_eq_true, decide_eq_true_iff, decide_eq_true_iff,
      show Nat.pow 10 0 = 1 from rfl, Nat.mul_one]
    refine or_iff_right_of_imp fun hfar => ?_
    have hgrows : ∀ j k, j ≤ k → Nat.pow 10 j ≤ Nat.pow 10 k :=
      fun _ _ => Nat.pow_le_pow_right (by decide)
    calc
      bound ≤ Nat.pow 10 400 := hlarge
      _ ≤ Nat.pow 10 exponent.natAbs := hgrows 400 _ (by omega)
      _ ≤ digits * Nat.pow 10 exponent.natAbs :=
        Nat.le_mul_of_pos_left _ (Nat.pos_of_ne_zero hdigits)

/-- The exponent of a number, after the letter that starts it. -/
def exponent? (text : List Char) : Option Int :=
  let (isNegative, digits) := splitSign text
  (natural? 10 digits).map fun n => if isNegative then -(n : Int) else n

/-- Whether a text is a number with a fraction or an exponent. -/
def isFractional (text : List Char) : Bool :=
  let (isNegative, text) := splitSign text
  if text = ['i', 'n', 'f'] ∨ text = ['n', 'a', 'n'] then true
  else
    let isExponentSign := fun c => c == 'e' || c == 'E'
    let (mantissa, exponentPart) := text.span fun c => !isExponentSign c
    let (whole, fractionPart) := mantissa.span (· ≠ '.')
    let exponent :=
      match exponentPart with
      | [] => some 0
      | _ :: digits => exponent? digits
    let fraction :=
      match fractionPart with
      | [] => some []
      | _ :: digits => (natural? 10 digits).map fun _ => digits.filter (· ≠ '_')
    match decimal? whole, fraction, exponent with
    | some _, some fraction, some exponent =>
      let digits := numberOf 10 (whole ++ fraction)
      !(exponentPart.isEmpty && fractionPart.isEmpty)
        && (isNegative || !isTooLarge digits (exponent - fraction.length))
    | _, _, _ => false

/-! ### Dates and times -/

/-- The number that some digits without underscores stand for, if it lies within bounds. -/
def within? (least greatest : Nat) (digits : List Char) : Option Nat := do
  let n := numberOf 10 digits
  if digits.all (isDigitOf 10) ∧ least ≤ n ∧ n ≤ greatest then some n else none

/-- The number of days of a month. -/
def daysIn (year month : Nat) : Nat :=
  if month = 2 then
    if year % 4 = 0 ∧ (year % 100 ≠ 0 ∨ year % 400 = 0) then 29 else 28
  else if month = 4 ∨ month = 6 ∨ month = 9 ∨ month = 11 then 30
  else 31

/-- Whether a text is a date: year, month and day. -/
def isDay : List Char → Bool
  | [y₁, y₂, y₃, y₄, '-', m₁, m₂, '-', d₁, d₂] =>
    match within? 0 9999 [y₁, y₂, y₃, y₄], within? 1 12 [m₁, m₂] with
    | some year, some month => (within? 1 (daysIn year month) [d₁, d₂]).isSome
    | _, _ => false
  | _ => false

/-- Whether a text is a time of day: hours, minutes, seconds, and perhaps parts of a second. -/
def isTime : List Char → Bool
  | h₁ :: h₂ :: ':' :: m₁ :: m₂ :: ':' :: s₁ :: s₂ :: fraction =>
    (within? 0 23 [h₁, h₂]).isSome && (within? 0 59 [m₁, m₂]).isSome
      && (within? 0 60 [s₁, s₂]).isSome
      && match fraction with
        | [] => true
        | '.' :: digits => !digits.isEmpty && digits.all (isDigitOf 10)
        | _ => false
  | _ => false

/-- Whether a text is a distance from universal time. -/
def isOffset : List Char → Bool
  | ['Z'] => true
  | ['z'] => true
  | [sign, h₁, h₂, ':', m₁, m₂] =>
    (sign == '+' || sign == '-') && (within? 0 23 [h₁, h₂]).isSome
      && (within? 0 59 [m₁, m₂]).isSome
  | _ => false

/-- Whether a text is a time of day, perhaps with a distance from universal time. -/
def isZonedTime (text : List Char) : Bool :=
  let (time, offset) := text.span fun c => c ≠ 'Z' && c ≠ 'z' && c ≠ '+' && c ≠ '-'
  isTime time && (offset.isEmpty || isOffset offset)

/-- Whether a text is a date, a time of day, or both with a `T` between them. -/
def isDateOrTime (text : List Char) : Bool :=
  let (day, rest) := text.splitAt 10
  isTime text || (isDay day &&
    match rest with
    | [] => true
    | 'T' :: time => isZonedTime time
    | 't' :: time => isZonedTime time
    | _ => false)

/-! ### Words -/

/-- Characters of words that are no strings. -/
def isWordChar (c : Char) : Bool :=
  c.isAlphanum || c == '+' || c == '-' || c == '.' || c == '_' || c == ':'

/-- What a word that is no string stands for. -/
def scalarOf? (word : List Char) : Option Value :=
  if word = ['t', 'r', 'u', 'e'] then some (.bool true)
  else if word = ['f', 'a', 'l', 's', 'e'] then some (.bool false)
  else
    match integer? word with
    | some n => some (.int n)
    | none => if isFractional word then some .float
      else if isDateOrTime word then some .date
      else none

/-- A word that is no string.  A date may have a time of day after a blank. -/
def scalarReader : Reader Value := do
  let word ← Reader.takeSome isWordChar
  if isDay word then
    let _ ← Reader.optional do
      let _ ← Reader.char ' '
      let time ← Reader.takeSome isWordChar
      if isZonedTime time then return () else Reader.refuse
    return .date
  else Reader.ofOption (scalarOf? word)

end Toml

end CrateScope
