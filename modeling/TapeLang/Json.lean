import TapeLang.Text.Decimal

/-!
# JSON texts

A strict reader: no comments, no trailing commas, no leading zeros, no raw control characters in strings, and nothing but
blanks around the value.  What is read is kept as written where that matters: an object keeps all its members in order,
a number knows whether it was written as a whole number, and a string with an unpaired surrogate escape is kept as a
string without text.
-/

namespace TapeLang.Json

/-- A number as written. -/
structure Numeral where
  /-- Whether it has a minus sign. -/
  negative : Bool
  /-- The digits before the point. -/
  magnitude : Nat
  /-- Whether it has neither a fraction nor an exponent. -/
  whole : Bool
deriving DecidableEq

/-- A JSON value. -/
inductive Value where
  | null
  | bool (value : Bool)
  | number (value : Numeral)
  /-- A string; none if its escapes do not make up a text. -/
  | string (text : Option (List Char))
  | array (items : List Value)
  | object (members : List (Option (List Char) × Value))

/-! ## Tokens -/

/-- The blanks between tokens. -/
def isBlank (c : Char) : Bool := c == ' ' || c == '\t' || c == '\n' || c == '\r'

/-- Drops the blanks in front. -/
def skipBlanks (cs : List Char) : List Char := cs.dropWhile isBlank

/-- Drops a word that must stand in front. -/
def expect : List Char → List Char → Option (List Char)
  | [], cs => some cs
  | w :: ws, c :: cs => if w = c then expect ws cs else none
  | _ :: _, [] => none

/-- A non-empty run of digits and the rest. -/
def digits (cs : List Char) : Option (Nat × List Char) :=
  (Text.readDigits (cs.takeWhile Char.isDigit)).map (·, cs.dropWhile Char.isDigit)

/-- A whole number without leading zeros. -/
def magnitude : List Char → Option (Nat × List Char)
  | '0' :: cs => some (0, cs)
  | cs => digits cs

/-- A fraction, if one starts here; whether it did. -/
def fraction : List Char → Option (Bool × List Char)
  | '.' :: cs => (digits cs).map fun (_, rest) => (true, rest)
  | cs => some (false, cs)

/-- The digits of an exponent behind its sign. -/
def exponentDigits : List Char → Option (Nat × List Char)
  | '+' :: cs => digits cs
  | '-' :: cs => digits cs
  | cs => digits cs

/-- An exponent, if one starts here; whether it did. -/
def exponent : List Char → Option (Bool × List Char)
  | 'e' :: cs => (exponentDigits cs).map fun (_, rest) => (true, rest)
  | 'E' :: cs => (exponentDigits cs).map fun (_, rest) => (true, rest)
  | cs => some (false, cs)

/-- A number behind its sign. -/
def unsignedNumber (negative : Bool) (cs : List Char) : Option (Numeral × List Char) := do
  let (n, cs) ← magnitude cs
  let (hasFraction, cs) ← fraction cs
  let (hasExponent, cs) ← exponent cs
  return (⟨negative, n, !hasFraction && !hasExponent⟩, cs)

/-- A number. -/
def number : List Char → Option (Numeral × List Char)
  | '-' :: cs => unsignedNumber true cs
  | cs => unsignedNumber false cs

/-- The value of a hexadecimal digit. -/
def hexDigit? (c : Char) : Option Nat :=
  if c.isDigit then some (c.toNat - '0'.toNat)
  else if 'a' ≤ c ∧ c ≤ 'f' then some (c.toNat - 'a'.toNat + 10)
  else if 'A' ≤ c ∧ c ≤ 'F' then some (c.toNat - 'A'.toNat + 10)
  else none

/-- The value of four hexadecimal digits. -/
def hex4? (a b c d : Char) : Option Nat := do
  return ((((← hexDigit? a) * 16 + (← hexDigit? b)) * 16 + (← hexDigit? c)) * 16 + (← hexDigit? d))

/-- The code point that a one-letter escape stands for. -/
def shortEscape? : Char → Option Nat
  | '"' => some 0x22
  | '\\' => some 0x5C
  | '/' => some 0x2F
  | 'b' => some 0x08
  | 'f' => some 0x0C
  | 'n' => some 0x0A
  | 'r' => some 0x0D
  | 't' => some 0x09
  | _ => none

/-- The code points of a string up to its closing quote, escapes replaced; `done` holds those already read, last first. -/
def stringBody (done : List Nat) : List Char → Option (List Nat × List Char)
  | [] => none
  | '"' :: rest => some (done.reverse, rest)
  | '\\' :: 'u' :: a :: b :: c :: d :: rest =>
    match hex4? a b c d with
    | some n => stringBody (n :: done) rest
    | none => none
  | '\\' :: c :: rest =>
    match shortEscape? c with
    | some n => stringBody (n :: done) rest
    | none => none
  | c :: rest => if c.toNat < 0x20 ∨ c = '\\' then none else stringBody (c.toNat :: done) rest

/-- Whether a code point is the first half of a pair. -/
def isHighSurrogate (n : Nat) : Bool := 0xD800 ≤ n && n < 0xDC00

/-- Whether a code point is the second half of a pair. -/
def isLowSurrogate (n : Nat) : Bool := 0xDC00 ≤ n && n < 0xE000

/-- The text of a list of code points, if every half has its other half; `done` holds what is already made up. -/
def textOf (done : List Char) : List Nat → Option (List Char)
  | [] => some done.reverse
  | [n] => if isHighSurrogate n || isLowSurrogate n then none else some (Char.ofNat n :: done).reverse
  | n :: m :: rest =>
    if isHighSurrogate n && isLowSurrogate m then
      textOf (Char.ofNat (0x10000 + (n - 0xD800) * 0x400 + (m - 0xDC00)) :: done) rest
    else if isHighSurrogate n || isLowSurrogate n then none
    else textOf (Char.ofNat n :: done) (m :: rest)

/-- A string behind its opening quote. -/
def string (cs : List Char) : Option (Option (List Char) × List Char) :=
  (stringBody [] cs).map fun (points, rest) => (textOf [] points, rest)

/-! ## Values -/

mutual

/-- A value that starts here. -/
def value : Nat → List Char → Option (Value × List Char)
  | 0, _ => none
  | fuel + 1, cs =>
    match cs with
    | 'n' :: cs => (expect ['u', 'l', 'l'] cs).map (.null, ·)
    | 't' :: cs => (expect ['r', 'u', 'e'] cs).map (.bool true, ·)
    | 'f' :: cs => (expect ['a', 'l', 's', 'e'] cs).map (.bool false, ·)
    | '"' :: cs => (string cs).map fun (text, rest) => (.string text, rest)
    | '[' :: cs =>
      match skipBlanks cs with
      | ']' :: rest => some (.array [], rest)
      | cs => (elements fuel [] cs).map fun (items, rest) => (.array items, rest)
    | '\x7b' :: cs =>
      match skipBlanks cs with
      | '\x7d' :: rest => some (.object [], rest)
      | cs => (members fuel [] cs).map fun (members, rest) => (.object members, rest)
    | cs => (number cs).map fun (n, rest) => (.number n, rest)

/-- The elements of an array from the next one on; `done` holds those already read, last first. -/
def elements : Nat → List Value → List Char → Option (List Value × List Char)
  | 0, _, _ => none
  | fuel + 1, done, cs =>
    match value fuel cs with
    | none => none
    | some (v, cs) =>
      match skipBlanks cs with
      | ',' :: cs => elements fuel (v :: done) (skipBlanks cs)
      | ']' :: cs => some ((v :: done).reverse, cs)
      | _ => none

/-- The members of an object from the next one on; `done` holds those already read, last first. -/
def members : Nat → List (Option (List Char) × Value) → List Char →
    Option (List (Option (List Char) × Value) × List Char)
  | 0, _, _ => none
  | fuel + 1, done, cs =>
    match cs with
    | '"' :: cs =>
      match string cs with
      | none => none
      | some (key, cs) =>
        match skipBlanks cs with
        | ':' :: cs =>
          match value fuel (skipBlanks cs) with
          | none => none
          | some (v, cs) =>
            match skipBlanks cs with
            | ',' :: cs => members fuel ((key, v) :: done) (skipBlanks cs)
            | '\x7d' :: cs => some (((key, v) :: done).reverse, cs)
            | _ => none
        | _ => none
    | _ => none

end

/-- The value that a whole text denotes.  Each level of nesting and each element takes at most two steps. -/
def parse (cs : List Char) : Option Value :=
  match value (2 * cs.length + 2) (skipBlanks cs) with
  | some (v, rest) => if skipBlanks rest = [] then some v else none
  | none => none

/-! ## Reading what is expected -/

/-- Counts are written in 64 bits. -/
def maxCount : Nat := 18446744073709551616

namespace Value

/-- A count. -/
def count? : Value → Option Nat
  | number ⟨false, n, true⟩ => if n < maxCount then some n else none
  | _ => none

/-- A signed machine word.  A negative zero is not a whole number. -/
def word? : Value → Option Int64
  | number ⟨false, n, true⟩ => if n < 9223372036854775808 then some (Int64.ofInt n) else none
  | number ⟨true, n, true⟩ => if 0 < n ∧ n ≤ 9223372036854775808 then some (Int64.ofInt (-n)) else none
  | _ => none

/-- The members of an object whose names are all texts. -/
def fields? : Value → Option (List (List Char × Value))
  | object ms => ms.mapM fun (key, v) => key.map (·, v)
  | _ => none

end Value

/-- The member of a given name; none if there are two. -/
def field? (name : String) (fields : List (List Char × Value)) : Option (Option Value) :=
  match fields.filter (·.1 = name.toList) with
  | [] => some none
  | [(_, v)] => some (some v)
  | _ => none

end TapeLang.Json
