import TapeLang.Json
import TapeLang.Toml.Value

/-!
# Strings, numbers and times of TOML documents

Each reader takes what it knows from the front of a text and gives the rest, or refuses.
-/

namespace TapeLang.Toml

/-! ## Blanks, line ends and comments -/

/-- The blanks within a line. -/
def isBlank (c : Char) : Bool := c == ' ' || c == '\t'

/-- Drops the blanks in front. -/
def skipBlanks (cs : List Char) : List Char := cs.dropWhile isBlank

/-- The characters that may stand in comments and, quotes and backslashes apart, in strings. -/
def isPrintable (c : Char) : Bool := c == '\t' || (0x20 ≤ c.toNat && c.toNat ≠ 0x7F)

/-- Drops a line end. -/
def newline? : List Char → Option (List Char)
  | '\n' :: cs => some cs
  | '\r' :: '\n' :: cs => some cs
  | _ => none

/-- Drops a comment, if there is one. -/
def skipComment : List Char → List Char
  | '#' :: cs => cs.dropWhile isPrintable
  | cs => cs

/-- Drops the rest of a line that has nothing but blanks and a comment. -/
def lineEnd? (cs : List Char) : Option (List Char) :=
  match skipComment (skipBlanks cs) with
  | [] => some []
  | cs => newline? cs

/-- Drops blanks, line ends and comments; whether a comment is open. -/
def skipLines : Bool → List Char → List Char
  | _, [] => []
  | _, '\n' :: cs => skipLines false cs
  | _, '\r' :: '\n' :: cs => skipLines false cs
  | comment, c :: cs =>
    if comment && isPrintable c then skipLines true cs
    else if comment then c :: cs
    else if isBlank c then skipLines false cs
    else if c = '#' then skipLines true cs
    else c :: cs

/-! ## Strings -/

/-- The character with a code point in hexadecimal digits. -/
def scalar? (digits : List Char) : Option Char := do
  let n ← digits.foldlM (fun n c => (Json.hexDigit? c).map (16 * n + ·)) 0
  if n < 0xD800 ∨ (0xE000 ≤ n ∧ n < 0x110000) then some (Char.ofNat n) else none

/-- The character that a one-letter escape stands for. -/
def shortEscape? : Char → Option Char
  | '"' => some '"'
  | '\\' => some '\\'
  | 'b' => some '\x08'
  | 'f' => some '\x0c'
  | 'n' => some '\n'
  | 'r' => some '\r'
  | 't' => some '\t'
  | _ => none

/-- A string on one line up to its closing quote; `done` holds what is already read, last character first. -/
def lineString (done : List Char) : List Char → Option (List Char × List Char)
  | [] => none
  | '"' :: rest => some (done.reverse, rest)
  | '\\' :: 'u' :: a :: b :: c :: d :: rest =>
    match scalar? [a, b, c, d] with
    | some x => lineString (x :: done) rest
    | none => none
  | '\\' :: 'U' :: a :: b :: c :: d :: e :: f :: g :: h :: rest =>
    match scalar? [a, b, c, d, e, f, g, h] with
    | some x => lineString (x :: done) rest
    | none => none
  | '\\' :: c :: rest =>
    match shortEscape? c with
    | some x => lineString (x :: done) rest
    | none => none
  | c :: rest => if isPrintable c ∧ c ≠ '\\' then lineString (c :: done) rest else none

/-- Up to two quotes behind three closing ones belong to the string, because the last three close it. -/
def closing (quote : Char) (done rest : List Char) : List Char × List Char :=
  match rest with
  | a :: b :: rest' =>
    if a = quote ∧ b = quote then ((b :: a :: done).reverse, rest')
    else if a = quote then ((a :: done).reverse, b :: rest')
    else (done.reverse, rest)
  | [a] => if a = quote then ((a :: done).reverse, []) else (done.reverse, rest)
  | [] => (done.reverse, rest)

/-- A string over several lines up to its closing quotes.  A backslash at the end of a line takes away the line end and
all blanks and line ends behind it, which is when `joining` is set. -/
def textString (joining : Bool) (done : List Char) : List Char → Option (List Char × List Char)
  | [] => none
  | '"' :: '"' :: '"' :: rest => some (closing '"' done rest)
  | '"' :: rest => textString false ('"' :: done) rest
  | '\\' :: 'u' :: a :: b :: c :: d :: rest =>
    match scalar? [a, b, c, d] with
    | some x => textString false (x :: done) rest
    | none => none
  | '\\' :: 'U' :: a :: b :: c :: d :: e :: f :: g :: h :: rest =>
    match scalar? [a, b, c, d, e, f, g, h] with
    | some x => textString false (x :: done) rest
    | none => none
  | '\\' :: c :: rest =>
    match shortEscape? c with
    | some x => textString false (x :: done) rest
    | none => if (newline? (skipBlanks (c :: rest))).isSome then textString true done rest else none
  | '\r' :: '\n' :: rest => textString joining (if joining then done else '\n' :: done) rest
  | c :: rest =>
    if c = '\n' ∨ isBlank c then textString joining (if joining then done else c :: done) rest
    else if isPrintable c ∧ c ≠ '\\' then textString false (c :: done) rest
    else none

/-- A string without escapes on one line up to its closing quote. -/
def rawLineString (cs : List Char) : Option (List Char × List Char) :=
  let inside := fun c => isPrintable c && c != '\''
  match cs.dropWhile inside with
  | '\'' :: rest => some (cs.takeWhile inside, rest)
  | _ => none

/-- A string without escapes over several lines up to its closing quotes. -/
def rawTextString (done : List Char) : List Char → Option (List Char × List Char)
  | [] => none
  | '\'' :: '\'' :: '\'' :: rest => some (closing '\'' done rest)
  | '\r' :: '\n' :: rest => rawTextString ('\n' :: done) rest
  | c :: rest => if c = '\n' ∨ isPrintable c then rawTextString (c :: done) rest else none

/-- Drops a line end, if there is one. -/
def skipNewline (cs : List Char) : List Char := (newline? cs).getD cs

/-- A string with its quotes. -/
def string? : List Char → Option (List Char × List Char)
  | '"' :: '"' :: '"' :: cs => textString false [] (skipNewline cs)
  | '"' :: cs => lineString [] cs
  | '\'' :: '\'' :: '\'' :: cs => rawTextString [] (skipNewline cs)
  | '\'' :: cs => rawLineString cs
  | _ => none

/-! ## Times -/

/-- A number of `width` digits between two bounds. -/
def field? (width low high : Nat) (cs : List Char) : Option (Nat × List Char) := do
  let digits := cs.take width
  let n ← Text.readDigits digits
  if digits.length < width ∨ n < low ∨ high < n then none else some (n, cs.drop width)

/-- Drops a character that must stand in front. -/
def char? (c : Char) : List Char → Option (List Char)
  | d :: cs => if c = d then some cs else none
  | [] => none

/-- The number of days of a month. -/
def daysOf (year month : Nat) : Nat :=
  if month = 2 then if year % 4 = 0 ∧ (year % 100 ≠ 0 ∨ year % 400 = 0) then 29 else 28
  else if month ∈ [4, 6, 9, 11] then 30
  else 31

/-- Drops a date. -/
def date? (cs : List Char) : Option (List Char) := do
  let (year, cs) ← field? 4 0 9999 cs
  let (month, cs) ← field? 2 1 12 (← char? '-' cs)
  let (_, cs) ← field? 2 1 (daysOf year month) (← char? '-' cs)
  return cs

/-- Drops a fraction of a second, if there is one. -/
def skipFraction : List Char → List Char
  | '.' :: c :: cs => if c.isDigit then cs.dropWhile Char.isDigit else '.' :: c :: cs
  | cs => cs

/-- Drops a time of day. -/
def clock? (cs : List Char) : Option (List Char) := do
  let (_, cs) ← field? 2 0 23 cs
  let (_, cs) ← field? 2 0 59 (← char? ':' cs)
  let (_, cs) ← field? 2 0 60 (← char? ':' cs)
  return skipFraction cs

/-- Drops the distance to universal time, if there is one. -/
def skipOffset (cs : List Char) : List Char :=
  match cs with
  | 'Z' :: rest => rest
  | 'z' :: rest => rest
  | sign :: rest =>
    if sign = '+' ∨ sign = '-' then
      (do
        let (_, rest) ← field? 2 0 23 rest
        let (_, rest) ← field? 2 0 59 (← char? ':' rest)
        return rest).getD cs
    else cs
  | [] => cs

/-- Drops a time of day behind a date, if there is one. -/
def skipClock (cs : List Char) : List Char :=
  match cs with
  | c :: rest => if c = 'T' ∨ c = 't' ∨ c = ' ' then ((clock? rest).map skipOffset).getD cs else cs
  | [] => cs

/-- Drops a date, a time of day, or both. -/
def time? (cs : List Char) : Option (List Char) :=
  match date? cs with
  | some rest => some (skipClock rest)
  | none => clock? cs

/-! ## Numbers -/

/-- A run of digits with single underscores between them, without the underscores. -/
def digitRun? (isDigit : Char → Bool) (cs : List Char) : Option (List Char × List Char) :=
  let inside := fun c => isDigit c || c == '_'
  let run := cs.takeWhile inside
  let digits := run.filter (· != '_')
  let doubled := (run.zip run.tail).any fun (a, b) => a == '_' && b == '_'
  if run = [] ∨ run.head? = some '_' ∨ run.getLast? = some '_' ∨ doubled then none
  else some (digits, cs.dropWhile inside)

/-- A sign, if there is one; whether it is a minus. -/
def sign : List Char → Bool × List Char
  | '+' :: cs => (false, cs)
  | '-' :: cs => (true, cs)
  | cs => (false, cs)

/-- The number that digits denote in a base of at most sixteen. -/
def valueOf (base : Nat) (digits : List Char) : Nat :=
  digits.foldl (fun n c => base * n + (Json.hexDigit? c).getD 0) 0

/-- Whether an integer fits in 64 bits. -/
def integer? (v : Int) : Option Value :=
  if -9223372036854775808 ≤ v ∧ v < 9223372036854775808 then some (.integer v) else none

/-- The first number that is too large for double precision: half way from the largest to the next power of two. -/
def floatBound : Nat := Nat.pow 2 1024 - Nat.pow 2 970

/-- Whether `m * 10 ^ e` is too large for double precision.  Its number of digits decides, but at the bound. -/
def overflows (m : Nat) (e : Int) : Bool :=
  let width : Int := (Text.decimal m).length + e
  if m = 0 ∨ width ≤ 308 then false
  else if 310 ≤ width then true
  else if 0 ≤ e then floatBound ≤ m * Nat.pow 10 e.toNat
  else floatBound * Nat.pow 10 (-e).toNat ≤ m

/-- The digits of a fraction; none are there if no point is. -/
def fraction? : List Char → Option (List Char × List Char)
  | '.' :: cs => digitRun? Char.isDigit cs
  | cs => some ([], cs)

/-- An exponent, if there is one. -/
def exponent? (cs : List Char) : Option (Option Int × List Char) :=
  match cs with
  | c :: rest =>
    if c = 'e' ∨ c = 'E' then do
      let (negative, rest) := sign rest
      let (digits, rest) ← digitRun? Char.isDigit rest
      let e : Int := valueOf 10 digits
      return (some (if negative then -e else e), rest)
    else some (none, cs)
  | [] => some (none, cs)

/-- A number in decimal digits.  One with a fraction or an exponent must not be too large. -/
def decimal? (cs : List Char) : Option (Value × List Char) := do
  let (negative, cs) := sign cs
  let (whole, cs) ← digitRun? Char.isDigit cs
  if whole.head? = some '0' ∧ whole.length ≠ 1 then none
  let (places, cs) ← fraction? cs
  let (exponent, cs) ← exponent? cs
  if places.isEmpty ∧ exponent.isNone then
    let n : Int := valueOf 10 whole
    return (← integer? (if negative then -n else n), cs)
  else if !negative && overflows (valueOf 10 (whole ++ places)) (exponent.getD 0 - places.length) then none
  else return (.float, cs)

/-- A number that is infinite or none at all. -/
def special? (cs : List Char) : Option (Value × List Char) :=
  match (sign cs).2 with
  | 'i' :: 'n' :: 'f' :: rest => some (.float, rest)
  | 'n' :: 'a' :: 'n' :: rest => some (.float, rest)
  | _ => none

/-- Digits in a base other than ten. -/
def based? (base : Nat) (isDigit : Char → Bool) (cs : List Char) : Option (Value × List Char) := do
  let (digits, cs) ← digitRun? isDigit cs
  return (← integer? (valueOf base digits), cs)

/-- A number. -/
def number? : List Char → Option (Value × List Char)
  | '0' :: 'x' :: cs => based? 16 (fun c => (Json.hexDigit? c).isSome) cs
  | '0' :: 'o' :: cs => based? 8 (fun c => '0' ≤ c && c ≤ '7') cs
  | '0' :: 'b' :: cs => based? 2 (fun c => c == '0' || c == '1') cs
  | cs =>
    match special? cs with
    | some r => some r
    | none => decimal? cs

/-- A value other than an array or a table. -/
def plain? (cs : List Char) : Option (Value × List Char) :=
  match cs with
  | '"' :: _ => (string? cs).map fun (text, rest) => (.string text, rest)
  | '\'' :: _ => (string? cs).map fun (text, rest) => (.string text, rest)
  | 't' :: 'r' :: 'u' :: 'e' :: rest => some (.bool true, rest)
  | 'f' :: 'a' :: 'l' :: 's' :: 'e' :: rest => some (.bool false, rest)
  | _ =>
    match time? cs with
    | some rest => some (.time, rest)
    | none => number? cs

end TapeLang.Toml
