import TapeLang.Toml.Scalar

/-!
# TOML documents

The text of a document is a sequence of lines: headers, keys with their values, comments.  Reading one gives the entries
of the table that it denotes.
-/

namespace TapeLang.Toml

/-- Keys have fewer parts than this, and arrays and tables are nested less deeply. -/
def depthLimit : Nat := 80

/-- The characters of a key without quotes. -/
def isBare (c : Char) : Bool := c.isAlphanum || c == '_' || c == '-'

/-- One part of a key. -/
def keyPart? (cs : List Char) : Option (Key × List Char) :=
  match cs with
  | '"' :: rest => (lineString [] rest).map fun (key, rest) => (String.ofList key, rest)
  | '\'' :: rest => (rawLineString rest).map fun (key, rest) => (String.ofList key, rest)
  | _ =>
    match cs.takeWhile isBare with
    | [] => none
    | key => some (String.ofList key, cs.dropWhile isBare)

/-- A key of at most `limit` parts, with the blanks around them; `done` holds the parts already read, last first. -/
def keyParts? : Nat → List Key → List Char → Option (List Key × Key × List Char)
  | 0, _, _ => none
  | limit + 1, done, cs => do
    let (part, cs) ← keyPart? (skipBlanks cs)
    match skipBlanks cs with
    | '.' :: cs => keyParts? limit (part :: done) cs
    | cs => return (done.reverse, part, cs)

/-- A key: the parts before its last dot, and the last one. -/
def key? (cs : List Char) : Option (List Key × Key × List Char) := keyParts? (depthLimit - 1) [] cs

mutual

/-- A value in `depth` arrays and tables. -/
def value? : Nat → Nat → List Char → Option (Value × List Char)
  | 0, _, _ => none
  | fuel + 1, depth, cs =>
    match cs with
    | '[' :: cs =>
      if depth + 1 < depthLimit then
        (items? fuel (depth + 1) [] (skipLines false cs)).map fun (items, rest) => (.array items, rest)
      else none
    | '\x7b' :: cs =>
      if depth + 1 < depthLimit then
        match skipBlanks cs with
        | '\x7d' :: rest => some (.table .literal [], rest)
        | cs => (pairs? fuel (depth + 1) [] cs).map fun (entries, rest) => (.table .literal entries, rest)
      else none
    | cs => plain? cs

/-- The items of an array up to its end; `done` holds those already read, last first. -/
def items? : Nat → Nat → List Value → List Char → Option (List Value × List Char)
  | 0, _, _, _ => none
  | fuel + 1, depth, done, cs =>
    match cs with
    | ']' :: rest => some (done.reverse, rest)
    | cs =>
      match value? fuel depth cs with
      | none => none
      | some (v, cs) =>
        match skipLines false cs with
        | ',' :: cs => items? fuel depth (v :: done) (skipLines false cs)
        | ']' :: rest => some ((v :: done).reverse, rest)
        | _ => none

/-- The entries of a table written as a value, from the next one to the end. -/
def pairs? : Nat → Nat → Entries → List Char → Option (Entries × List Char)
  | 0, _, _, _ => none
  | fuel + 1, depth, done, cs =>
    match key? cs with
    | some (path, key, '=' :: cs) =>
      match value? fuel depth (skipBlanks cs) with
      | none => none
      | some (v, cs) =>
        match done.assign path key v with
        | none => none
        | some done =>
          match skipBlanks cs with
          | ',' :: cs => pairs? fuel depth done cs
          | '\x7d' :: rest => some (done, rest)
          | _ => none
    | _ => none

end

/-- A document that is being read. -/
structure Document where
  /-- The entries of the whole. -/
  entries : Entries := []
  /-- The path of the header that is in force. -/
  header : List Key := []

namespace Document

/-- Gives a key a value below the header in force. -/
def assign (d : Document) (path : List Key) (key : Key) (v : Value) : Option Document :=
  (d.entries.change .implied (fun _ es => es.assign path key v) d.header .header).map ({ d with entries := · })

/-- Reads a header behind its bracket. -/
def header? (d : Document) (cs : List Char) : Option (Document × List Char) := do
  match cs with
  | '[' :: cs =>
    match ← key? cs with
    | (path, key, ']' :: ']' :: cs) => return (⟨← d.entries.openRepeated path key, path ++ [key]⟩, ← lineEnd? cs)
    | _ => none
  | cs =>
    match ← key? cs with
    | (path, key, ']' :: cs) => return (⟨← d.entries.openTable path key, path ++ [key]⟩, ← lineEnd? cs)
    | _ => none

/-- Reads a line with a key and a value, which may go on over several lines, in a text of at most `size` characters.  Each
level of nesting and each item takes at most two steps. -/
def pair? (size : Nat) (d : Document) (cs : List Char) : Option (Document × List Char) := do
  match ← key? cs with
  | (path, key, '=' :: cs) =>
    let (v, cs) ← value? (2 * size + 2) 0 (skipBlanks cs)
    let rest ← lineEnd? cs
    return (← d.assign path key v, rest)
  | _ => none

/-- Reads what stands at the front of a line without leading blanks. -/
def line? (size : Nat) (d : Document) (cs : List Char) : Option (Document × List Char) :=
  match cs with
  | '#' :: _ => (lineEnd? cs).map (d, ·)
  | '\n' :: rest => some (d, rest)
  | '\r' :: _ => (newline? cs).map (d, ·)
  | '[' :: rest => d.header? rest
  | _ => d.pair? size cs

/-- Reads lines up to the end of the text.  Every line drops a character. -/
def lines? (size : Nat) : Nat → Document → List Char → Option Document
  | fuel, d, cs =>
    match skipBlanks cs with
    | [] => some d
    | cs =>
      match fuel with
      | 0 => none
      | fuel + 1 =>
        match d.line? size cs with
        | none => none
        | some (d, cs) => lines? size fuel d cs

end Document

/-- The entries of a document.  A mark of the byte order in front does not count. -/
def parse (cs : List Char) : Option Entries :=
  let cs := match cs with
    | '\ufeff' :: rest => rest
    | cs => cs
  (Document.lines? cs.length cs.length {} cs).map (·.entries)

end TapeLang.Toml
