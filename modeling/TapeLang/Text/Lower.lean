import TapeLang.Text.CaseData

/-!
# Lower case

The full lower-case mapping of the Unicode standard, without a language: one letter maps to two characters, and a
capital sigma at the end of a word has a form of its own.
-/

namespace TapeLang.Text

/-- The lower-case letter of an upper-case letter of a run. -/
def CaseRun.lower? (r : CaseRun) (c : Char) : Option Char :=
  let n := c.toNat
  if r.first ≤ n ∧ n ≤ r.last ∧ (n - r.first) % r.step = 0 then some (Char.ofNat (n + r.shift).toNat) else none

/-- The lower-case form of a character on its own. -/
def lowerChar (c : Char) : List Char :=
  if c.toNat < 0x80 then [c.toLower]
  else if c.toNat = 0x130 then ['i', Char.ofNat 0x307]
  else [(caseRuns.findSome? (·.lower? c)).getD c]

/-- Whether the first character that is not ignorable has a case. -/
def casedAhead (cs : List Char) : Bool :=
  match cs.dropWhile caseIgnorable.mem with
  | c :: _ => cased.mem c
  | [] => false

/-- The lower-case form of a capital sigma: a form of its own at the end of a word.  `inWord` says whether the last
character before it that is not ignorable has a case. -/
def lowerSigma (inWord : Bool) (after : List Char) : Char :=
  Char.ofNat (if inWord && !casedAhead after then 0x3C2 else 0x3C3)

/-- The lower-case form of a text behind one whose reversed lower-case form is `done`. -/
def lowerFrom (done : List Char) (inWord : Bool) : List Char → List Char
  | [] => done.reverse
  | c :: cs =>
    let low := if c.toNat = 0x3A3 then [lowerSigma inWord cs] else lowerChar c
    lowerFrom (low.reverse ++ done) (if caseIgnorable.mem c then inWord else cased.mem c) cs

/-- The lower-case form of a text. -/
def lower (cs : List Char) : List Char := lowerFrom [] false cs

end TapeLang.Text
