import HealthRules.Text.CaseTable

/-!
# Lower case

The full lower-case mapping of Unicode, without the rules of single languages. Two characters need
more than the table: a capital I with a dot above becomes an i and a combining dot, and a capital
sigma at the end of a word becomes the final sigma. A sigma ends a word if a cased letter stands
before it and none behind it, case-ignorable characters not counting.
-/

namespace HealthRules.Text

/-- The capital I with a dot above. -/
def dottedCapitalI : Char := Char.ofNat 0x130

def CaseRun.contains (run : CaseRun) (c : Char) : Bool :=
  run.first ≤ c.toNat && c.toNat ≤ run.last && (c.toNat - run.first) % run.step == 0

/-- The lower case of a character on its own. -/
def lowerChar (c : Char) : List Char :=
  if c = dottedCapitalI then ['i', Char.ofNat 0x307]
  else match caseRuns.find? (·.contains c) with
    | some run => [Char.ofNat (c.toNat + run.offset).toNat]
    | none => [c]

/-- Whether the first character that is not case-ignorable is cased. -/
def startsCased (cs : List Char) : Bool :=
  match cs.dropWhile (inRanges caseIgnorableRanges) with
  | c :: _ => inRanges casedRanges c
  | [] => false

/-- The lower case of a capital sigma between the characters before it, the nearest first, and the
characters behind it. -/
def lowerSigma (before after : List Char) : Char :=
  if startsCased before && !startsCased after then 'ς' else 'σ'

/-- The lower case of a text behind the characters `before`, the nearest first. -/
def lowerBehind (before : List Char) : List Char → List Char
  | [] => []
  | c :: cs =>
    (if c = 'Σ' then [lowerSigma before cs] else lowerChar c) ++ lowerBehind (c :: before) cs

/-- The lower case of a text. -/
def lowerCase (cs : List Char) : List Char :=
  lowerBehind [] cs

end HealthRules.Text
