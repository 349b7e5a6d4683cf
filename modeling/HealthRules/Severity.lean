import HealthRules.Text.Search

/-!
# Severity

How bad it is when a rule fails. A rule may name its severity in front, `High :: ` for instance;
`Severity.split` takes at most one such mark off, and a rule without a mark is critical.
-/

namespace HealthRules

/-- How bad a failure is; `none` stands for no failure. -/
inductive Severity where
  | none
  | low
  | medium
  | high
  | critical
deriving DecidableEq, Repr

namespace Severity

/-- The rank of a severity, by which severities are ordered and stored. -/
def code : Severity → Nat
  | none => 0
  | low => 1
  | medium => 2
  | high => 3
  | critical => 4

def ofCode? : Int → Option Severity
  | 0 => some none
  | 1 => some low
  | 2 => some medium
  | 3 => some high
  | 4 => some critical
  | _ => Option.none

theorem ofCode?_code (s : Severity) : ofCode? s.code = some s := by
  cases s <;> rfl

def name : Severity → String
  | none => "None"
  | low => "Low"
  | medium => "Medium"
  | high => "High"
  | critical => "Critical"

def all : List Severity := [none, low, medium, high, critical]

def ofName? (name : String) : Option Severity :=
  all.find? (·.name == name)

theorem ofName?_name (s : Severity) : ofName? s.name = some s := by
  cases s <;> rfl

/-- The worse of two severities. -/
def max (a b : Severity) : Severity :=
  if a.code ≤ b.code then b else a

instance : Max Severity := ⟨Severity.max⟩

/-- The severities that a rule can name in front. -/
def marks : List Severity := [low, medium, high, critical]

/-- What a rule starts with to have a severity. -/
def mark (s : Severity) : List Char :=
  s.name.toList ++ [' ', ':', ':', ' ']

/-- The severity of a rule and the rule without its mark. -/
def split (rule : List Char) : Severity × List Char :=
  (marks.findSome? fun s => (Text.after? s.mark rule).map fun rest => (s, rest)).getD
    (critical, rule)

end Severity
end HealthRules
