/-!
# Operators

The six comparison operators, their symbols, and the form in which a condition holds them: the
symbol with one space on either side.
-/

namespace HealthRules

inductive Operator where
  | eq
  | ne
  | le
  | ge
  | lt
  | gt
deriving DecidableEq, Repr

namespace Operator

/-- Every operator, in the order in which a condition is searched for them. -/
def all : List Operator := [eq, ne, le, ge, lt, gt]

theorem mem_all (op : Operator) : op ∈ all := by
  cases op <;> simp [all]

def symbol : Operator → String
  | eq => "=="
  | ne => "!="
  | le => "<="
  | ge => ">="
  | lt => "<"
  | gt => ">"

def ofSymbol? (symbol : String) : Option Operator :=
  all.find? (·.symbol == symbol)

theorem ofSymbol?_symbol (op : Operator) : ofSymbol? op.symbol = some op := by
  cases op <;> rfl

/-- The symbol with one space on either side. -/
def spaced (op : Operator) : List Char :=
  ' ' :: op.symbol.toList ++ [' ']

/-- Whether the operator asks for an order and not only for equality. -/
def isOrdering : Operator → Bool
  | eq | ne => false
  | le | ge | lt | gt => true

/-- The operator for the two sides exchanged. -/
def converse : Operator → Operator
  | eq => eq
  | ne => ne
  | le => ge
  | ge => le
  | lt => gt
  | gt => lt

/-- Whether two things in the given order satisfy the operator. -/
def holds : Operator → Ordering → Bool
  | eq, o => o == .eq
  | ne, o => o != .eq
  | le, o => o != .gt
  | ge, o => o != .lt
  | lt, o => o == .lt
  | gt, o => o == .gt

theorem holds_converse_swap (op : Operator) (o : Ordering) :
    op.converse.holds o.swap = op.holds o := by
  cases op <;> cases o <;> rfl

end Operator
end HealthRules
