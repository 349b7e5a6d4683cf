import HealthRules.Number.Binary64

/-!
# JSON values

A number is a whole number between -2 ^ 63 and 2 ^ 64 - 1 or a binary number of 64 bits. The
members of an object that was read have distinct keys in ascending order; `Json.ofMembers` brings
members into this form, the last one of a repeated key counting. Keys are ordered by code points,
which is also the order of their UTF-8 octets. A record is stored with its members in their own
order.
-/

namespace HealthRules

/-- A JSON number. -/
inductive Numeral where
  | integer (n : Int)
  | float (x : Number.Binary64)
deriving DecidableEq, Repr

inductive Json where
  | null
  | bool (b : Bool)
  | number (n : Numeral)
  | string (s : String)
  | array (items : List Json)
  | object (members : List (String × Json))

namespace Json

/-- Puts a member among members in ascending order of keys, in place of one with its key. -/
def insertMember {α : Type} (key : String) (value : α) :
    List (String × α) → List (String × α)
  | [] => [(key, value)]
  | (k, v) :: rest =>
    if key = k then (key, value) :: rest
    else if key < k then (key, value) :: (k, v) :: rest
    else (k, v) :: insertMember key value rest

/-- Members with distinct keys in ascending order, the last one of a repeated key counting. -/
def sortMembers {α : Type} (members : List (String × α)) : List (String × α) :=
  members.foldl (fun sorted (k, v) => insertMember k v sorted) []

def ofMembers (members : List (String × Json)) : Json :=
  object (sortMembers members)

/-- The member of an object with the given key. -/
def member? (key : String) (members : List (String × Json)) : Option Json :=
  members.lookup key

end Json
end HealthRules
