import HealthRules.Number.Digits
import HealthRules.Text.Search

/-!
# IP addresses

An address of version 4 is four decimal octets without leading zeros, between dots. An address of
version 6 is eight groups of one to four hexadecimal digits between colons; one `::` may stand for
one or more groups of zero, and the last two groups may be written as an address of version 4.
Two texts denote the same address exactly when they read as the same `IpAddress`; the two versions
never meet.
-/

namespace HealthRules

inductive IpAddress where
  | v4 (octets : List Nat)
  | v6 (groups : List Nat)
deriving DecidableEq, Repr

namespace IpAddress

/-- An octet: one to three digits up to 255, no zero in front of others. -/
def octet? (cs : List Char) : Option Nat :=
  if cs.length ≤ 3 ∧ (cs.head? ≠ some '0' ∨ cs.length = 1) then
    (Number.natural? cs).filter (· ≤ 255)
  else none

/-- Four octets between dots. -/
def octets? (cs : List Char) : Option (List Nat) :=
  ((cs.splitOn '.').mapM octet?).filter (·.length = 4)

/-- The value of a hexadecimal digit. -/
def hexDigit? (c : Char) : Option Nat :=
  if c.isDigit then some (c.toNat - 48)
  else if 'a' ≤ c ∧ c ≤ 'f' then some (c.toNat - 87)
  else if 'A' ≤ c ∧ c ≤ 'F' then some (c.toNat - 55)
  else none

/-- A group: one to four hexadecimal digits. -/
def group? (cs : List Char) : Option Nat :=
  if cs ≠ [] ∧ cs.length ≤ 4 then
    cs.foldlM (fun n c => (hexDigit? c).map (n * 16 + ·)) 0
  else none

/-- The two groups of four octets. -/
def pairOctets : List Nat → List Nat
  | [a, b, c, d] => [a * 256 + b, c * 256 + d]
  | _ => []

/-- Groups between colons, the last of which may be an address of version 4 if `dotted`. -/
def groups? (dotted : Bool) : List (List Char) → Option (List Nat)
  | [] => some []
  | [last] =>
    match octets? last with
    | some octets => if dotted then some (pairOctets octets) else none
    | none => (group? last).map ([·])
  | part :: parts => do
    let group ← group? part
    let groups ← groups? dotted parts
    return group :: groups

/-- The groups on one side of a `::`, which may be none. -/
def side? (dotted : Bool) (cs : List Char) : Option (List Nat) :=
  if cs = [] then some [] else groups? dotted (cs.splitOn ':')

/-- An address of version 6. -/
def v6? (cs : List Char) : Option (List Nat) :=
  match Text.cut? [':', ':'] cs with
  | none => (groups? true (cs.splitOn ':')).filter (·.length = 8)
  | some (front, back) => do
    let head ← side? false front
    let tail ← side? true back
    if head.length + tail.length ≤ 7 then
      some (head ++ List.replicate (8 - head.length - tail.length) 0 ++ tail)
    else none

/-- The address that a text denotes. -/
def ofText? (cs : List Char) : Option IpAddress :=
  match octets? cs with
  | some octets => some (v4 octets)
  | none => (v6? cs).map v6

end IpAddress
end HealthRules
