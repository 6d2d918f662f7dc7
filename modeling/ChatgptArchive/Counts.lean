import ChatgptArchive.Json

/-!
# Counts

Counts of rows and records are `u32`; a length that does not fit is saturated. They are stored as
the members of a JSON object and read back by name, where a member that is absent or no `u32`
counts nothing.
-/

namespace ChatgptArchive

def toU32 (n : Nat) : Nat := min n (2 ^ 32 - 1)

def parseU64 (part : List Char) : Option Nat :=
  let digits := match part with
    | '+' :: rest => rest
    | _ => part
  if digits.isEmpty || !digits.all Char.isDigit then none
  else
    let value := digits.foldl (fun n c => 10 * n + (c.toNat - '0'.toNat)) 0
    if value < 2 ^ 64 then some value else none

namespace Value

def ofNat (n : Nat) : Value := .number (toString n)

def asU64 : Value → Option Nat
  | .number text => if text.toList.head? = some '+' then none else parseU64 text.toList
  | _ => none

def count (document : Value) (name : String) : Nat :=
  (((document.get? name).bind asU64).filter (· < 2 ^ 32)).getD 0

def elements : Value → List Value
  | .array values => values
  | value => [value]

/-- `jsonb || jsonb`: of two objects the members of the right one replace those of the left. -/
def concat : Value → Value → Value
  | .object left, .object right =>
    .object (left.filter (fun member => (right.lookup member.1).isNone) ++ right)
  | left, right => .array (left.elements ++ right.elements)

end Value

end ChatgptArchive
