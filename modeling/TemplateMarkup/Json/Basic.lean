/-!
# Values of the JSON format

The values that are written.  Members of an object keep their order.  Numbers are natural numbers,
since nothing else is ever written.
-/

namespace TemplateMarkup

/-- A value of the format. -/
inductive Json where
  | null
  | bool (value : Bool)
  | number (value : Nat)
  | string (text : String)
  | array (items : List Json)
  | object (members : List (String × Json))
  deriving Repr

namespace Json

/-- Insert a member before the first one with a larger name. -/
def insertSorted (member : String × Json) : List (String × Json) → List (String × Json)
  | [] => [member]
  | first :: rest =>
      if member.1 < first.1 then member :: first :: rest else first :: insertSorted member rest

mutual

/-- The same value with the members of every object in the order of their names. -/
def sorted : Json → Json
  | array items => array (sortedItems items)
  | object members => object (sortedMembers members)
  | null => null
  | bool value => bool value
  | number value => number value
  | string text => string text

def sortedItems : List Json → List Json
  | [] => []
  | item :: rest => item.sorted :: sortedItems rest

/-- Sort the members by name, and inside each of them. -/
def sortedMembers : List (String × Json) → List (String × Json)
  | [] => []
  | (name, value) :: rest => insertSorted (name, value.sorted) (sortedMembers rest)

end

/-- A member that is left out if it has no value. -/
def optionalMember (name : String) (value : Option Json) : List (String × Json) :=
  match value with
  | none => []
  | some value => [(name, value)]

/-- A list member that is left out if the list is empty. -/
def listMember (name : String) (items : List Json) : List (String × Json) :=
  if items.isEmpty then [] else [(name, array items)]

/-- An object member that is left out if the object is empty. -/
def objectMember (name : String) (members : List (String × Json)) : List (String × Json) :=
  if members.isEmpty then [] else [(name, object members)]

/-- A flag that is left out unless it is set. -/
def flagMember (name : String) (value : Bool) : List (String × Json) :=
  if value then [(name, bool true)] else []

end Json

end TemplateMarkup
