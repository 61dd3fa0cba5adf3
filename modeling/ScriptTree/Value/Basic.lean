import ScriptTree.Number.Basic
import ScriptTree.Regex.Basic
import ScriptTree.Table

/-!
Values with named fields. An object belongs to a class and a record does not; both keep the order of
their fields. What an object contains of itself is shown by a mark in place of the object.
-/

namespace ScriptTree

inductive Value where
  | null
  | bool (value : Bool)
  | number (value : Number)
  | text (value : Text)
  | pattern (value : Regex.Pattern)
  | list (items : List Value)
  | record (fields : List (Text × Value))
  | object (className : String) (fields : List (Text × Value))
  | again
deriving Inhabited

namespace Value

def ofNat (n : Nat) : Value := .number (.integer n)

def ofInt (n : Int) : Value := .number (.integer n)

def ofString (s : String) : Value := .text (Text.ofString s)

def ofOption {α : Type} (f : α → Value) : Option α → Value
  | some x => f x
  | none => .null

def isNull : Value → Bool
  | .null => true
  | _ => false

def isHidden (name : Text) : Bool := name.head? == some 0x5F

def shownName (name : Text) : Text :=
  if name.is "isAsync" then Text.ofString "async"
  else if name.is "allowAwait" then Text.ofString "await"
  else name

mutual

/-- A value without classes: objects become records without their hidden and missing fields. -/
def plain : Value → Value
  | .list items => .list (plainItems items)
  | .record fields => .record (Table.ofEntries (plainFields fields))
  | .object _ fields => .record (Table.ofEntries (plainFields fields))
  | .again => .record [(Text.ofString "error", ofString "Infinite recursion detected...")]
  | .null => .null
  | .bool b => .bool b
  | .number n => .number n
  | .text t => .text t
  | .pattern p => .pattern p

/-- The items of a list without classes. Missing ones stay. -/
def plainItems : List Value → List Value
  | [] => []
  | item :: rest => plain item :: plainItems rest

def plainFields : List (Text × Value) → List (Text × Value)
  | [] => []
  | (name, value) :: rest =>
    if value.isNull || isHidden name then plainFields rest
    else (shownName name, plain value) :: plainFields rest

end

end Value

end ScriptTree
