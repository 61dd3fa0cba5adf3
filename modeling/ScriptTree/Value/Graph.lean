import ScriptTree.Failure
import ScriptTree.Value.Basic

/-!
Values in which objects may refer to each other, and their unfolding into values without references.

The unfolding keeps the list of objects that are being unfolded. An object that refers to one of them
shows a mark in its place and takes it off the list, so that the next reference to it is unfolded again.
-/

namespace ScriptTree

inductive Graph where
  | leaf (value : Value)
  | list (items : List Graph)
  | record (fields : List (Text × Graph))
  | object (id : Nat) (fields : List (Text × Graph))
  | ref (id : Nat)
deriving Inhabited

namespace Graph

abbrev Objects := List (Nat × List (Text × Graph))

mutual

def objects : Graph → Objects
  | .leaf _ => []
  | .list items => objectsOfItems items
  | .record fields => objectsOfFields fields
  | .object id fields => (id, fields) :: objectsOfFields fields
  | .ref _ => []

def objectsOfItems : List Graph → Objects
  | [] => []
  | item :: rest => objects item ++ objectsOfItems rest

def objectsOfFields : List (Text × Graph) → Objects
  | [] => []
  | (_, value) :: rest => objects value ++ objectsOfFields rest

end

mutual

def size : Graph → Nat
  | .leaf _ => 1
  | .list items => 1 + sizeOfItems items
  | .record fields => 1 + sizeOfFields fields
  | .object _ fields => 1 + sizeOfFields fields
  | .ref _ => 1

def sizeOfItems : List Graph → Nat
  | [] => 0
  | item :: rest => size item + sizeOfItems rest

def sizeOfFields : List (Text × Graph) → Nat
  | [] => 0
  | (_, value) :: rest => size value + sizeOfFields rest

end

abbrev Unfolding := StateT (List Nat) (Except Failure)

def unfoldObject (unfoldField : Graph → Unfolding Value) (id : Nat) (fields : List (Text × Graph)) :
    Unfolding Value := do
  if (← get).contains id then
    modify fun open' => open'.erase id
    return .again
  else
    modify fun open' => id :: open'
    let shown := fields.filter fun f => !Value.isHidden f.1
    let values ← shown.mapM fun f => do return (f.1, ← unfoldField f.2)
    modify fun open' => open'.erase id
    return .object "Object" values

def unfoldTo (known : Objects) : Nat → Graph → Unfolding Value
  | 0, _ => throw .exhausted
  | n + 1, g =>
    match g with
    | .leaf v => return v
    | .list items => do return .list (← items.mapM (unfoldTo known n))
    | .record fields => do
      let shown := fields.filter fun f => !Value.isHidden f.1
      return .record (← shown.mapM fun f => do return (f.1, ← unfoldTo known n f.2))
    | .object id fields => unfoldObject (unfoldTo known n) id fields
    | .ref id =>
      match known.find? fun o => o.1 == id with
      | some (_, fields) => unfoldObject (unfoldTo known n) id fields
      | none => throw .noEntry

def depth (g : Graph) : Nat := (g.size + 2) * (g.size + 2)

def unfold (g : Graph) : Except Failure Value := do
  let (value, _) ← (unfoldTo g.objects g.depth g).run []
  return value

end Graph

end ScriptTree
