import ScriptTree.Failure
import ScriptTree.Node.Basic

/-!
Comments beside nodes. Comments wait in two lists until the nodes around them are finished: one of those
that may come before a node and one of those that may come after it. A node that ends a larger one takes
comments over from the nodes inside it.
-/

namespace ScriptTree

namespace Attachment

structure Pending where
  remark : Remark
  start : Nat
deriving DecidableEq, Repr, Inhabited

structure Finished where
  id : Nat
  start : Nat
deriving DecidableEq, Repr, Inhabited

end Attachment

/-- Comments that wait, the nodes that are finished, the last one first, and the comments beside each node
by its number. The number zero belongs to no node. -/
structure Attachment where
  leading : List Attachment.Pending := []
  trailing : List Attachment.Pending := []
  stack : List Attachment.Finished := []
  remarks : Array Remarks := #[{}]
deriving Inhabited

namespace Attachment

def nextId (a : Attachment) : Nat := a.remarks.size

def remarksOf (a : Attachment) (id : Nat) : Remarks := a.remarks[id]?.getD {}

def update (a : Attachment) (id : Nat) (f : Remarks → Remarks) : Attachment :=
  { a with remarks := a.remarks.modify id f }

def add (a : Attachment) (r : Remark) (start : Nat) : Attachment :=
  { a with leading := a.leading ++ [⟨r, start⟩], trailing := a.trailing ++ [⟨r, start⟩] }

def dropMarked {α : Type} : List Bool → List α → List α
  | true :: marks, _ :: rest => dropMarked marks rest
  | false :: marks, x :: rest => x :: dropMarked marks rest
  | _, rest => rest

/-- Takes the comments inside an empty block. The places that they have in the first list are cleared in
both. -/
def takeInner (a : Attachment) (stop : Nat) : Except Failure (List Remark × Attachment) :=
  let marks := a.leading.map fun p => decide (p.start ≤ stop)
  if (marks.drop a.trailing.length).contains true then .error .unevenComments
  else
    let inner := (a.leading.filter fun p => p.start ≤ stop).map Pending.remark
    if inner.isEmpty then .ok ([], a)
    else .ok (inner, { a with leading := dropMarked marks a.leading, trailing := dropMarked marks a.trailing })

/-- Takes the comments after a node that ends at an offset: those that wait, or else those after the node
before. -/
def takeTrailing (a : Attachment) (stop : Nat) : List Remark × Attachment :=
  if a.trailing.isEmpty then
    match a.stack with
    | [] => ([], a)
    | last :: _ =>
      let remarks := (a.remarksOf last.id).trailing
      match remarks with
      | [] => ([], a)
      | first :: _ =>
        if (first.range.map Range.start).getD 0 ≥ stop then
          (remarks, a.update last.id fun r => { r with trailing := [] })
        else ([], a)
  else
    let found := (a.trailing.filter fun p => p.start ≥ stop).map Pending.remark
    if found.isEmpty then ([], a) else (found, { a with trailing := [] })

/-- Takes the nodes that start at an offset or later off the stack. What is returned is the earliest. -/
def popInner (start : Nat) : List Finished → Option Finished → Option Finished × List Finished
  | [], target => (target, [])
  | f :: rest, target => if f.start ≥ start then popInner start rest (some f) else (target, f :: rest)

/-- Takes the comments before a node that starts at an offset: those before the first node inside it, or
else those that wait. -/
def takeLeading (a : Attachment) (start : Nat) : List Remark × Attachment :=
  let (target, stack) := popInner start a.stack none
  let a := { a with stack }
  match target with
  | some f =>
    let isBefore (r : Remark) : Bool := (r.range.map Range.stop).getD 0 ≤ start
    let (taken, kept) := (a.remarksOf f.id).leading.partition isBefore
    (taken, a.update f.id fun r => { r with leading := kept })
  | none =>
    let (taken, kept) := a.leading.partition fun p => p.start ≤ start
    (taken.map Pending.remark, { a with leading := kept })

/-- Gives the next number to a node that was just finished, and its comments to it. -/
def visit (a : Attachment) (isEmptyBlock : Bool) (start stop : Nat) : Except Failure Attachment := do
  let (inner, a) ← if isEmptyBlock then a.takeInner stop else .ok ([], a)
  let (trailing, a) := a.takeTrailing stop
  let (leading, a) := a.takeLeading start
  return { a with
    stack := ⟨a.nextId, start⟩ :: a.stack
    remarks := a.remarks.push ⟨inner, leading, trailing⟩ }

def skip (a : Attachment) : Attachment := { a with remarks := a.remarks.push {} }

end Attachment

end ScriptTree
