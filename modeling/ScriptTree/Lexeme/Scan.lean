import ScriptTree.Failure
import ScriptTree.Lexeme.Basic
import ScriptTree.Message
import ScriptTree.Source

/-!
Scanning: steps that read a program from a cursor. An error leaves the cursor where it arose.
-/

namespace ScriptTree

namespace Scan

structure Settings where
  source : Source
  /-- Complaints that can be passed over are collected. -/
  tolerant : Bool := false
  comments : Bool := false
  /-- The program is a module, in which `<!--` opens no comment. -/
  isModule : Bool := false
deriving Inhabited

inductive Opener where
  | brace
  | substitution
deriving DecidableEq, Repr, Inhabited

structure Place where
  index : Nat := 0
  line : Nat := 0
  lineStart : Nat := 0
deriving DecidableEq, Repr, Inhabited

/-- The state of a scan: its place, the brackets that are open there, innermost first, and the
complaints that were passed over. -/
structure Cursor extends Place where
  openers : List Opener := []
  errors : List SyntaxError := []
deriving DecidableEq, Repr, Inhabited

end Scan

abbrev Scan := ReaderT Scan.Settings (EStateM Failure Scan.Cursor)

namespace Scan

/-- The cursor at the start of a program. Lines count from one, but an empty program has none. -/
def start (source : Source) : Cursor := { line := if source.length > 0 then 1 else 0 }

def index : Scan Nat := return (← get).index

def seek (i : Nat) : Scan Unit := modify fun c => { c with index := i }

def advance (count : Nat) : Scan Unit := modify fun c => { c with index := c.index + count }

def save : Scan Place := return (← get).toPlace

/-- Returns to a place. The open brackets and the complaints stay as they are. -/
def restore (p : Place) : Scan Unit := modify fun c => { c with toPlace := p }

/-- Is the cursor at the end of the program, or behind it? -/
def atEnd : Scan Bool := return (← get).index ≥ (← read).source.length

def ahead : Scan Nat := return (← read).source.length - (← get).index

def charAt (i : Nat) : Scan Nat := do
  match (← read).source.at? i with
  | some c => return c
  | none => throw .pastEnd

def here : Scan Nat := do charAt (← index)

def take : Scan Nat := do
  let c ← here
  advance 1
  return c

def sees (i : Nat) (word : String) : Scan Bool := return (← read).source.hasAt i word

def since (i : Nat) : Scan Text := return (← read).source.slice i (← get).index

def complaint (description : Text) : Scan SyntaxError := do
  let c ← get
  return ⟨c.index, c.line, (c.index : Int) - c.lineStart + 1, description⟩

def rejectWith {α : Type} (description : Text) : Scan α := do throw (.rejected (← complaint description))

def reject {α : Type} (m : Message := .illegalToken) : Scan α := rejectWith m.wording

/-- Passes over an error if the scan is tolerant, and rejects the program if it is not. -/
def tolerate (e : SyntaxError) : Scan Unit := do
  if (← read).tolerant then modify fun c => { c with errors := c.errors ++ [e] }
  else throw (.rejected e)

/-- Complains about the cursor: the program is rejected unless the scan is tolerant. -/
def complainWith (description : Text) : Scan Unit := do tolerate (← complaint description)

/-- Complains about the cursor: the program is rejected unless the scan is tolerant. -/
def complain (m : Message := .illegalToken) : Scan Unit := complainWith m.wording

/-- After a line terminator, takes the second half of a pair of carriage return and line feed, and starts
a new line. -/
def newLine (terminator : Nat) : Scan Unit := do
  if terminator == 0x0D then
    if (← here) == 0x0A then advance 1
  modify fun c => { c with line := c.line + 1, lineStart := c.index }

def token (start : Nat) (l : Lexeme) : Scan Token := do
  let c ← get
  return ⟨l, c.line, c.lineStart, start, c.index⟩

/-- Takes the code points of a kind, at most so many of them. -/
def takeWhile (kind : Nat → Bool) : Nat → Scan Text
  | 0 => return []
  | n + 1 => do
    let c ← here
    if kind c then
      advance 1
      return c :: (← takeWhile kind n)
    else return []

end Scan

end ScriptTree
