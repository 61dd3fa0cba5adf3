import ScriptTree.Editor.Query
import ScriptTree.Lexeme.Listing
import ScriptTree.Sample
import ScriptTree.Value.Printer

/-!
Passes over sample programs of a given size. Each returns counts of what it has gone through.
-/

namespace ScriptTree

inductive Measure where
  | one (count : Nat)
  | several (counts : List Nat)
deriving DecidableEq, Repr, Inhabited

namespace Workload

def lengthOf {α : Type} (l : Option (List α)) : Nat := (l.map List.length).getD 0

def parseModule (n : Nat) : Except Failure Measure := do
  let p ← parse (Sample.module n) { isModule := true, tokens := true }
  return .several [p.body.length, lengthOf p.tokens]

/-- Counts the statements, the tokens and the errors of a script. -/
def parseScript (n : Nat) : Except Failure Measure := do
  let p ← parse (Sample.script n) { location := true, range := true, tokens := true, tolerant := true }
  return .several [p.body.length, lengthOf p.tokens, lengthOf p.errors]

def parseMarkup (n : Nat) : Except Failure Measure := do
  let p ← parse (Sample.markup n)
    { isModule := true, jsx := true, classProperties := true, tokens := true }
  return .several [p.body.length, lengthOf p.tokens]

def occurrences (piece : Text) : Text → Nat
  | [] => if piece.isEmpty then 1 else 0
  | c :: rest => (if piece.isPrefixOf (c :: rest) then 1 else 0) + occurrences piece rest

/-- Counts the characters of the text of a module with all places, and the programs in it. -/
def printModule (n : Nat) : Except Failure Measure := do
  let p ← parse (Sample.module n) { isModule := true, location := true, range := true }
  let text ← p.toValue.print {} 0
  return .several [text.length, occurrences "\"Program\"" text]

def plainModule (n : Nat) : Except Failure Measure := do
  let p ← parse (Sample.module n) { isModule := true }
  match p.toValue.plain with
  | .record fields => match Table.get? (Text.ofString "body") fields with
    | some (.list statements) => return .one statements.length
    | _ => throw .noEntry
  | _ => throw .mismatch

def scanLiterals (n : Nat) : Except Failure Measure := do
  let (entries, _) ← tokenize (Sample.literals n) {}
  return .one entries.length

def libraryView : Editor.View :=
  { text := "import * as lib from './lib.js';\nlib.\nimport '."
    file := some "main.js"
    scope := "source.js" }

/-- Counts the parts of the answer to a query, completions and style, and the exports of the library. -/
def completeLibrary (n : Nat) : Except Failure Measure := do
  let bytes := ((Sample.library n).toUtf8?).getD ByteArray.empty
  let world : Editor.World :=
    { files := Files.write {} ["lib.js"] bytes 0, resource := "\x7b\x7d", view := libraryView }
  match (Editor.query [37, libraryView.text.length]).run world |>.run {} with
  | .error f _ => throw f
  | .ok offers memory =>
    let parts := match offers with
      | some o => if o.isExclusive then 2 else 1
      | none => 0
    return .several [parts, memory.modules.foldl (fun n m => n + m.2.completions.length) 0]

end Workload

end ScriptTree
