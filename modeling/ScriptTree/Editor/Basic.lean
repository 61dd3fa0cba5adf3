import ScriptTree.Completion
import ScriptTree.Files
import ScriptTree.Json.Basic

/-!
An editing session: a view of a program, what is around it, and what the assistant remembers between
requests. The assistant acts on the editor through effects, which are recorded in their order.
-/

namespace ScriptTree

namespace Editor

/-- A part of the text in a view. Its ends may come in either order. -/
structure Region where
  start : Int
  stop : Int
deriving DecidableEq, Repr, Inhabited

def Region.contains (r : Region) (point : Int) : Bool :=
  min r.start r.stop ≤ point && point ≤ max r.start r.stop

structure View where
  text : Text := []
  file : Option Text := none
  scope : Text := []
deriving DecidableEq, Repr, Inhabited

namespace View

/-- The character after a point. There is a null character after the end. -/
def charAt (v : View) (point : Nat) : Nat := (v.text[point]?).getD 0

def lineUpTo (v : View) (point : Nat) : Text :=
  ((v.text.take point).reverse.takeWhile fun c => c != 0xA).reverse

def isScript (v : View) : Bool := Text.occursIn "source.js" v.scope

def directory (v : View) : Except Failure (Option Path) :=
  match v.file with
  | some file => .ok (Path.directoryOf file)
  | none => .error .mismatch

end View

inductive Effect where
  | load (resource : Text)
  | erase (key : Text)
  | mark (key : Text) (regions : List Region) (scope icon : Text) (style : Nat)
  | popup (text : Text) (style : Nat) (point : Int)
deriving DecidableEq, Repr, Inhabited

inductive Problem where
  | notRelative
  | unparsable
  | missing
deriving DecidableEq, Repr, Inhabited

def Problem.message : Problem → Text
  | notRelative => "Import most be relative path to .js file"
  | unparsable => "Failed parsing module"
  | missing => "Module not found"

structure Report where
  region : Region
  problem : Problem
deriving DecidableEq, Repr, Inhabited

structure Snapshot where
  modified : Int
  completions : Completions
deriving DecidableEq, Repr, Inhabited

structure Memory where
  reports : Table Text Report := []
  modules : Table Text Snapshot := []
  /-- Completions for the names that need no import. -/
  globals : Option Json := none
  effects : List Effect := []
deriving Inhabited

structure World where
  files : Files := {}
  /-- The text of the resource with completions for names that need no import. -/
  resource : Text := []
  view : View := {}
deriving Inhabited

end Editor

/-- An action of the assistant. What it remembers stays as it was at the moment of a failure. -/
abbrev Editor := ReaderT Editor.World (EStateM Failure Editor.Memory)

namespace Editor

def act (e : Effect) : Editor Unit := modify fun m => { m with effects := m.effects ++ [e] }

/-- Continues with a result, if there is one. -/
def ofExcept {α : Type} : Except Failure α → Editor α
  | .ok a => pure a
  | .error f => throw f

def markKey : Text := "module_import_error"

/-- An underline without fill and outline: `512 + 256 + 32`. -/
def underline : Nat := 512 ||| 256 ||| 32

def drawReports : Editor Unit := do
  let reports := (← get).reports
  if reports.isEmpty then act (.erase markKey)
  else act (.mark markKey (reports.map fun r => r.2.region) "invalid.illegal" [] underline)

def report (path : Text) (region : Region) (problem : Problem) : Editor Unit := do
  modify fun m => { m with reports := Table.set path ⟨region, problem⟩ m.reports }
  drawReports

def popupStyle : Nat := 8

def hover (point : Int) : Editor Unit := do
  for (_, r) in (← get).reports do
    if r.region.contains point then act (.popup r.problem.message popupStyle point)

end Editor

end ScriptTree
