import ScriptTree.Parse.Knot

/-!
Programs: scripts and modules with their syntax trees.
-/

namespace ScriptTree

namespace SyntaxError

def toValue (e : SyntaxError) : Value :=
  .record [("message", .text e.summary), ("index", .ofInt e.index), ("lineNumber", .ofInt e.line),
    ("column", .ofInt e.column)]

end SyntaxError

structure Program where
  root : Node
  source : Option Text := none
  comments : Option (List Remark) := none
  tokens : Option (List Entry) := none
  errors : Option (List SyntaxError) := none
  log : List Parse.LogEntry := []
deriving Inhabited

namespace Program

/-- A list as a field, if it was asked for. -/
def listField {α : Type} (name : String) (f : α → Value) : Option (List α) → List (Text × Value)
  | some l => [(name, .list (l.map f))]
  | none => []

def toValue (p : Program) : Value :=
  match p.root.toValue p.source with
  | .object className fields =>
    .object className (fields
      ++ listField "comments" Remark.toValue p.comments
      ++ listField "tokens" Entry.toValue p.tokens
      ++ listField "errors" SyntaxError.toValue p.errors)
  | v => v

def body (p : Program) : List Node :=
  match p.root.shape with
  | .program _ body => body
  | _ => []

end Program

namespace Parse

def State.start (source : Source) : State :=
  let cursor := Scan.start source
  let start : Mark := ⟨0, cursor.line, 0⟩
  { cursor
    lookahead := ⟨.endOfInput, cursor.line, 0, 0, 0⟩
    startMark := start
    lastMark := start }

/-- A whole program. Its first token is read before it is known to be part of a module. -/
def program (g : Grammar) : Parse Node := do
  skip
  let last ← scanMark
  modify fun s => { s with lastMark := last }
  let isModule := (← options).isModule
  if isModule then setContext fun c => { c with strict := true, isModule := true }
  let start ← startMark
  let directives ← prologue g
  let items ← until' seesEnd g.item
  finish start (.program isModule (directives ++ items))

end Parse

def parse (t : Text) (o : Parse.Options := {}) : Except Failure Program :=
  let source := Source.ofText t
  let rule := Parse.program (Parse.grammar (Parse.depth source))
  match rule ⟨source, o⟩ (Parse.State.start source) with
  | .error e _ => .error e
  | .ok root s => .ok {
      root := if o.attach then root.annotate s.attachment.remarksOf else root
      source := o.source
      comments := if o.comments then some s.remarks.toList else none
      tokens := if o.tokens then some s.tokens.toList else none
      errors := if o.tolerant then some s.cursor.errors else none
      log := s.log.toList }

end ScriptTree
