import ScriptTree.Lexeme.Entry
import ScriptTree.Lexeme.Next
import ScriptTree.Lexeme.Slash

/-!
The list of all tokens and comments of a program, without its grammar.
-/

namespace ScriptTree

namespace Listing

/-- What a list shows, and whether errors are passed over. -/
structure Options where
  tolerant : Bool := false
  comments : Bool := false
  range : Bool := false
  location : Bool := false
deriving Inhabited

def ofComment (o : Options) (source : Source) (c : Comment) : Entry :=
  { kind := if c.multiLine then "BlockComment" else "LineComment"
    value := source.slice c.body.start c.body.stop
    range := if o.range then some c.range else none
    location := if o.location then some c.location else none }

def ofToken (o : Options) (source : Source) (t : Token) (first last : Position) : Entry :=
  { kind := t.lexeme.kindName
    value := source.slice t.start t.stop
    regex := match t.lexeme with
      | .regex pattern flags _ => some (pattern, flags)
      | _ => none
    range := if o.range then some ⟨t.start, t.stop⟩ else none
    location := if o.location then some ⟨first, last⟩ else none }

/-- A regular expression if there is a valid one at the cursor, and another token if not. -/
def regexOrNext : Scan Token := do
  let place ← Scan.save
  try Scan.regex
  catch _ =>
    Scan.restore place
    Scan.next

/-- The comments before the next token and the token itself. Nothing is returned at the end if there are
no comments before it. -/
def group (o : Options) (h : History) : Scan (Option (List Entry × History)) := do
  let source := (← read).source
  let comments := (← Scan.comments).map (ofComment o source)
  if ← Scan.atEnd then return if comments.isEmpty then none else some (comments, h)
  let first ← Scan.positionBack 0
  let slash ←
    if (← Scan.here) == 0x2F then
      match h.opensRegex with
      | .ok b => pure b
      | .error e => throw e
    else pure false
  let t ← if slash then regexOrNext else Scan.next
  let last ← Scan.positionBack 0
  return some (comments ++ [ofToken o source t first last], h.push t.lexeme)

/-- All groups. An error that is passed over ends the list before its group. -/
def groups (o : Options) : Nat → History → Scan (List Entry)
  | 0, _ => return []
  | n + 1, h => do
    let g ← try group o h
      catch
        | .rejected e => do
          Scan.tolerate e
          pure none
        | e => throw e
    match g with
    | none => return []
    | some (entries, h) => return entries ++ (← groups o n h)

end Listing

/-- The tokens of a program, with its comments on demand, and the errors that were passed over. -/
def tokenize (t : Text) (o : Listing.Options := {}) : Except Failure (List Entry × List SyntaxError) :=
  let source := Source.ofText t
  let settings : Scan.Settings := { source, tolerant := o.tolerant, comments := o.comments }
  match (Listing.groups o (source.length + 1) {}).run settings |>.run (Scan.start source) with
  | .ok entries cursor => .ok (entries, cursor.errors)
  | .error e _ => .error e

end ScriptTree
