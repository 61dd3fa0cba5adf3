import ScriptTree.Text.Basic
import ScriptTree.Text.Blank
import ScriptTree.Text.Word

/-!
What the text of a program in an editor says before it is a program: import clauses at its head, and the
name or the path that stands before a cursor.
-/

namespace ScriptTree.Editor

structure ImportClause where
  name : Text
  path : Text
  before : Nat
  length : Nat
deriving DecidableEq, Repr, Inhabited

def isQuote (c : Nat) : Bool := c == 0x27 || c == 0x22

def dropWord? (word : String) (t : Text) : Option Text :=
  if (Text.ofString word).isPrefixOf t then some (t.drop word.length) else none

/-- The text after the blanks that it starts with, if there are any. -/
def dropBlanks? : Text → Option Text
  | c :: rest => if Text.isBlank c then some (rest.dropWhile Text.isBlank) else none
  | [] => none

/-- The path after an opening quotation mark and the text after the closing one. A path has at least one
character, which may be a quotation mark, and does not go beyond its line. -/
def quotedPath? : Text → Option (Text × Text)
  | first :: rest =>
    let more := rest.takeWhile fun c => !isQuote c && c != 0xA
    match rest.drop more.length with
    | c :: after => if first != 0xA && isQuote c then some (first :: more, after) else none
    | [] => none
  | [] => none

def importClause? (t : Text) : Option ImportClause := do
  let rest ← dropBlanks? (← dropWord? "import" t)
  let rest ← dropBlanks? (← dropWord? "*" rest)
  let rest ← dropBlanks? (← dropWord? "as" rest)
  let name := rest.takeWhile Text.isWord
  if name.isEmpty then none
  else
    let rest ← dropBlanks? (rest.drop name.length)
    match ← dropBlanks? (← dropWord? "from" rest) with
    | quote :: rest =>
      if isQuote quote then
        let (path, after) ← quotedPath? rest
        let after := if after.head? == some 0x3B then after.drop 1 else after
        some { name, path, before := t.length - rest.length, length := t.length - after.length }
      else none
    | [] => none

/-- The import clauses in a text from left to right, with their offsets. The first `skipped` characters
belong to a clause before. -/
def importClausesFrom (offset skipped : Nat) : Text → List (Nat × ImportClause)
  | [] => []
  | c :: rest =>
    if skipped > 0 then importClausesFrom (offset + 1) (skipped - 1) rest
    else match importClause? (c :: rest) with
      | some clause => (offset, clause) :: importClausesFrom (offset + 1) (clause.length - 1) rest
      | none => importClausesFrom (offset + 1) 0 rest

/-- The import clauses in a text from left to right, with their offsets. -/
def importClauses (t : Text) : List (Nat × ImportClause) := importClausesFrom 0 0 t

def takeEndWhile (p : Nat → Bool) (t : Text) : Text := (t.reverse.takeWhile p).reverse

/-- The name at the end of a line, and the name after its point if there is one: `a`, `a.` or `a.b`. -/
def nameAtEnd? (line : Text) : Option (Text × Text) :=
  let last := takeEndWhile Text.isWord line
  let before := line.take (line.length - last.length)
  let owner := if before.getLast? == some 0x2E then takeEndWhile Text.isWord before.dropLast else []
  if !owner.isEmpty then some (owner, last)
  else if !last.isEmpty then some (last, [])
  else none

/-- The text after a quotation mark up to the end of the line, a closing mark and a semicolon left out. -/
def pathToEnd? (t : Text) : Option Text :=
  let path := t.takeWhile fun c => !isQuote c
  match t.drop path.length with
  | [] => some path
  | [_] => some path
  | [_, 0x3B] => some path
  | _ => none

/-- The first text after a quotation mark that goes up to the end of the line. -/
def firstPathToEnd? : Text → Option Text
  | [] => none
  | c :: rest => if isQuote c then pathToEnd? rest <|> firstPathToEnd? rest else firstPathToEnd? rest

def pathAtEnd? (line : Text) : Option Text := do firstPathToEnd? ((← dropWord? "import" line).drop 1)

end ScriptTree.Editor
