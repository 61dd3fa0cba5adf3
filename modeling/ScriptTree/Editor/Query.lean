import ScriptTree.Editor.Exports
import ScriptTree.Editor.Import
import ScriptTree.Json.Reader

/-!
Completions at the cursors of a view.
-/

namespace ScriptTree.Editor

inductive Origin where
  | imported (path : Text) (region : Region)
  /-- The name needs no import and has these completions. -/
  | given (completions : Json)
deriving Inhabited

def headLength : Nat := 1000

/-- The imports at the head of a view by name. The last import of a name counts. -/
def imports (v : View) : Table Text (Text × Region) :=
  Table.ofEntries ((importClauses (v.text.take headLength)).map fun (offset, clause) =>
    let start : Int := offset + clause.before
    (clause.name, (clause.path, ⟨start, start + clause.path.length⟩)))

/-- The reports whose paths are met in their order in a list of paths. After a path that is not met, none
is. -/
def stillImported : Table Text Report → List Text → Table Text Report
  | [], _ => []
  | (path, r) :: rest, paths =>
    match paths.dropWhile fun p => p != path with
    | _ :: after => (path, r) :: stillImported rest after
    | [] => stillImported rest []

def resourceName : Text := "Packages/Resolve Javascript Modules/browser_completions.json"

/-- The completions for names that need no import, which are remembered unless there are none. -/
def globals : Editor Json := do
  match (← get).globals with
  | some known => return known
  | none =>
    act (.load resourceName)
    let found ← ofExcept (Json.read (← read).resource)
    if found.isPresent then modify fun m => { m with globals := some found }
    return found

def membersOf : Json → Editor (Table Text Json)
  | .object members => pure members
  | _ => throw .noSuchPart

/-- The names that have completions. Reports on paths that are no longer imported are dropped. -/
def origins : Editor (Table Text Origin) := do
  let imported := imports (← read).view
  modify fun m => { m with reports := stillImported m.reports (imported.map fun i => i.2.1) }
  let known ← membersOf (← globals)
  let own : Table Text Origin := imported.map fun (name, path, region) => (name, .imported path region)
  return known.foldl (fun all (name, value) => Table.set name (.given value) all) own

def offer (suggestion completed : Text) : Json := .array [.string suggestion, .string completed]

def labelled (name : Text) (kind : String) : Json := offer (name ++ Text.ofString ("\t" ++ kind)) name

def startingWith (start : Text) (completions : Completions) : Editor (List Json) := do
  let found ← completions.mapM fun (name, c) => match name with
    | some name => pure (if start.isPrefixOf name then [offer c.suggestion c.completed] else [])
    | none => throw .noSuchPart
  return found.flatten

/-- The completions for a member of a module, or for the names of modules. -/
def members (origins : Table Text Origin) (module start : Text) : Editor (List Json) := do
  match Table.get? module origins with
  | none =>
    return ((Table.keys origins).filter module.isPrefixOf).map fun name => labelled name "module"
  | some (.imported path region) => startingWith start (← exports path region)
  | some (.given value) =>
    return ((← membersOf value).filter fun (name, _) => start.isPrefixOf name).map Prod.snd

/-- The completions for a path: directories and scripts. -/
def paths (path : Text) : Editor (List Json) := do
  let world ← read
  let directory ← ofExcept world.view.directory
  match world.files.list (directory.bind fun d => Path.resolve d path) with
  | .error _ => return []
  | .ok names =>
    return names.flatMap fun name =>
      (if (Text.find? 0x2E name).isNone then [labelled name "dir"] else [])
      ++ (if (Text.ofString ".js").isSuffixOf name then [labelled name "file"] else [])

/-- A completion without its arguments, for use where they stand already. -/
def withoutArguments : Json → Except Failure Json
  | .array (suggestion :: .string t :: rest) =>
    .ok (.array (suggestion :: .string (t.takeWhile fun c => c != 0x28) :: rest))
  | .array (_ :: _ :: _) => .error .noSuchPart
  | .array _ => .error .noSuchMember
  | .string (a :: c :: t) => if c == 0x28 then .error .mismatch else .ok (.string (a :: c :: t))
  | .string _ => .error .noSuchMember
  | .object _ => .error .noEntry
  | _ => .error .mismatch

structure Offers where
  completions : List Json := []
  isExclusive : Bool := false
deriving Inhabited

/-- Adds what is offered at one more cursor. Before an opening parenthesis all completions lose their
arguments. -/
def offerAt (origins : Table Text Origin) (o : Offers) (point : Nat) : Editor Offers := do
  let view := (← read).view
  let line := view.lineUpTo point
  match nameAtEnd? line with
  | some (module, start) =>
    let all := o.completions ++ (← members origins module start)
    if view.charAt point == 0x28 then
      return { o with completions := ← ofExcept (all.mapM withoutArguments) }
    else return { o with completions := all }
  | none => match pathAtEnd? line with
    | some path => return ⟨o.completions ++ (← paths path), true⟩
    | none => return o

/-- What is offered at the cursors of a view, unless it is no JavaScript program. -/
def query (points : List Nat) : Editor (Option Offers) := do
  if !(← read).view.isScript then return none
  let origins ← origins
  return some (← points.foldlM (offerAt origins) {})

/-- Other completions are kept out by the sum of these: `8 + 16`. -/
def exclusiveStyle : Nat := 8 ||| 16

def triggerCharacters : Text := "./"

/-- The settings of an editor with the characters of the first trigger set. -/
def withTriggers : Json → Except Failure Json
  | .array (.object trigger :: rest) =>
    .ok (.array (.object (Table.set "characters" (.string triggerCharacters) trigger) :: rest))
  | .array [] => .error .noSuchMember
  | .string [] => .error .noSuchMember
  | .object _ => .error .noEntry
  | _ => .error .mismatch

end ScriptTree.Editor
