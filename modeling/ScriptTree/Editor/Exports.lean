import ScriptTree.Editor.Basic

/-!
The completions of an imported module. A module is parsed again when its file was modified.
-/

namespace ScriptTree.Editor

def isScriptPath (path : Text) : Bool :=
  path.head? == some 0x2E && (Text.ofString ".js").isSuffixOf path

/-- The completions of a module that were found at the time at which its file was modified. -/
def known? (path : Text) (place : Option Path) : Editor (Option Completions) := do
  match Table.get? path (← get).modules with
  | some snapshot =>
    let modified ← ofExcept ((← read).files.modified? place)
    return if modified == some snapshot.modified then some snapshot.completions else none
  | none => return none

/-- The completions of the module with the given text, which are remembered. -/
def learn (path : Text) (region : Region) (name text : Text) (modified : Int) : Editor Completions := do
  match parse text { isModule := true } with
  | .error _ =>
    report path region .unparsable
    return []
  | .ok program =>
    let completions ← ofExcept (program.completions name)
    modify fun m =>
      { m with
        modules := Table.set path ⟨modified, completions⟩ m.modules
        reports := Table.erase path m.reports }
    drawReports
    return completions

/-- The completions of the module that an import path leads to. The path stands at the given region. -/
def exports (path : Text) (region : Region) : Editor Completions := do
  if path.isEmpty then throw .noSuchMember
  if !isScriptPath path then
    report path region .notRelative
    return []
  let world ← read
  let directory ← ofExcept world.view.directory
  let place := directory.bind fun d => Path.resolve d path
  if let some completions ← known? path place then return completions
  match world.files.read place with
  | .error .noSuchFile =>
    report path region .missing
    return []
  | .error f => throw f
  | .ok (bytes, modified) =>
    match Text.ofUtf8? bytes with
    | none => throw .badEncoding
    | some text =>
      let name := (place.bind List.getLast?).getD []
      learn path region name text.unifyLineEnds modified

end ScriptTree.Editor
