import ScriptTree.Failure
import ScriptTree.Table
import ScriptTree.Text.Utf8

/-!
A tree of files below one directory. A path that leads out of the directory leads to nothing.
-/

namespace ScriptTree

/-- The names that lead from the root of the tree to a file or a directory. -/
abbrev Path := List Text

namespace Path

def segments (text : Text) : List Text := text.split 0x2F

def follow (place : Path) (segment : Text) : Option Path :=
  if segment.isEmpty || segment.is "." then some place
  else if segment.is ".." then if place.isEmpty then none else some place.dropLast
  else some (place ++ [segment])

def resolve (directory : Path) (text : Text) : Option Path :=
  if text.head? == some 0x2F then none else (segments text).foldlM follow directory

/-- The place that a text leads to from the root. An empty text leads nowhere. -/
def ofText (text : Text) : Option Path := if text.isEmpty then none else resolve [] text

def directoryOf (text : Text) : Option Path :=
  if text.head? == some 0x2F then none else (segments text).dropLast.foldlM follow []

/-- The directories that a path goes through, from the top. -/
def parents : Path → List Path
  | [] => []
  | name :: rest => [] :: (parents rest).map (name :: ·)

end Path

inductive Files.Item where
  | directory
  | file (bytes : ByteArray) (modified : Int)
deriving Inhabited

/-- Files and directories by path. The root is there without an entry. -/
structure Files where
  items : Table Path Files.Item := []
deriving Inhabited

namespace Files

/-- What a path leads to, given that its parents are directories. -/
def item? (f : Files) (path : Path) : Option Item :=
  if path.isEmpty then some .directory else Table.get? path f.items

def checkDirectory (f : Files) (path : Path) : Except Failure Unit :=
  match f.item? path with
  | some .directory => .ok ()
  | some (.file _ _) => .error .notDirectory
  | none => .error .noSuchFile

def find (f : Files) : Option Path → Except Failure Item
  | none => .error .noSuchFile
  | some path => do
    path.parents.forM f.checkDirectory
    match f.item? path with
    | some item => .ok item
    | none => .error .noSuchFile

def read (f : Files) (path : Option Path) : Except Failure (ByteArray × Int) := do
  match ← f.find path with
  | .file bytes modified => .ok (bytes, modified)
  | .directory => .error .isDirectory

/-- The time at which a file was modified. That of a directory is not kept. -/
def modified? (f : Files) (path : Option Path) : Except Failure (Option Int) := do
  match ← f.find path with
  | .file _ modified => .ok (some modified)
  | .directory => .ok none

/-- The names in a directory, by code point. -/
def list (f : Files) (path : Option Path) : Except Failure (List Text) := do
  match path, ← f.find path with
  | some path, .directory =>
    let names := f.items.filterMap fun (p, _) => if p.dropLast == path then p.getLast? else none
    return names.mergeSort fun a b => !decide (b < a)
  | _, _ => .error .notDirectory

def makeDirectory (f : Files) (path : Path) : Files :=
  (path.parents ++ [path]).foldl
    (fun f p => if (f.item? p).isSome then f else { f with items := Table.set p .directory f.items }) f

def write (f : Files) (path : Path) (bytes : ByteArray) (modified : Int) : Files :=
  let f := f.makeDirectory path.dropLast
  { f with items := Table.set path (.file bytes modified) f.items }

def remove (f : Files) (path : Path) : Files :=
  { f with items := f.items.filter fun (p, _) => !path.isPrefixOf p }

end Files

end ScriptTree
