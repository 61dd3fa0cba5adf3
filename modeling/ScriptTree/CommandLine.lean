import ScriptTree.Json.Writer
import ScriptTree.Lexeme.Listing
import ScriptTree.Program
import ScriptTree.Text.Utf8
import ScriptTree.Value.Json

/-!
The command line: it prints the syntax tree or the tokens of one file as JSON.
-/

namespace ScriptTree.CommandLine

def programName : String := "esprima"

def version : String := "4.0.1"

structure Options where
  comment : Bool := false
  attachComment : Bool := false
  loc : Bool := false
  range : Bool := false
  raw : Bool := false
  tokens : Bool := false
  tolerant : Bool := false
  tokenize : Bool := false
  isModule : Bool := false
deriving DecidableEq, Repr, Inhabited

/-! ## Switches -/

inductive Switch where
  | version
  | help
  | comment
  | attachComment
  | loc
  | range
  | raw
  | tokens
  | tolerant
  | tokenize
  | module
deriving DecidableEq, Repr, Inhabited

namespace Switch

def all : List Switch :=
  [version, help, comment, attachComment, loc, range, raw, tokens, tolerant, tokenize, module]

def name : Switch → String
  | version => "--version"
  | help => "--help"
  | comment => "--comment"
  | attachComment => "--attachComment"
  | loc => "--loc"
  | range => "--range"
  | raw => "--raw"
  | tokens => "--tokens"
  | tolerant => "--tolerant"
  | tokenize => "--tokenize"
  | module => "--module"

def description : Switch → String
  | version => "show program's version number and exit"
  | help => "show this help message and exit"
  | comment => "Gather all line and block comments in an array"
  | attachComment => "Attach comments to nodes"
  | loc => "Include line-column location info for each syntax node"
  | range => "Include index-based range for each syntax node"
  | raw => "Display the raw value of literals"
  | tokens => "List all tokens in an array"
  | tolerant => "Tolerate errors on a best-effort basis (experimental)"
  | tokenize => "Only tokenize, do not parse."
  | module => "Tolerate errors on a best-effort basis (experimental)"

def forms : Switch → String
  | help => "-h, --help"
  | s => s.name

end Switch

inductive Misuse where
  | unknown (written : Text)
  | ambiguous (written : Text) (candidates : List String)
  | hasValue (switch : Switch)
deriving DecidableEq, Repr, Inhabited

def Misuse.message : Misuse → Text
  | unknown written => Text.ofString "no such option: " ++ written
  | ambiguous written candidates =>
    Text.ofString "ambiguous option: " ++ written
      ++ Text.ofString (" (" ++ ", ".intercalate candidates ++ "?)")
  | hasValue switch => Text.ofString (switch.name ++ " option does not take a value")

inductive Stop where
  | version
  | help
  | misuse (cause : Misuse)
deriving DecidableEq, Repr, Inhabited

/-- The switch that is written in full or by the beginning of its long form. -/
def switchNamed (written : Text) : Except Stop Switch :=
  match Switch.all.find? fun s => written.is s.name with
  | some s => .ok s
  | none => match Switch.all.filter fun s => written.isPrefixOf (Text.ofString s.name) with
    | [s] => .ok s
    | [] => .error (.misuse (.unknown written))
    | several =>
      let names := (several.map Switch.name).mergeSort fun a b => !decide (b < a)
      .error (.misuse (.ambiguous written names))

def Options.add (o : Options) : Switch → Except Stop Options
  | .version => .error .version
  | .help => .error .help
  | .comment => .ok { o with comment := true }
  | .attachComment => .ok { o with attachComment := true }
  | .loc => .ok { o with loc := true }
  | .range => .ok { o with range := true }
  | .raw => .ok { o with raw := true }
  | .tokens => .ok { o with tokens := true }
  | .tolerant => .ok { o with tolerant := true }
  | .tokenize => .ok { o with tokenize := true }
  | .module => .ok { o with isModule := true }

def Options.addLong (o : Options) (argument : Text) : Except Stop Options := do
  let written := argument.takeWhile fun c => c != 0x3D
  let s ← switchNamed written
  if written.length < argument.length then .error (.misuse (.hasValue s)) else o.add s

/-- The options with an argument that starts with one dash: single letters, of which one is known. -/
def Options.addShort (o : Options) (letters : Text) : Except Stop Options :=
  match letters with
  | [] => .ok o
  | c :: _ => if c == 0x68 then .error .help else .error (.misuse (.unknown [0x2D, c]))

/-- The options and the files that are named by arguments. Two dashes alone end the switches. -/
def readArguments (o : Options) (files : List Text) : List Text → Except Stop (Options × List Text)
  | [] => .ok (o, files)
  | argument :: rest => do
    if argument.is "--" then .ok (o, files ++ rest)
    else if (Text.ofString "--").isPrefixOf argument then readArguments (← o.addLong argument) files rest
    else if argument.head? == some 0x2D && argument.length > 1 then
      readArguments (← o.addShort (argument.drop 1)) files rest
    else readArguments o (files ++ [argument]) rest

/-! ## Output -/

def usage : Text := Text.ofString s!"Usage: {programName} [options] [file.js]"

/-- One line on a switch. The descriptions start in one column. -/
def helpLine (width : Nat) (s : Switch) : Text :=
  Text.ofString ("  " ++ s.forms.pushn ' ' (width - s.forms.length) ++ "  " ++ s.description)

def helpLines : List Text :=
  let width := (Switch.all.map fun s => s.forms.length).foldl max 0
  [usage, [], Text.ofString "Options:"] ++ Switch.all.map (helpLine width)

def Stop.lines : Stop → List Text
  | version => [Text.ofString CommandLine.version]
  | help => helpLines
  | misuse cause => [usage, [], Text.ofString s!"{programName}: error: " ++ cause.message]

def Stop.status : Stop → Nat
  | version | help => 0
  | misuse _ => 2

def value (o : Options) (code : Text) : Except Failure Value :=
  if o.tokenize then do
    let (entries, _) ← ScriptTree.tokenize code
      { comments := o.comment, range := o.range, location := o.loc, tolerant := o.tolerant }
    return .list (entries.map Entry.toValue)
  else do
    let program ← parse code
      { comments := o.comment, attach := o.attachComment, location := o.loc, range := o.range,
        tokens := o.tokens, tolerant := o.tolerant, isModule := o.isModule, jsx := true,
        classProperties := true }
    return program.toValue

/-- The tokens or the syntax tree of a program, or the error for which it is rejected. -/
def valueOrError (o : Options) (code : Text) : Except Failure Value :=
  match value o code with
  | .error (.rejected e) => .ok e.toValue
  | r => r

def output (o : Options) (code : Text) : Except Failure Text := do
  let v ← valueOrError o code
  Json.write (.indented 0) (← v.plain.toJson)

inductive Outcome where
  | stopped (reason : Stop)
  | helped
  | printed (output : Text)
deriving DecidableEq, Repr, Inhabited

def misuseStatus : Nat := 64

def Outcome.status : Outcome → Nat
  | stopped reason => reason.status
  | helped => misuseStatus
  | printed _ => 0

def Outcome.lines : Outcome → List Text
  | stopped reason => reason.lines
  | helped => helpLines
  | printed output => output.split 0xA

/-- The file that is read, if exactly one is named. -/
def file? (arguments : List Text) : Option Text :=
  match readArguments {} [] arguments with
  | .ok (_, [file]) => some file
  | _ => none

/-- Runs the program. Programs are not read from standard input; on a terminal the help text says so. -/
def run (arguments : List Text) (isTerminal : Bool) (read : Text → Except Failure ByteArray) :
    Except Failure Outcome :=
  match readArguments {} [] arguments with
  | .error reason => .ok (.stopped reason)
  | .ok (o, [file]) => do
    match Text.ofUtf8? (← read file) with
    | some code => return .printed (← output o code)
    | none => .error .badEncoding
  | .ok _ => if isTerminal then .ok .helped else .error .noInput

end ScriptTree.CommandLine
