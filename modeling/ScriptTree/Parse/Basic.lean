import ScriptTree.Attachment
import ScriptTree.Lexeme.Next
import ScriptTree.Node.Fields

/-!
Parsing: steps with one token of look ahead over a scan. The context holds what decides how the next
tokens are read.
-/

namespace ScriptTree

inductive Delegate where
  | nothing
  | log
  | rename (names : List (Text × Text))
deriving Inhabited

namespace Parse

/-- How a program is parsed, and what its tree shows. -/
structure Options where
  range : Bool := false
  location : Bool := false
  source : Option Text := none
  tokens : Bool := false
  comments : Bool := false
  attach : Bool := false
  tolerant : Bool := false
  jsx : Bool := false
  classProperties : Bool := false
  isModule : Bool := false
  delegate : Delegate := .nothing
deriving Inhabited

structure Env where
  source : Source
  options : Options
deriving Inhabited

/-- A place by offset, line and column. -/
structure Mark where
  index : Nat := 0
  line : Nat := 0
  column : Int := 0
deriving DecidableEq, Repr, Inhabited

namespace Mark

def position (m : Mark) : Position := ⟨m.line, m.column⟩

end Mark

structure Context where
  isModule : Bool := false
  allowAwait : Bool := false
  allowIn : Bool := true
  allowStrictDirective : Bool := true
  allowYield : Bool := true
  /-- The first initial value of a property without colon, which only a pattern may have. -/
  coverError : Option Token := none
  isTarget : Bool := false
  isBinding : Bool := false
  inFunction : Bool := false
  inIteration : Bool := false
  inSwitch : Bool := false
  labels : List Text := []
  strict : Bool := false
deriving DecidableEq, Repr, Inhabited

structure LogEntry where
  className : String
  typeName : String
  start : Mark
  stop : Mark
deriving DecidableEq, Repr, Inhabited

structure State where
  cursor : Scan.Cursor
  lookahead : Token
  /-- The look ahead is on another line than the token before it. -/
  afterNewLine : Bool := false
  context : Context := {}
  tokens : Array Entry := #[]
  startMark : Mark
  lastMark : Mark
  remarks : Array Remark := #[]
  attachment : Attachment := {}
  log : Array LogEntry := #[]
deriving Inhabited

end Parse

abbrev Parse := ReaderT Parse.Env (EStateM Failure Parse.State)

namespace Parse

def options : Parse Options := return (← read).options

def context : Parse Context := return (← get).context

def setContext (f : Context → Context) : Parse Unit := modify fun s => { s with context := f s.context }

def lookahead : Parse Token := return (← get).lookahead

def peek : Parse Lexeme := return (← get).lookahead.lexeme

def scan {α : Type} (step : Scan α) : Parse α := fun env s =>
  let settings : Scan.Settings :=
    { source := env.source
      tolerant := env.options.tolerant
      comments := env.options.comments || env.options.attach
      isModule := s.context.isModule }
  match step.run settings |>.run s.cursor with
  | .ok a c => .ok a { s with cursor := c }
  | .error e c => .error e { s with cursor := c }

inductive Round (σ α : Type) where
  | again (state : σ)
  | done (result : α)

/-- Repeats rounds, at most so many of them. -/
def loopFor {σ α : Type} (round : σ → Parse (Round σ α)) : Nat → σ → Parse α
  | 0, _ => throw .exhausted
  | n + 1, s => do
    match ← round s with
    | .again s => loopFor round n s
    | .done a => return a

/-- Repeats rounds. Each takes a token, so there are no more than the program has characters. -/
def loop {σ α : Type} (start : σ) (round : σ → Parse (Round σ α)) : Parse α := do
  loopFor round ((← read).source.length + 2) start

def until' {α : Type} (stop : Parse Bool) (item : Parse α) : Parse (List α) := do
  let reversed ← loop [] fun items => do
    if ← stop then return .done items
    else return .again ((← item) :: items)
  return reversed.reverse

/-! ## Complaints -/

/-- What a complaint is about: a token, or a node that was read before. -/
inductive Offender where
  | token (t : Token)
  | node
deriving DecidableEq, Repr, Inhabited

def complaintAt (description : Text) : Parse SyntaxError := do
  let last := (← get).lastMark
  return ⟨last.index, last.line, last.column + 1, description⟩

def filled (m : Message) (parts : List Text) : Parse Text :=
  match Message.fill parts m.wording with
  | some t => return t
  | none => throw (.broken "Message reference must be in range")

def reject {α : Type} (m : Message) (parts : List Text := []) : Parse α := do
  throw (.rejected (← complaintAt (← filled m parts)))

def complain (m : Message) (parts : List Text := []) : Parse Unit := do
  let e ← complaintAt (← filled m parts)
  scan do Scan.tolerate { e with line := (← get).line }

def tokenMessage (strict : Bool) : Lexeme → Message
  | .endOfInput => .unexpectedEnd
  | .identifier _ => .unexpectedIdentifier
  | .numeric .. => .unexpectedNumber
  | .string .. => .unexpectedString
  | .template .. => .unexpectedTemplate
  | .keyword word =>
    if Words.isFuture word then .unexpectedReservedWord
    else if strict && Words.isStrict word then .strictReservedWord
    else .unexpectedToken
  | _ => .unexpectedToken

def tokenText (l : Lexeme) : Parse Text :=
  match l.text? with
  | some t => return t
  | none => throw .tooManyDigits

/-- A complaint about a token, with a message of its own or the one for its kind. -/
def unexpectedToken (t : Token) (m : Option Message) : Parse SyntaxError := do
  let m := m.getD (tokenMessage (← context).strict t.lexeme)
  let value ← tokenText t.lexeme
  let last := (← get).lastMark
  return ⟨t.start, t.line, (t.start : Int) - (last.index - last.column) + 1,
    Text.replaceFirst (Text.ofString "%0") value m.wording⟩

def unexpected (o : Offender) (m : Option Message) : Parse SyntaxError :=
  match o with
  | .token t => unexpectedToken t m
  | .node => complaintAt (m.getD .unexpectedToken).wording

def rejectToken {α : Type} (t : Token) (m : Option Message := none) : Parse α := do
  throw (.rejected (← unexpectedToken t m))

def rejectAhead {α : Type} (m : Option Message := none) : Parse α := do rejectToken (← lookahead) m

def rejectOffender {α : Type} (o : Offender) (m : Option Message) : Parse α := do
  throw (.rejected (← unexpected o m))

def complainToken (t : Token) (m : Option Message := none) : Parse Unit := do
  let e ← unexpectedToken t m
  scan (Scan.tolerate e)

def complainOffender (o : Offender) (m : Option Message) : Parse Unit := do
  let e ← unexpected o m
  scan (Scan.tolerate e)

end Parse

end ScriptTree
