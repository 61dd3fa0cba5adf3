import ScriptTree.Parse.Basic

/-!
Taking tokens and finishing nodes.
-/

namespace ScriptTree.Parse

/-! ## Places -/

def scanMark : Parse Mark := do
  let c := (← get).cursor
  return ⟨c.index, c.line, (c.index : Int) - c.lineStart⟩

def startMark : Parse Mark := return (← get).startMark

/-- The start of a token. A token that ends on a later line has its column counted from another line start,
and its line is taken to be the one before. -/
def tokenMark (t : Token) (lastLineStart : Nat := 0) : Mark :=
  let column : Int := (t.start : Int) - t.lineStart
  if column < 0 then ⟨t.start, t.line - 1, column + lastLineStart⟩ else ⟨t.start, t.line, column⟩

/-! ## Finishing nodes and comments -/

def note (className typeName : String) (start stop : Mark) : Parse Unit := do
  if let .log := (← options).delegate then
    modify fun s => { s with log := s.log.push ⟨className, typeName, start, stop⟩ }

def finish (start : Mark) (shape : Shape Node) : Parse Node := do
  let o ← options
  let stop := (← get).lastMark
  let info : Node.Info :=
    { range := if o.range then some ⟨start.index, stop.index⟩ else none
      location := if o.location then some ⟨start.position, stop.position⟩ else none }
  note shape.className shape.typeName start stop
  let n : Node := match o.delegate, shape with
    | .rename names, .identifier name =>
      match Table.get? name names with
      | some new => Node.bare (.identifier new)
      | none => ⟨info, shape⟩
    | _, _ => ⟨info, shape⟩
  if o.attach then
    let a := (← get).attachment
    let visited ← match n.shape with
      | .program _ (_ :: _) => pure a.skip
      | s =>
        let isEmptyBlock := match s with
          | .blockStatement [] => true
          | _ => false
        match a.visit isEmptyBlock start.index stop.index with
        | .ok visited => pure visited
        | .error e => throw e
    modify fun s => { s with attachment := visited }
    return { n with info := { n.info with id := a.nextId } }
  else return n

def takeComment (c : Comment) : Parse Unit := do
  let o ← options
  let value := (← read).source.slice c.body.start c.body.stop
  let className := if c.multiLine then "BlockComment" else "LineComment"
  note className className
    ⟨c.range.start, c.location.start.line, c.location.start.column⟩
    ⟨c.range.stop, c.location.stop.line, c.location.stop.column⟩
  let location := if o.location then some c.location else none
  let remark : Remark :=
    { isBlock := c.multiLine, value, range := if o.range then some c.range else none, location }
  modify fun s => { s with remarks := s.remarks.push remark }
  if o.attach then
    let beside := { remark with range := some c.range }
    modify fun s => { s with attachment := s.attachment.add beside c.range.start }

def takeComments : Parse Unit := do
  for c in ← scan Scan.comments do takeComment c

/-! ## Taking tokens -/

def rawText (t : Token) : Parse Text := return (← read).source.slice t.start t.stop

def entryOf (t : Token) : Parse Entry := do
  let o ← options
  let start := (← get).startMark
  let stop ← scanMark
  return {
    kind := t.lexeme.kindName
    value := ← rawText t
    regex := match t.lexeme with
      | .regex pattern flags _ => some (pattern, flags)
      | _ => none
    range := if o.range then some ⟨t.start, t.stop⟩ else none
    location := if o.location then some ⟨start.position, stop.position⟩ else none }

def listToken (t : Token) : Parse Unit := do
  if (← options).tokens then
    let e ← entryOf t
    modify fun s => { s with tokens := s.tokens.push e }

def unlistToken : Parse Unit := modify fun s => { s with tokens := s.tokens.pop }

def reserve (strict : Bool) (l : Lexeme) : Lexeme :=
  match l with
  | .identifier name =>
    match strict, Words.find? Words.strict name with
    | true, some word => .keyword word
    | _, _ => l
  | _ => l

def next : Parse Token := do
  let taken ← lookahead
  let last ← scanMark
  modify fun s => { s with lastMark := last }
  takeComments
  let start ← scanMark
  modify fun s => if start.index == s.startMark.index then s else { s with startMark := start }
  let t ← scan Scan.next
  let t := { t with lexeme := reserve (← context).strict t.lexeme }
  modify fun s => { s with lookahead := t, afterNewLine := taken.line != t.line }
  unless t.lexeme == .endOfInput do listToken t
  return taken

def skip : Parse Unit := do
  let _ ← next

def nextRegex : Parse Token := do
  let start := (← get).startMark.index
  scan (Scan.seek start)
  takeComments
  let t ← scan Scan.regex
  if (← options).tokens then
    unlistToken
    listToken t
  modify fun s => { s with lookahead := t }
  skip
  return t

def peekNext : Parse Token := scan do
  let place ← Scan.save
  let _ ← Scan.comments
  let t ← Scan.next
  Scan.restore place
  return t

/-! ## Questions about the token ahead -/

def sees (mark : String) : Parse Bool := return (← peek).isMark mark

def seesAny (marks : List String) : Parse Bool := do
  let l ← peek
  return marks.any l.isMark

def seesWord (word : String) : Parse Bool := return (← peek).isWord word

def seesAnyWord (words : List String) : Parse Bool := do
  let l ← peek
  return words.any l.isWord

def seesName (name : String) : Parse Bool := return (← peek).isName name

def seesEnd : Parse Bool := return (← peek) == .endOfInput

def assignmentOperators : List String :=
  ["=", "*=", "**=", "/=", "%=", "+=", "-=", "<<=", ">>=", ">>>=", "&=", "^=", "|="]

/-! ## Demands on the token ahead -/

def expect (mark : String) : Parse Unit := do
  let t ← next
  unless t.lexeme.isMark mark do rejectToken t

def expectWord (word : String) : Parse Unit := do
  let t ← next
  unless t.lexeme.isWord word do rejectToken t

/-- Takes a comma. A tolerant parse goes on without it. -/
def expectComma : Parse Unit := do
  if (← options).tolerant then
    let t ← lookahead
    if t.lexeme.isMark "," then skip
    else if t.lexeme.isMark ";" then
      skip
      complainToken t
    else complainToken t (some .unexpectedToken)
  else expect ","

/-- Takes a semicolon, which may be missing at the end of a line, before a closing brace and at the end. -/
def semicolon : Parse Unit := do
  if ← sees ";" then skip
  else if !(← get).afterNewLine then
    unless (← seesEnd) || (← sees "\x7d") do rejectAhead
    modify fun s => { s with lastMark := s.startMark }

/-! ## Flags of what was read -/

def onlyValue : Parse Unit := setContext fun c => { c with isTarget := false, isBinding := false }

/-- What was read may be assigned to, but is no parameter. -/
def onlyTarget : Parse Unit := setContext fun c => { c with isTarget := true, isBinding := false }

def freshCover : Parse Unit := setContext fun c =>
  { c with isTarget := true, isBinding := true, coverError := none }

/-- Reads something that is only used as an expression. The flags are as before. -/
def isolate {α : Type} (p : Parse α) : Parse α := do
  let before ← context
  freshCover
  let result ← p
  if let some t := (← context).coverError then rejectToken t
  setContext fun c =>
    { c with isTarget := before.isTarget, isBinding := before.isBinding, coverError := before.coverError }
  return result

/-- Reads something that may turn out to be part of a pattern. The flags are those of both. -/
def inherit {α : Type} (p : Parse α) : Parse α := do
  let before ← context
  freshCover
  let result ← p
  setContext fun c =>
    { c with
      isTarget := c.isTarget && before.isTarget
      isBinding := c.isBinding && before.isBinding
      coverError := before.coverError.or c.coverError }
  return result

end ScriptTree.Parse
