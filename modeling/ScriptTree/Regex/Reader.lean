import ScriptTree.Regex.Basic
import ScriptTree.Regex.Group

/-!
Validity of regular expressions. A pattern is read from left to right. What is kept of each part is the
least and the greatest length of its matches, since what is looked for behind must have one length.
-/

namespace ScriptTree.Regex

/-- The least and the greatest length of the matches of a part of a pattern. -/
structure Extent where
  least : Nat
  most : Nat
deriving DecidableEq, Repr, Inhabited

def maxLength : Nat := Nat.pow 2 64

/-- From this number on a repetition has no limit, and numbers are refused. -/
def unlimited : Nat := Nat.pow 2 32 - 1

def maxGroups : Nat := Nat.pow 2 30 - 1

namespace Extent

def none : Extent := ⟨0, 0⟩

def one : Extent := ⟨1, 1⟩

def append (a b : Extent) : Extent := ⟨a.least + b.least, a.most + b.most⟩

def either (a b : Extent) : Extent := ⟨min a.least b.least, max a.most b.most⟩

def repeated (e : Extent) (low high : Nat) : Extent :=
  ⟨e.least * low, if high == unlimited && e.most != 0 then maxLength else e.most * high⟩

def cut (e : Extent) : Extent := ⟨min e.least maxLength, min e.most maxLength⟩

end Extent

/-- What has been read of a pattern, and what it has defined. -/
structure Progress where
  rest : Text
  flags : Flags
  /-- The extents of the groups from number one, with nothing for those that are still open. -/
  groups : List (Option Extent) := []
  names : List (Text × Nat) := []
  /-- Inside a look-behind, the number of the first group that it cannot refer to. -/
  behind : Option Nat := none
  /-- The numbers of groups that conditions have named. -/
  conditions : List Nat := []
  repeats : Bool := false

/-- A reader of patterns: nothing comes of an invalid one. -/
abbrev Read := StateT Progress Option

/-- A piece of a pattern: a character, or a backslash with the character after it. -/
inductive Piece where
  | plain (c : Nat)
  | escaped (c : Nat)
deriving DecidableEq

/-- The next piece. A backslash at the end of a pattern is invalid. -/
def peek : Read (Option Piece) := do
  match (← get).rest with
  | [] => return none
  | 0x5C :: c :: _ => return some (.escaped c)
  | [0x5C] => failure
  | c :: _ => return some (.plain c)

def next : Read (Option Piece) := do
  let piece ← peek
  match piece with
  | none => pure ()
  | some (.plain _) => modify fun p => { p with rest := p.rest.drop 1 }
  | some (.escaped _) => modify fun p => { p with rest := p.rest.drop 2 }
  return piece

def accept (c : Nat) : Read Bool := do
  if (← peek) == some (.plain c) then
    let _ ← next
    return true
  else return false

def require (c : Nat) : Read Unit := do
  if ← accept c then pure () else failure

def takeUpTo (kind : Nat → Bool) : Nat → Read Text
  | 0 => return []
  | count + 1 => do
    match ← peek with
    | some (.plain c) =>
      if kind c then
        let _ ← next
        return c :: (← takeUpTo kind count)
      else return []
    | _ => return []

/-- Takes a name that ends before a character, and that character. -/
def takeUntil (stop : Nat) : Nat → Text → Read Text
  | 0, _ => failure
  | fuel + 1, reversed => do
    match ← next with
    | none => failure
    | some (.plain c) =>
      if c == stop then if reversed.isEmpty then failure else return reversed.reverse
      else takeUntil stop fuel (c :: reversed)
    | some (.escaped c) => takeUntil stop fuel (c :: 0x5C :: reversed)

def takeName (stop : Nat) : Read Text := do
  takeUntil stop ((← get).rest.length + 1) []

def isAsciiLetter (c : Nat) : Bool := (0x41 ≤ c && c ≤ 0x5A) || (0x61 ≤ c && c ≤ 0x7A)

/-- The character that an escape with exactly so many hexadecimal digits stands for. -/
def hexEscape (count : Nat) : Read Nat := do
  let digits ← takeUpTo Text.isHexDigit count
  if digits.length == count then return Text.positional 16 digits else failure

def controlEscape? (c : Nat) : Option Nat :=
  match c with
  | 0x61 => some 0x07
  | 0x62 => some 0x08
  | 0x66 => some 0x0C
  | 0x6E => some 0x0A
  | 0x72 => some 0x0D
  | 0x74 => some 0x09
  | 0x76 => some 0x0B
  | 0x5C => some 0x5C
  | _ => none

def isClassLetter (c : Nat) : Bool := [0x64, 0x44, 0x73, 0x53, 0x77, 0x57].contains c

/-- Does the letter after a backslash stand for a place between characters? -/
def isAnchorLetter (c : Nat) : Bool := [0x41, 0x62, 0x42, 0x5A].contains c

def wideEscape : Read Nat := do
  let value ← hexEscape 8
  if value ≤ 0x10FFFF then return value else failure

/-- A member of a set that was escaped: its character, or nothing for a class. -/
def setEscape (c : Nat) : Read (Option Nat) := do
  match controlEscape? c with
  | some value => return some value
  | none =>
    if isClassLetter c then return none
    else if c == 0x78 then return some (← hexEscape 2)
    else if c == 0x75 then return some (← hexEscape 4)
    else if c == 0x55 then return some (← wideEscape)
    else if Text.isOctalDigit c then
      let more ← takeUpTo Text.isOctalDigit 2
      let value := Text.positional 8 (c :: more)
      if value > 0o377 then failure else return some value
    else if Text.isDecimalDigit c || isAsciiLetter c then failure
    else return some c

/-- The members of a set up to its closing bracket. A bracket right at the start is a member. -/
def readSet (fuel : Nat) (first : Bool) : Read Unit := do
  match fuel with
  | 0 => failure
  | fuel + 1 =>
    match ← next with
    | none => failure
    | some piece =>
      if piece == .plain 0x5D && !first then return ()
      let low ← match piece with
        | .escaped c => setEscape c
        | .plain c => pure (some c)
      if ← accept 0x2D then
        match ← next with
        | none => failure
        | some (.plain 0x5D) => return ()
        | some piece =>
          let high ← match piece with
            | .escaped c => setEscape c
            | .plain c => pure (some c)
          match low, high with
          | some low, some high => if high < low then failure else readSet fuel false
          | _, _ => failure
      else readSet fuel false

/-- What a part of a pattern is, as far as a following quantifier is concerned. -/
inductive Part where
  | anchor
  | repeated
  | other
deriving DecidableEq

/-- The extent of a group that may be referred to. Inside a look-behind only groups from before it
may. -/
def reference (number : Nat) : Read Extent := do
  let p ← get
  match p.groups[number - 1]? with
  | some (some extent) =>
    if number == 0 then failure
    match p.behind with
    | some limit => if number ≥ limit then failure else return extent
    | none => return extent
  | _ => failure

def partEscape (c : Nat) : Read (Part × Extent) := do
  if isAnchorLetter c then return (.anchor, .none)
  else if isClassLetter c || (controlEscape? c).isSome then return (.other, .one)
  else if c == 0x78 then
    let _ ← hexEscape 2
    return (.other, .one)
  else if c == 0x75 then
    let _ ← hexEscape 4
    return (.other, .one)
  else if c == 0x55 then
    let _ ← wideEscape
    return (.other, .one)
  else if c == 0x30 then
    let _ ← takeUpTo Text.isOctalDigit 2
    return (.other, .one)
  else if Text.isDecimalDigit c then
    let second ← takeUpTo Text.isDecimalDigit 1
    let third ←
      if (c :: second).length == 2 && (c :: second).all Text.isOctalDigit then
        takeUpTo Text.isOctalDigit 1
      else pure []
    if third.length == 1 then
      if Text.positional 8 (c :: second ++ third) > 0o377 then failure else return (.other, .one)
    else return (.other, ← reference (Text.positional 10 (c :: second)))
  else if isAsciiLetter c then failure
  else return (.other, .one)

/-- The bounds of a quantifier in braces, after the opening one, or nothing if the brace is a character
of its own. -/
def braceBounds : Read (Option (Nat × Nat)) := do
  let start ← get
  if (← peek) == some (.plain 0x7D) then return none
  let limit := start.rest.length
  let low ← takeUpTo Text.isDecimalDigit limit
  let high ← if ← accept 0x2C then takeUpTo Text.isDecimalDigit limit else pure low
  if ← accept 0x7D then
    let min := Text.positional 10 low
    let max := if high.isEmpty then unlimited else Text.positional 10 high
    if min ≥ unlimited || (!high.isEmpty && max ≥ unlimited) || max < min then failure
    return some (min, max)
  else
    set start
    return none

def quantifier? (c : Nat) : Read (Option (Nat × Nat)) :=
  match c with
  | 0x3F => return some (0, 1)
  | 0x2A => return some (0, unlimited)
  | 0x2B => return some (1, unlimited)
  | _ => braceBounds

/-- Letters of flags up to one of `)`, `-` and `:`. The end of the list is returned with them. -/
def onFlags (fuel : Nat) (letter : Nat) (known : Flags) : Read (Flags × Nat) := do
  match fuel, Flags.ofLetter? letter with
  | fuel + 1, some flag =>
    if flag.locale then failure
    let known := known.union flag
    if flag.alphabets > 0 && known.alphabets > 1 then failure
    match ← next with
    | some (.plain c) =>
      if c == 0x29 || c == 0x2D || c == 0x3A then return (known, c) else onFlags fuel c known
    | _ => failure
  | _, _ => failure

/-- Letters of flags that are turned off, up to the colon. -/
def offFlags (fuel : Nat) (letter : Nat) (known : Flags) : Read Flags := do
  match fuel, Flags.ofLetter? letter with
  | fuel + 1, some flag =>
    if flag.alphabets > 0 then failure
    let known := known.union flag
    match ← next with
    | some (.plain c) => if c == 0x3A then return known else offFlags fuel c known
    | _ => failure
  | _, _ => failure

/-- Flags in a group, from their first character: those turned on and off for a group, or nothing if
they were turned on for the whole pattern. -/
def inlineFlags (first : Nat) : Read (Option (Flags × Flags)) := do
  let limit := (← get).rest.length + 1
  let (on, stop) ← if first == 0x2D then pure ({}, 0x2D) else onFlags limit first {}
  if stop == 0x29 then
    modify fun p => { p with flags := p.flags.union on }
    return none
  if on.template then failure
  let off ←
    if stop == 0x2D then
      match ← next with
      | some (.plain c) => offFlags limit c {}
      | _ => failure
    else pure {}
  if off.template || on.meets off then failure
  return some (on, off)

def openGroup (name : Option Text) : Read Nat := do
  let p ← get
  let number := p.groups.length + 1
  match name with
  | none => set { p with groups := p.groups ++ [none] }
  | some name =>
    if p.names.any (·.1 == name) then failure
    set { p with groups := p.groups ++ [none], names := (name, number) :: p.names }
  return number

def closeGroup (number : Nat) (extent : Extent) : Read Unit :=
  modify fun p => { p with groups := p.groups.set (number - 1) (some extent) }

def conditionGroup (name : Text) : Read Nat := do
  let p ← get
  if isGroupName name then
    match p.names.find? (·.1 == name) with
    | some (_, number) => return number
    | none => failure
  else
    match groupNumber? name with
    | some number =>
      if number == 0 || number ≥ maxGroups then failure
      set { p with conditions := number :: p.conditions }
      return number
    | none => failure

def skipComment : Nat → Read Unit
  | 0 => failure
  | fuel + 1 => do
    match ← next with
    | none => failure
    | some (.plain 0x29) => return ()
    | some _ => skipComment fuel

/-- The rest of a line, in the notation that allows blanks and comments. -/
def skipLine : Nat → Read Unit
  | 0 => return ()
  | fuel + 1 => do
    match ← next with
    | none => return ()
    | some (.plain 0x0A) => return ()
    | some _ => skipLine fuel

def isSkippedBlank (c : Nat) : Bool := c == 0x20 || (0x09 ≤ c && c ≤ 0x0D)

/-- A part as it stands in a sequence, or nothing if what was read is no part of it. -/
abbrev Item := Option (Part × Extent)

mutual

/-- Alternatives, up to a closing bracket or the end. At the outermost level blanks are skipped in an
alternative if the flags set by then say so. -/
def alternatives (fuel : Nat) (verbose outermost : Bool) : Read Extent := do
  match fuel with
  | 0 => failure
  | fuel + 1 =>
    let first ← sequence fuel verbose outermost none Extent.none
    moreAlternatives fuel verbose outermost first

def moreAlternatives (fuel : Nat) (verbose outermost : Bool) (sofar : Extent) : Read Extent := do
  match fuel with
  | 0 => failure
  | fuel + 1 =>
    if ← accept 0x7C then
      let verbose ← if outermost then pure (← get).flags.verbose else pure verbose
      let other ← sequence fuel verbose false none Extent.none
      moreAlternatives fuel verbose outermost (sofar.either other)
    else return sofar

/-- Parts one after the other. `opening` tells whether flags for the whole pattern may come now. -/
def sequence (fuel : Nat) (verbose opening : Bool) (last : Item) (sofar : Extent) :
    Read Extent := do
  match fuel with
  | 0 => failure
  | fuel + 1 =>
    match ← peek with
    | none => return sofar.cut
    | some piece =>
      if piece == .plain 0x7C || piece == .plain 0x29 then return sofar.cut
      let _ ← next
      let limit := (← get).rest.length + 1
      let one (part : Part) (extent : Extent) :=
        sequence fuel verbose opening (some (part, extent)) (sofar.append extent)
      match piece with
      | .escaped c =>
        let (part, extent) ← partEscape c
        one part extent
      | .plain c =>
        if verbose && isSkippedBlank c then sequence fuel verbose opening last sofar
        else if verbose && c == 0x23 then
          skipLine limit
          sequence fuel verbose opening last sofar
        else if c == 0x5B then
          let _ ← accept 0x5E
          readSet limit true
          one .other .one
        else if c == 0x3F || c == 0x2A || c == 0x2B || c == 0x7B then
          match ← quantifier? c with
          | none => one .other .one
          | some (low, high) =>
            match last with
            | some (.other, extent) =>
              unless ← accept 0x3F do
                let _ ← accept 0x2B
              modify fun p => { p with repeats := true }
              let whole := extent.repeated low high
              let before : Extent := ⟨sofar.least - extent.least, sofar.most - extent.most⟩
              sequence fuel verbose opening (some (.repeated, whole)) (before.append whole)
            | _ => failure
        else if c == 0x28 then
          match ← group fuel verbose (opening && last.isNone) with
          | (none, verbose) => sequence fuel verbose opening last sofar
          | (some (part, extent), _) => one part extent
        else if c == 0x5E || c == 0x24 then one .anchor .none
        else one .other .one

/-- A group after its opening bracket. Also returns whether blanks are skipped after it. -/
def group (fuel : Nat) (verbose start : Bool) : Read (Item × Bool) := do
  match fuel with
  | 0 => failure
  | fuel + 1 =>
    let capturing (name : Option Text) : Read (Item × Bool) := do
      let number ← openGroup name
      let extent ← alternatives fuel verbose false
      require 0x29
      closeGroup number extent
      return (some (.other, extent), verbose)
    if ← accept 0x3F then
      match ← next with
      | some (.plain c) =>
        if c == 0x50 then
          if ← accept 0x3C then
            let name ← takeName 0x3E
            if isGroupName name then capturing (some name) else failure
          else if ← accept 0x3D then
            let name ← takeName 0x29
            match (← get).names.find? (·.1 == name) with
            | some (_, number) => return (some (.other, ← reference number), verbose)
            | none => failure
          else failure
        else if c == 0x3A || c == 0x3E then
          let extent ← alternatives fuel verbose false
          require 0x29
          return (some (.other, extent), verbose)
        else if c == 0x23 then
          skipComment ((← get).rest.length + 1)
          return (none, verbose)
        else if c == 0x3D || c == 0x21 then
          let _ ← alternatives fuel verbose false
          require 0x29
          return (some (.other, .none), verbose)
        else if c == 0x3C then
          unless ← accept 0x3D do require 0x21
          let outer := (← get).behind
          if outer.isNone then
            modify fun p => { p with behind := some (p.groups.length + 1) }
          let extent ← alternatives fuel verbose false
          modify fun p => { p with behind := outer }
          require 0x29
          if extent.least != extent.most || extent.least > unlimited then failure
          return (some (.other, .none), verbose)
        else if c == 0x28 then
          let number ← conditionGroup (← takeName 0x29)
          if (← get).behind.isSome then
            let _ ← reference number
          let yes ← sequence fuel verbose false none Extent.none
          let no ← if ← accept 0x7C then sequence fuel verbose false none Extent.none else pure .none
          require 0x29
          return (some (.other, yes.either no), verbose)
        else if c == 0x2D || (Flags.ofLetter? c).isSome then
          match ← inlineFlags c with
          | none => if start then return (none, (← get).flags.verbose) else failure
          | some (on, off) =>
            let extent ← alternatives fuel ((verbose || on.verbose) && !off.verbose) false
            require 0x29
            return (some (.other, extent), verbose)
        else failure
      | _ => failure
    else capturing none

end

/-- A whole pattern. Conditions may name groups that come later, but they must come. -/
def whole (verbose : Bool) : Read Unit := do
  let _ ← alternatives (4 * (← get).rest.length + 8) verbose true
  let p ← get
  if !p.rest.isEmpty || p.conditions.any (· > p.groups.length) then failure
  if (p.flags.ascii && p.flags.unicode) || (p.flags.template && p.repeats) then failure

/-- The regular expression that a text stands for, if it is valid. A pattern is about all characters
unless its flags limit it to ASCII. -/
def compile? (source : Text) (flags : Flags) : Option Pattern := do
  let (_, p) ← (whole flags.verbose).run { rest := source, flags := flags }
  return ⟨source, { p.flags with unicode := p.flags.unicode || !p.flags.ascii }⟩

end ScriptTree.Regex
