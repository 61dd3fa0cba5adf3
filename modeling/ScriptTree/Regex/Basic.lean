import ScriptTree.Text.Basic

/-!
Regular expressions that have been found valid, with the flags that hold for all of them.
-/

namespace ScriptTree.Regex

structure Flags where
  ignoreCase : Bool := false
  locale : Bool := false
  multiLine : Bool := false
  dotAll : Bool := false
  verbose : Bool := false
  ascii : Bool := false
  unicode : Bool := false
  template : Bool := false
deriving DecidableEq, Repr, Inhabited

namespace Flags

def ofLetter? (c : Nat) : Option Flags :=
  match c with
  | 0x69 => some { ignoreCase := true }
  | 0x4C => some { locale := true }
  | 0x6D => some { multiLine := true }
  | 0x73 => some { dotAll := true }
  | 0x78 => some { verbose := true }
  | 0x61 => some { ascii := true }
  | 0x74 => some { template := true }
  | 0x75 => some { unicode := true }
  | _ => none

def union (a b : Flags) : Flags :=
  { ignoreCase := a.ignoreCase || b.ignoreCase
    locale := a.locale || b.locale
    multiLine := a.multiLine || b.multiLine
    dotAll := a.dotAll || b.dotAll
    verbose := a.verbose || b.verbose
    ascii := a.ascii || b.ascii
    unicode := a.unicode || b.unicode
    template := a.template || b.template }

def meets (a b : Flags) : Bool :=
  (a.ignoreCase && b.ignoreCase) || (a.locale && b.locale) || (a.multiLine && b.multiLine)
    || (a.dotAll && b.dotAll) || (a.verbose && b.verbose) || (a.ascii && b.ascii)
    || (a.unicode && b.unicode) || (a.template && b.template)

def alphabets (f : Flags) : Nat := f.ascii.toNat + f.locale.toNat + f.unicode.toNat

end Flags

structure Pattern where
  source : Text
  flags : Flags
deriving DecidableEq, Repr, Inhabited

end ScriptTree.Regex
