import ScriptTree.Failure
import ScriptTree.Lexeme.Basic

/-!
Whether a slash opens a regular expression, judged by the tokens before it alone. After a closing
parenthesis the word before the last opening one decides, after a closing brace whether a function that
stands in an expression ends there.
-/

namespace ScriptTree

/-- The tokens so far: their words and marks, other tokens without their text, and the places of the last
opening brace and parenthesis. -/
structure History where
  values : Array (Option String) := #[]
  brace : Int := -1
  parenthesis : Int := -1
deriving Inhabited

namespace History

/-- The member at a place. Negative places count from the end. -/
def at? (h : History) (i : Int) : Except Failure (Option String) :=
  let place := if i < 0 then i + h.values.size else i
  if place < 0 then .error .shortHistory
  else match h.values[place.toNat]? with
    | some value => .ok value
    | none => .error .shortHistory

def beforeFunction : List String :=
  ["(", "\x7b", "[", "in", "typeof", "instanceof", "new", "return", "case", "delete", "throw", "void",
   "=", "+=", "-=", "*=", "**=", "/=", "%=", "<<=", ">>=", ">>>=", "&=", "|=", "^=", ",",
   "+", "-", "*", "**", "/", "%", "++", "--", "<<", ">>", ">>>", "&", "|", "^", "!", "~", "&&", "||",
   "?", ":", "===", "==", ">=", "<=", "<", ">", "!=", "!=="]

def afterBrace (h : History) : Except Failure Bool := do
  let isFunction (back : Nat) : Except Failure Bool := do
    if h.values.size < back then return false
    return (← h.at? (h.brace - back)) == some "function"
  let isStatement (back : Nat) (atStart : Bool) : Except Failure Bool := do
    match ← h.at? (h.brace - back) with
    | some word => return !beforeFunction.contains word
    | none => return atStart
  if ← isFunction 3 then isStatement 4 false
  else if ← isFunction 4 then isStatement 5 true
  else return true

def opensRegex (h : History) : Except Failure Bool := do
  match h.values.back? with
  | none => return true
  | some none => return false
  | some (some word) =>
    if word == "this" || word == "]" then return false
    else if word == ")" then
      match ← h.at? (h.parenthesis - 1) with
      | some word => return ["if", "while", "for", "with"].contains word
      | none => return false
    else if word == "\x7d" then h.afterBrace
    else return true

def push (h : History) (l : Lexeme) : History :=
  let here : Int := h.values.size
  match l with
  | .punctuator mark =>
    { values := h.values.push (some mark)
      brace := if mark == "\x7b" then here else h.brace
      parenthesis := if mark == "(" then here else h.parenthesis }
  | .keyword word => { h with values := h.values.push (some word) }
  | _ => { h with values := h.values.push none }

end History

end ScriptTree
