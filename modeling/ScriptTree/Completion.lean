import ScriptTree.Program

/-!
Completions for the names that a module exports. A function is completed with a field for each of its
parameters, and any other name with the name alone.
-/

namespace ScriptTree

/-- What is offered for a name: the line that is shown and the text that is inserted. -/
structure Completion where
  suggestion : Text
  completed : Text
deriving DecidableEq, Repr, Inhabited

/-- Completions by exported name. A function that is held by a pattern has no name. -/
abbrev Completions := Table (Option Text) Completion

/-- A name that is offered, with the parameters of the function that it holds. -/
abbrev Offer := Option Text × Option (List Node)

namespace Node

mutual

/-- The text that stands for a parameter. Of an object pattern only the number of properties shows. A
hole in an array pattern has no text. -/
def hint : Node → Except Failure Text
  | ⟨_, .identifier name⟩ => .ok name
  | ⟨_, .assignmentPattern left _⟩ => hint left
  | ⟨_, .arrayPattern elements⟩ => do
    return Text.ofString "[" ++ Text.join ", " (← hintsOfElements elements) ++ Text.ofString "]"
  | ⟨_, .objectPattern properties⟩ =>
    .ok (Text.ofString "\x7b" ++ Text.join ", " (hintsOfProperties properties) ++ Text.ofString "\x7d")
  | ⟨_, .restElement argument⟩ => do return Text.ofString "..." ++ (← hint argument)
  | _ => .ok []

def hintsOfElements : List (Option Node) → Except Failure (List Text)
  | [] => .ok []
  | none :: _ => .error .noSuchPart
  | some n :: rest => do
    let first ← hint n
    return first :: (← hintsOfElements rest)

def hintsOfProperties : List Node → List Text
  | [] => []
  | ⟨_, .property _ _ _ _ _ _⟩ :: rest => [] :: hintsOfProperties rest
  | _ :: rest => hintsOfProperties rest

end

def params? (n : Node) : Option (List Node) :=
  match n.shape with
  | .arrowFunction _ params _ _ => some params
  | .functionExpression _ _ params _ => some params
  | _ => none

end Node

namespace Completion

def fields (hints : List Text) : List Text :=
  hints.zipIdx.map fun (hint, i) =>
    Text.ofString "$\x7b" ++ Text.ofNat (i + 1) ++ Text.ofString ":" ++ hint ++ Text.ofString "\x7d"

/-- The completion of a call. A missing name is written out as such. -/
def ofCall (module : Text) (name : Option Text) (hints : List Text) : Completion :=
  let call (arguments : List Text) : Text :=
    name.getD "None" ++ Text.ofString "(" ++ Text.join ", " arguments ++ Text.ofString ")"
  ⟨call hints ++ Text.ofString "\t" ++ module, call (fields hints)⟩

def ofName (module name : Text) : Completion := ⟨name ++ Text.ofString "\t" ++ module, name⟩

/-- The completion of a name that holds a function with the given parameters, or no function. -/
def ofOffer (module : Text) : Offer → Except Failure Completion
  | (name, some params) => do return ofCall module name (← params.mapM Node.hint)
  | (some name, none) => .ok (ofName module name)
  | (none, none) => .error .mismatch

end Completion

/-- The variables that clauses can export, with the parameters of those that hold a function. -/
abbrev Known := Table Text (Option (List Node))

namespace Node

def declarator? (n : Node) : Option Offer :=
  match n.shape with
  | .variableDeclarator id init => some (id.name?, init.bind params?)
  | _ => none

/-- The variables that a statement declares. -/
def boundVariables (n : Node) : List Offer :=
  match n.shape with
  | .variableDeclaration declarators _ => declarators.filterMap declarator?
  | _ => []

/-- What a declaration offers if it is exported. -/
def declared (n : Node) : List Offer :=
  match n.shape with
  | .functionDeclaration _ id params _ => [(id.bind name?, id.map fun _ => params)]
  | _ => n.boundVariables

/-- What a part of a clause offers: a variable under the name that it is exported by, if it is known by then. -/
def specified? (n : Node) (known : Known) : Option Offer :=
  match n.shape with
  | .exportSpecifier localName exported =>
    (localName.name?.bind fun name => Table.get? name known).map fun params => (exported.name?, params)
  | _ => none

def offers (n : Node) (known : Known) : List Offer :=
  match n.shape with
  | .exportNamedDeclaration exported specifiers _ =>
    exported.elim [] declared ++ specifiers.filterMap fun s => s.specified? known
  | _ => []

end Node

def Known.add (known : Known) (o : Offer) : Known := o.1.elim known fun name => Table.set name o.2 known

def Known.learn (known : Known) (n : Node) : Known := n.boundVariables.foldl add known

/-- What statements offer, in their order. -/
def offersFrom (known : Known) : List Node → List Offer
  | [] => []
  | n :: rest => n.offers known ++ offersFrom (known.learn n) rest

/-- What a module offers. -/
def Program.offers (p : Program) : List Offer := offersFrom [] p.body

/-- Adds the completion of what is offered. -/
def Completions.put (module : Text) (t : Completions) (o : Offer) : Except Failure Completions := do
  return Table.set o.1 (← Completion.ofOffer module o) t

def Program.completions (p : Program) (module : Text) : Except Failure Completions :=
  p.offers.foldlM (Completions.put module) []

end ScriptTree
