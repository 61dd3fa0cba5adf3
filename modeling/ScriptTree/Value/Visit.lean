import ScriptTree.Value.Graph
import ScriptTree.Value.Printer

/-!
Visitors of graphs. Each part of a graph is answered by a routine, which asks for the parts inside it and is
suspended until they are answered. A machine runs the routines with a stack, one slot for the last answer and a
table of the objects that are being visited.
-/

namespace ScriptTree

inductive Routine (σ ρ : Type) where
  | stop
  | fail (e : Failure)
  | read (next : σ → Routine σ ρ)
  | write (notes : σ) (next : Routine σ ρ)
  | ask (part : Graph) (next : ρ → Routine σ ρ)
  | answer (result : ρ)

def Routine.ofExcept {σ ρ : Type} : Except Failure ρ → Routine σ ρ
  | .ok r => .answer r
  | .error e => .fail e

structure Heap where
  objects : Graph.Objects
  className : Nat → String := fun _ => "Object"

def Heap.find? (h : Heap) (id : Nat) : Option (Nat × List (Text × Graph)) := h.objects.find? fun o => o.1 == id

structure Visitor (σ ρ : Type) where
  leaf : Value → Except Failure ρ
  looks : σ → Text → Graph → Bool
  /-- What is noted before the items of a list or record, and taken back after them. -/
  enter : σ → σ := id
  leave : σ → σ := id
  /-- The answer for a list or record, by the notes before and after its items. -/
  combine : σ → σ → Graph → List (Text × ρ) → ρ
  meet : String → σ → σ := fun _ s => s
  object : Nat → ρ → ρ := fun _ r => r
  again : Except Failure ρ
  /-- What is noted while an object of the class is visited, and how it is taken back. -/
  inside : String → Option (σ → σ) := fun _ => none
  restore : σ → σ → σ := fun _ s => s

namespace Visitor

variable {σ ρ : Type} (V : Visitor σ ρ)

/-! ## Routines -/

def items (whole : Graph) (start : σ) : List (Text × Graph) → List (Text × ρ) → Routine σ ρ
  | [], done => .read fun now => .write (V.leave now) (.answer (V.combine start now whole done))
  | (name, item) :: rest, done => .ask item fun r => items whole start rest (done ++ [(name, r)])

def itemsOf (s : σ) : Graph → List (Text × Graph)
  | .list items => items.map fun g => ([], g)
  | .record fields => fields.filter fun f => V.looks s f.1 f.2
  | _ => []

def visitItems (g : Graph) : Routine σ ρ :=
  .read fun start => .write (V.enter start) (V.items g start (V.itemsOf start g) [])

def visitObject (id : Nat) (className : String) (fields : List (Text × Graph)) : Routine σ ρ :=
  .read fun s => .write (V.meet className s) (.ask (.record fields) fun r => .answer (V.object id r))

def visitInside (id : Nat) (change : σ → σ) : Routine σ ρ :=
  .read fun old => .write (change old) (.ask (.ref id) fun _ =>
    .read fun now => .write (V.restore old now) .stop)

/-! ## The machine -/

/-- An entry of the stack. Routines know the object that they visit. -/
inductive Entry (σ ρ : Type) where
  | part (g : Graph)
  | answered (r : ρ)
  | routine (next : Routine σ ρ) (of : Option Nat)
  | waiting (next : ρ → Routine σ ρ) (of : Option Nat)

/-- In the table of open objects it is noted if an object is visited as one. -/
structure Machine (σ ρ : Type) where
  stack : List (Entry σ ρ)
  last : Option ρ := none
  table : Table Nat Bool := []
  notes : σ

def call (className : String) (o : Nat × List (Text × Graph)) (rest : List (Entry σ ρ)) (m : Machine σ ρ) :
    Machine σ ρ :=
  let start (isObject : Bool) (r : Routine σ ρ) : Machine σ ρ :=
    { m with stack := .routine r (some o.1) :: rest, table := Table.set o.1 isObject m.table }
  match Table.get? o.1 m.table, V.inside className with
  | some true, _ => start false (.ofExcept V.again)
  | none, some change => start false (V.visitInside o.1 change)
  | _, _ => start true (V.visitObject o.1 className o.2)

variable (h : Heap)

def step (m : Machine σ ρ) : Except Failure (Machine σ ρ) :=
  match m.stack with
  | [] => .ok m
  | .answered r :: rest => .ok { m with stack := rest, last := some r }
  | .waiting next of :: rest =>
    match m.last with
    | some r => .ok { m with stack := .routine (next r) of :: rest }
    | none => .error .noSuchPart
  | .routine r of :: rest =>
    match r with
    | .stop => .ok { m with stack := rest, table := of.elim m.table fun id => Table.erase id m.table }
    | .fail e => .error e
    | .read next => .ok { m with stack := .routine (next m.notes) of :: rest }
    | .write notes next => .ok { m with stack := .routine next of :: rest, notes }
    | .ask g next => .ok { m with stack := .part g :: .waiting next of :: rest, last := none }
    | .answer r => .ok { m with stack := .answered r :: .routine .stop of :: rest, last := none }
  | .part g :: rest =>
    match g with
    | .leaf v => .ok { m with stack := .routine (.ofExcept (V.leaf v)) none :: rest }
    | .list _ | .record _ => .ok { m with stack := .routine (V.visitItems g) none :: rest }
    | .object id _ | .ref id =>
      match h.find? id with
      | some o => .ok (V.call (h.className id) o rest m)
      | none => .error .noEntry

/-- A step, unless the stack is empty. -/
def round (m : Machine σ ρ) : Except Failure (Machine σ ρ ⊕ Machine σ ρ) :=
  if m.stack.isEmpty then .ok (.inr m) else (V.step h m).map .inl

def run (m : Machine σ ρ) : Except Failure (Machine σ ρ) :=
  have : Nonempty (Machine σ ρ) := ⟨m⟩
  repeatM (V.round h) m

def visit (g : Graph) (notes : σ) : Except Failure (Machine σ ρ) := V.run h { stack := [.part g], notes }

end Visitor

/-! ## Visitors -/

def Graph.isNull : Graph → Bool
  | .leaf v => v.isNull
  | _ => false

def plainVisitor : Visitor Unit Value where
  leaf := .ok
  looks _ name g := !(g.isNull || Value.isHidden name)
  combine _ _ whole done :=
    match whole with
    | .list _ => .list (done.map Prod.snd)
    | _ => .record (Table.ofEntries (done.map fun f => (Value.shownName f.1, f.2)))
  again := .ok (Value.plain .again)

/-- Writes a graph, with notes of the layout and the level. -/
def textVisitor : Visitor (Value.Layout × Nat) Text where
  leaf := Value.print {} 0
  looks s name g := !(g.isNull || Value.isHidden name || s.1.skipped.contains name)
  enter s := (s.1, s.2 + 1)
  leave s := (s.1, s.2 - 1)
  combine start now whole done :=
    let l := { start.1 with newLine := now.1.newLine, space := now.1.space }
    match whole with
    | .list _ => l.bracket start.2 0x5B 0x5D (done.map Prod.snd)
    | _ => l.bracket start.2 0x7B 0x7D (done.map fun f => f.1 ++ Text.ofString ": " ++ f.2)
  again := Value.print {} 0 .again
  inside className := if className == "SourceLocation" then some fun s => (s.1.flat, s.2) else none
  restore old now :=
    ({ now.1 with indent := old.1.indent, newLine := old.1.newLine, space := old.1.space }, now.2)

/-- Walks through a graph and notes the classes of the objects that it meets. -/
def walker : Visitor (List String) Graph where
  leaf v := .ok (.leaf v)
  looks _ name _ := !Value.isHidden name
  combine _ _ whole _ := whole
  meet className met := met ++ [className]
  object id _ := .ref id
  again := .error .cyclic

end ScriptTree
