import ScriptTree.Lexeme.Markup
import ScriptTree.Proofs.Scan.Returns

/-! # What scans are built from

A scan asks for its place and the source, moves, opens and closes brackets, and complains. All of its steps but
the choice of the next token, which looks at the open brackets, are sequences of these (`Built`). So what holds of
these steps and goes on to sequences holds of all scans. -/

-- a scan is one large term for the search for instances
set_option synthInstance.maxSize 200000

namespace ScriptTree.Scan

/-- A step that is made from the ways to look at the source and to move in it. It opens and closes brackets, and
complains, only where this is allowed. -/
class inductive Made (o t : Bool) : {α : Type} → Scan α → Prop
  | returns {α : Type} (a : α) : Made o t (pure a)
  | fails {α : Type} (e : Failure) : Made o t (throw e : Scan α)
  | sequence {α β : Type} {p : Scan α} {f : α → Scan β} : Made o t p → (∀ a, Made o t (f a)) → Made o t (p >>= f)
  /-- Of the settings only the source and the goal of the program are read. -/
  | reads {α : Type} {f : Settings → Scan α} :
    (∀ {st st' : Settings}, st'.source = st.source → st'.isModule = st.isModule → f st' = f st) →
      (∀ st, Made o t (f st)) → Made o t (read >>= f)
  | asks {α : Type} {p : Scan α} (q : Source → Place → α)
    (h : ∀ st c, p st c = .ok (q st.source c.toPlace) c := by intros; rfl) : Made o t p
  | moves (f : Place → Place) : Made o t (modify fun c => { c with toPlace := f c.toPlace })
  | opens (f : List Opener → List Opener) (h : o = true) : Made o t (modify fun c => { c with openers := f c.openers })
  | tolerates (e : SyntaxError) (h : t = true) : Made o t (tolerate e)

abbrev Built {α : Type} (p : Scan α) : Prop := Made true true p

namespace Made

variable {b : Prop} {α β : Type} {o t : Bool} (n i start : Nat) (kind : Nat → Bool)

instance (a : α) : Made o t (pure a) := returns a
instance (e : Failure) : Made o t (throw e : Scan α) := fails e
instance (f : List Opener → List Opener) : Built (modify fun c => { c with openers := f c.openers } : Scan Unit) :=
  opens f rfl
instance (e : SyntaxError) : Made o true (tolerate e) := tolerates e rfl
instance {p : Scan α} {f : α → Scan β} [hp : Made o t p] [hf : ∀ a, Made o t (f a)] : Made o t (p >>= f) := sequence hp hf

/-- The rest of a step may depend on a case split that the search for instances does not make. -/
theorem andThen {p : Scan α} {f : α → Scan β} [hp : Made o t p] (hf : ∀ a, Made o t (f a) := by infer_instance) :
    Made o t (p >>= f) := sequence hp hf

theorem choose [Decidable b] {p q : Scan α} (hp : Made o t p) (hq : Made o t q) : Made o t (if b then p else q) := by
  split
  · exact hp
  · exact hq

instance [Decidable b] {p q : Scan α} [hp : Made o t p] [hq : Made o t q] : Made o t (if b then p else q) :=
  choose hp hq

/-- Steps that are put together in the usual ways. -/
theorem routine {p : Scan α} (h : Made o t p := by
    repeat' first
      | infer_instance
      | with_reducible refine Prod.forall.mpr fun _ => ?_
      | with_reducible intro _
      | with_reducible refine choose ?_ ?_
      | with_reducible refine andThen ?_
      | split
      | refine andThen ?_) : Made o t p := h

instance : Made o t index := asks fun _ p => p.index
instance : Made o t save := asks fun _ p => p
instance : Made o t atEnd := asks fun s p => decide (p.index ≥ s.length)
instance : Made o t ahead := asks fun s p => s.length - p.index
instance (word : String) : Built (sees i word) := asks fun s _ => s.hasAt i word
instance : Built (since i) := asks fun s p => s.slice i p.index
instance (l : Lexeme) : Made o t (token i l) := asks fun _ p => ⟨l, p.line, p.lineStart, i, p.index⟩
instance : Built (positionBack n) := asks fun _ p => ⟨p.line, (p.index : Int) - p.lineStart - n⟩
instance (w : Text) : Made o t (complaint w) :=
  asks fun _ p => ⟨p.index, p.line, (p.index : Int) - p.lineStart + 1, w⟩
instance : Made o t (seek i) := moves fun p => { p with index := i }
instance : Made o t (advance n) := moves fun p => { p with index := p.index + n }
instance (p : Place) : Built (restore p) := moves fun _ => p

instance : Made o t (charAt i) := by
  refine reads (fun h _ => by rw [h]) fun st => ?_
  split <;> infer_instance

instance : Made o t here := .andThen
instance : Made o t take := .andThen

instance (t : Nat) : Built (newLine t) := by
  have : Built (modify fun c => { c with line := c.line + 1, lineStart := c.index } : Scan Unit) :=
    moves fun p => { p with line := p.line + 1, lineStart := p.index }
  unfold newLine
  infer_instance

instance : Built (takeWhile kind n) := by
  induction n <;> unfold takeWhile <;> infer_instance

instance (m : Message) : Made o t (reject m : Scan α) := .andThen
instance (m : Message) : Made o true (complain m) := .routine

instance : Built (restOfLine n) := by
  induction n <;> unfold restOfLine <;> infer_instance

instance (mark : Nat) : Built (lineComment mark) := .andThen

instance : Built (restOfBlock n) := by
  induction n <;> unfold restOfBlock <;> infer_instance

instance : Built blockComment := .andThen

instance (lineHead : Bool) : Built (blanks n lineHead) := by
  induction n generalizing lineHead with
  | zero => unfold blanks; infer_instance
  | succ n ih =>
    refine andThen fun _ => choose inferInstance (andThen fun c => andThen fun i => ?_)
    refine choose inferInstance (choose inferInstance (choose inferInstance (choose inferInstance ?_)))
    -- only the last choice looks at the settings
    exact reads (fun _ h => by rw [h]) fun _ => inferInstance

/-! ## Names -/

instance (x : Nat) : Made o t (digit kind x) := by unfold digit; infer_instance
instance (x : Nat) : Made o t (character x) := by unfold character; infer_instance

instance (n code : Nat) : Made o t (hexDigits n code) := by
  induction n generalizing code <;> unfold hexDigits <;> infer_instance

instance (letter : Nat) : Made o t (hexEscape letter) := by unfold hexEscape; infer_instance

instance (n code last : Nat) : Built (bracedDigits n code last) := by
  induction n generalizing code last <;> unfold bracedDigits <;> infer_instance

instance : Built bracedEscape := .andThen
instance (first : Nat) : Built (octalEscape first) := .routine

instance (admits : Nat → Bool) : Built (nameEscape admits) := .routine

instance : Built (escapedNameTail n) := by
  induction n <;> unfold escapedNameTail <;> infer_instance

instance : Built escapedName := .andThen

instance : Built (plainNameEnd n) := by
  induction n <;> unfold plainNameEnd <;> infer_instance

instance : Built plainName := .andThen
instance : Built name := .routine

instance : Built endNumber := .andThen
instance : Built (hexNumber start) := .andThen
instance : Built (binaryNumber start) := .andThen
instance (letter start : Nat) : Built (octalNumber letter start) := by unfold octalNumber; infer_instance

instance : Built isOldOctal :=
  reads (fun h _ => by rw [h]) fun _ => andThen fun _ => reads (fun h _ => by rw [h]) fun _ => by
    dsimp only
    split <;> infer_instance

instance : Built exponent := .andThen
instance (whole : Text) : Built (decimalNumber start whole) := .andThen

instance : Built numeral := by
  have hoctal (b : Bool) : Built (pure b <&&> isOldOctal) := by
    cases b with
    | false => exact inferInstanceAs (Built (pure false))
    | true => exact inferInstanceAs (Built isOldOctal)
  unfold numeral
  infer_instance

instance (marks : List String) : Built (markAt? i marks) :=
  asks fun s _ => marks.find? fun m => s.hasAt i m

instance : Built punctuator := .routine

instance : Built stringEscape := .routine

instance (quote n : Nat) : Built (stringTail quote n) := by
  induction n <;> unfold stringTail <;> infer_instance

instance : Built string := .routine

instance : Built templateEscape := .routine

instance : Built (templateTail n) := by
  induction n <;> unfold templateTail <;> infer_instance

instance : Built template := by
  refine andThen fun start => andThen fun c => andThen fun _ => andThen fun n => andThen fun found => ?_
  split
  · infer_instance
  · extract_lets rest
    have hrest (u : Unit) : Built (rest u) := andThen fun _ => reads (fun h _ => by rw [h]) fun _ => inferInstance
    clear_value rest
    infer_instance

instance (inSet : Bool) : Made o t (regexTail n inSet) := by
  induction n generalizing inSet <;> unfold regexTail <;> infer_instance

instance : Made o t regexBody := .andThen

instance : Made o true (regexFlags n) := by
  induction n <;> unfold regexFlags <;> exact .routine

instance (t : Text) : Made o true (plainPattern n t) := by
  induction n generalizing t with
  | zero => unfold plainPattern; infer_instance
  | succ n ih =>
    cases t with
    | nil => unfold plainPattern; infer_instance
    | cons c t =>
      unfold plainPattern
      split <;> infer_instance

instance (pattern flags : Text) : Made o true (checkRegex pattern flags) := by
  refine andThen fun plain => ?_
  dsimp only
  split <;> infer_instance

instance : Made o true regex := .routine

instance (quote n : Nat) (r : Reference) : Built (referenceTail quote n r) := by
  induction n generalizing r <;> unfold referenceTail <;> infer_instance

instance (quote : Nat) : Built (reference quote) := .routine

instance (quote n : Nat) : Built (markupString quote n) := by
  induction n <;> unfold markupString <;> infer_instance

instance : Built (markupTextTail n) := by
  induction n <;> unfold markupTextTail <;> infer_instance

instance : Built markupText := .andThen

end Made

end ScriptTree.Scan
