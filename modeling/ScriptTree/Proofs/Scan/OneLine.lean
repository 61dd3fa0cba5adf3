import ScriptTree.Lexeme.Listing
import ScriptTree.Proofs.Scan.Markup
import ScriptTree.Proofs.Scan.Slashes

/-! # Complaints about programs of one line

In a program of one line the scan stays on that line, wherever it goes, and each complaint is about an offset
with its line and its column. The offset may be one behind the end of the program: a backslash takes the end
mark with it. One instance says so for each step (`Neat`). What a step needs to know is that the code points
that it reads end no line (`Plain`), and that the offsets that it returns to are in the program (`Near`). -/

-- a step is one large term for the search for instances
set_option synthInstance.maxSize 200000

namespace ScriptTree

variable {c : Cursor} {α : Type} {st : Settings} (n : Nat)

class Source.OneLine (src : Source) : Prop where
  pos : 0 < src.length
  plain : ∀ x ∈ src.chars, Text.isLineTerminator x = false

/-- The complaint is about an offset of a program of one line, at its line and column. -/
structure SyntaxError.OnLine (src : Source) (e : SyntaxError) : Prop where
  nonneg : 0 ≤ e.index
  le : e.index ≤ src.length + 1
  line : e.line = 1
  column : e.column = e.index + 1

/-- The token is on the only line of the program. -/
structure Token.OnLine (src : Source) (t : Token) : Prop where
  le : t.start ≤ src.length + 1
  line : t.line = 1

namespace Scan

variable {x : Nat} (kind : Nat → Bool)

/-- The scan is on the only line of the program, and so are all complaints. -/
structure OnLine (src : Source) (c : Cursor) : Prop where
  le : c.index ≤ src.length + 1
  line : c.line = 1
  lineStart : c.lineStart = 0
  errors : ∀ e ∈ c.errors, e.OnLine src

/-- The code point ends no line. -/
class Plain (x : Nat) : Prop where
  plain : Text.isLineTerminator x = false

/-- The offset is in the program, or behind its end mark. -/
class Near (src : Source) (i : Nat) : Prop where
  le : i ≤ src.length + 1

/-- The place is on the only line of the program. -/
class AtLine (src : Source) (p : Place) : Prop where
  le : p.index ≤ src.length + 1
  line : p.line = 1
  lineStart : p.lineStart = 0

/-- A step that ends in this way leaves the scan on the line. -/
def Neatly {α : Type} (src : Source) : EStateM.Result Failure Cursor α → Prop
  | .ok _ c => OnLine src c
  | .error e c => OnLine src c ∧ ∀ x, e = .rejected x → x.OnLine src

/-- From an offset at most so far behind the end of the program, the step leaves the scan on the line. -/
class Neat {α : Type} (st : Settings) (b : Nat) (p : Scan α) : Prop where
  neat : ∀ {c}, OnLine st.source c → c.index ≤ st.source.length + b → Neatly st.source (p st c)

/-- The step changes nothing and does not reject the program. -/
class Glances {α : Type} (p : Scan α) : Prop where
  ok : ∀ {st c a d}, p st c = .ok a d → d = c
  error : ∀ {st c e d}, p st c = .error e d → d = c ∧ ∀ x, e ≠ .rejected x

section

variable {β : Type} {b : Nat} {p q : Scan α} {f : α → Scan β} {t : Prop} [Decidable t] (i : Nat)

namespace Glances

theorem of_ok (g : Settings → Cursor → α) (h : ∀ st c, p st c = .ok (g st c) c := by intros; rfl) : Glances p where
  ok hp := by
    rw [h] at hp
    cases hp
    rfl
  error hp := by
    rw [h] at hp
    cases hp

instance (a : α) : Glances (pure a : Scan α) := of_ok fun _ _ => a
instance : Glances (get : Scan Cursor) := of_ok fun _ c => c
instance : Glances (read : Scan Settings) := of_ok fun st _ => st
instance : Glances index := of_ok fun _ c => c.index
instance : Glances ahead := of_ok fun st c => st.source.length - c.index
instance : Glances atEnd := of_ok fun st c => c.index ≥ st.source.length
instance : Glances (since i) := of_ok fun st c => st.source.slice i c.index
instance : Glances (positionBack n) := of_ok fun _ c => ⟨c.line, (c.index : Int) - c.lineStart - n⟩
instance (l : Lexeme) : Glances (token i l) := of_ok fun _ c => ⟨l, c.line, c.lineStart, i, c.index⟩

instance : Glances (charAt i) where
  ok h := (returns_charAt.mp h).2
  error {st c e d} h := by
    change (match st.source.at? i with
      | some x => pure x
      | none => throw .pastEnd : Scan Nat) st c = _ at h
    cases hx : st.source.at? i <;> rw [hx] at h <;> cases h
    exact ⟨rfl, nofun⟩

instance : Glances here where
  ok h := (returns_here.mp h).2
  error {_ c _ _} h := Glances.error (p := charAt c.index) h

instance [hp : Glances p] [hf : ∀ a, Glances (f a)] : Glances (p >>= f) where
  ok {st c a d} h := by
    obtain ⟨x, u, h₁, h⟩ := Returns.bind h
    rw [(hf x).ok h, hp.ok h₁]
  error {st c e d} h := by
    rcases bind_fails h with h | ⟨x, u, h₁, h⟩
    · exact hp.error h
    · rw [← hp.ok h₁]
      exact (hf x).error h

theorem choose (e : Failure) (he : ∀ x, e ≠ .rejected x) (a : α) : Glances (if t then pure a else throw e) := by
  split
  · infer_instance
  · constructor
    · intro _ _ _ _ h
      cases h
    · intro _ _ _ _ h
      cases h
      exact ⟨rfl, he⟩

instance (x : Nat) : Glances (digit kind x) := choose .noEntry nofun _
instance (x : Nat) : Glances (character x) := choose .noSuchCodePoint nofun _

end Glances

namespace Neat

variable (m : Message)

theorem seq [hp : Neat st b p] (hf : ∀ a, Neat st 1 (f a) := by infer_instance) : Neat st b (p >>= f) where
  neat {c} hc hb := by
    have h := hp.neat hc hb
    cases hr : p st c with
    | ok a u =>
      rw [hr] at h
      rw [bind_ok f hr]
      exact (hf a).neat h h.le
    | error e u =>
      rw [hr] at h
      rw [bind_error f hr]
      exact h

instance [Neat st b p] [∀ a, Neat st 1 (f a)] : Neat st b (p >>= f) := seq inferInstance

theorem look [hp : Glances p] (hf : ∀ a, Neat st b (f a) := by infer_instance) : Neat st b (p >>= f) where
  neat {c} hc hb := by
    cases hr : p st c with
    | ok a u =>
      rw [bind_ok f hr, hp.ok hr]
      exact (hf a).neat hc hb
    | error e u =>
      obtain ⟨rfl, he⟩ := hp.error hr
      rw [bind_error f hr]
      exact ⟨hc, fun x hx => absurd hx (he x)⟩

instance (priority := high) [Glances p] [∀ a, Neat st b (f a)] : Neat st b (p >>= f) := look inferInstance

instance (priority := low) [h : Glances p] : Neat st b p where
  neat {c} hc _ := by
    cases hr : p st c with
    | ok a u => rw [h.ok hr]; exact hc
    | error e u =>
      obtain ⟨rfl, he⟩ := h.error hr
      exact ⟨hc, fun x hx => absurd hx (he x)⟩

instance (priority := low) [h : Neat st 1 p] : Neat st 0 p where
  neat hc _ := h.neat hc hc.le

theorem cond (hp : Neat st b p) (hq : Neat st b q) : Neat st b (if t then p else q) := by
  split <;> assumption

instance [hp : Neat st b p] [hq : Neat st b q] : Neat st b (if t then p else q) := cond hp hq

/-- What is done after a code point that ends a line does not matter. -/
theorem plainly [hx : Plain x] (h : Neat st b q) : Neat st b (if Text.isLineTerminator x = true then p else q) := by
  rw [if_neg (by rw [hx.plain]; exact Bool.false_ne_true)]
  exact h

instance (priority := high) [Plain x] [h : Neat st b q] :
    Neat st b (if Text.isLineTerminator x = true then p else q) := plainly h

theorem fails {e : Failure} (he : ∀ x, e ≠ .rejected x) : Neat st b (throw e : Scan α) where
  neat hc _ := ⟨hc, fun x hx => absurd hx (he x)⟩

instance (priority := 10001) (promise : String) : Neat st b ((throw (.broken promise) : Scan α) >>= f) where
  neat hc _ := ⟨hc, nofun⟩
instance : Neat st b (throw .noDigits : Scan α) := fails nofun

instance : Neat st 0 (advance 1) where
  neat hc hb := { hc with le := Nat.succ_le_succ hb }

instance [hi : Near st.source i] : Neat st b (seek i) where
  neat hc _ := { hc with le := hi.le }

instance (p : Place) [hp : AtLine st.source p] : Neat st b (restore p) where
  neat hc _ := { hp with errors := hc.errors }

/-- A change of the open brackets. -/
theorem opens {g : Cursor → List Opener} {f : Unit → Scan β} (hf : Neat st b (f ())) :
    Neat st b (modify (fun c => { c with openers := g c }) >>= f) where
  neat hc hb := hf.neat { hc with } hb

theorem complaint_onLine {d : Text} (hc : OnLine st.source c) :
    SyntaxError.OnLine st.source ⟨c.index, c.line, (c.index : Int) - c.lineStart + 1, d⟩ where
  nonneg := Int.natCast_nonneg _
  le := Int.ofNat_le.mpr hc.le
  line := by rw [hc.line]; rfl
  column := by rw [hc.lineStart]; simp

instance : Neat st b (reject (α := α) m) where
  neat hc _ := ⟨hc, by rintro x ⟨⟩; exact complaint_onLine hc⟩

instance (priority := 10001) : Neat st b (reject m >>= f) where
  neat {c} hc hb := by
    have h := Neat.neat (p := reject (α := α) m) hc hb
    cases hr : reject (α := α) m st c with
    | ok a u => cases hr
    | error e u =>
      rw [hr] at h
      rw [bind_error f hr]
      exact h

theorem tolerates {x : SyntaxError} (hx : x.OnLine st.source) : Neat st b (tolerate x) where
  neat {c} hc _ := by
    show Neatly _ ((if st.tolerant = true then modify fun c => { c with errors := c.errors ++ [x] }
      else throw (.rejected x) : Scan Unit) st c)
    split
    · refine { hc with errors := fun e he => ?_ }
      rcases List.mem_append.mp he with he | he
      · exact hc.errors e he
      · rw [List.mem_singleton.mp he]
        exact hx
    · exact ⟨hc, by rintro y ⟨⟩; exact hx⟩

instance : Neat st b (complain m) where
  neat hc hb := (tolerates (complaint_onLine hc)).neat hc hb

theorem save' {f : Place → Scan β} (hf : ∀ p [AtLine st.source p], Neat st b (f p)) : Neat st b (save >>= f) where
  neat {c} hc hb :=
    have : AtLine st.source c.toPlace := { hc with }
    (hf c.toPlace).neat hc hb

variable {f : Nat → Scan β}

theorem index' (hf : ∀ i [Near st.source i], Neat st b (f i)) : Neat st b (index >>= f) where
  neat {c} hc hb :=
    have : Near st.source c.index := ⟨hc.le⟩
    (hf c.index).neat hc hb

variable [hs : st.source.OneLine]

theorem plain_of_at? {i : Nat} (h : st.source.at? i = some x) : Plain x := by
  unfold Source.at? at h
  split at h
  · cases h
    exact ⟨rfl⟩
  · exact ⟨hs.plain x (Array.mem_of_getElem? h)⟩

theorem neatly_charAt {i : Nat} (hc : OnLine st.source c)
    (hf : ∀ x [Plain x], st.source.at? i = some x → Neatly st.source (f x st c)) :
    Neatly st.source ((charAt i >>= f) st c) := by
  cases hr : charAt i st c with
  | ok x u =>
    obtain ⟨hx, rfl⟩ := returns_charAt.mp hr
    rw [bind_ok f hr]
    have := plain_of_at? hx
    exact hf x hx
  | error e u =>
    obtain ⟨rfl, he⟩ := Glances.error hr
    rw [bind_error f hr]
    exact ⟨hc, fun x hx => absurd hx (he x)⟩

theorem neatly_here (hc : OnLine st.source c)
    (hf : ∀ x [Plain x], st.source.at? c.index = some x → Neatly st.source (f x st c)) :
    Neatly st.source ((here >>= f) st c) :=
  neatly_charAt hc hf

theorem here' (hf : ∀ x [Plain x], Neat st 0 (f x)) : Neat st b (here >>= f) where
  neat hc _ := neatly_here hc fun x _ hx => (hf x).neat hc (Source.le_length_of_at? hx)

instance (priority := 10001) [∀ x, Neat st 0 (f x)] : Neat st b (here >>= f) := here' fun _ => inferInstance

theorem take' (hf : ∀ x [Plain x], Neat st 1 (f x)) : Neat st b (take >>= f) := by
  have h : take >>= f = here >>= fun x => advance 1 >>= fun _ => f x := by
    simp only [take, bind_assoc, pure_bind]
  rw [h]
  exact here' fun x => inferInstance

instance (priority := 10001) [∀ x, Neat st 1 (f x)] : Neat st b (take >>= f) := take' fun _ => inferInstance

omit hs in
/-- Steps that are put together in the usual ways. -/
theorem routine {p : Scan β} (h : Neat st b p := by
    repeat' first
      | infer_instance
      | with_reducible refine Prod.forall.mpr fun _ => ?_
      | with_reducible intro _
      | with_reducible refine plainly ?_
      | with_reducible refine cond ?_ ?_
      | with_reducible refine opens ?_
      | with_reducible refine here' ?_
      | with_reducible refine take' ?_
      | with_reducible refine index' ?_
      | with_reducible refine save' ?_
      | with_reducible refine look ?_
      | with_reducible refine seq ?_
      | split
      | refine here' ?_
      | refine take' ?_
      | refine index' ?_
      | refine look ?_
      | refine seq ?_) : Neat st b p := h

end Neat

end

namespace Neat

variable [st.source.OneLine] (start : Nat)

instance (n code : Nat) : Neat st 1 (hexDigits n code) := by
  induction n generalizing code <;> unfold hexDigits <;> infer_instance

instance (letter : Nat) : Neat st 1 (hexEscape letter) := by unfold hexEscape; infer_instance

instance (n code last : Nat) : Neat st 1 (bracedDigits n code last) := by
  induction n generalizing code last <;> unfold bracedDigits <;> infer_instance

instance : Neat st 1 bracedEscape := .routine

instance (first : Nat) : Neat st 1 (octalEscape first) := .routine

instance (admits : Nat → Bool) : Neat st 1 (nameEscape admits) := .routine

instance : Neat st 1 (escapedNameTail n) := by
  induction n <;> unfold escapedNameTail <;> infer_instance

instance : Neat st 1 escapedName := .routine

instance : Neat st 1 (plainNameEnd n) := by
  induction n <;> unfold plainNameEnd <;> infer_instance

instance : Neat st 0 plainName := .routine

instance : Neat st 1 name := .routine

instance : Neat st 1 (takeWhile kind n) := by
  induction n <;> unfold takeWhile <;> infer_instance

instance : Neat st 1 endNumber := .look
instance : Neat st 1 (hexNumber start) := .look
instance : Neat st 1 (binaryNumber start) := .look
instance (letter start : Nat) : Neat st 0 (octalNumber letter start) := by
  unfold octalNumber; dsimp only; infer_instance

instance : Glances isOldOctal := by
  have (r : Option Nat) : Glances (match r with
      | some c => return c != 0x38 && c != 0x39
      | none => return true : Scan Bool) := by
    split <;> infer_instance
  exact inferInstanceAs (Glances (read >>= fun _ => index >>= fun _ => read >>= fun _ => _))

instance : Neat st 1 exponent := .routine
instance (whole : Text) : Neat st 1 (decimalNumber start whole) := .routine
instance : Neat st 1 numeral := by
  have h (b : Bool) : Glances (pure b <&&> isOldOctal) := by
    cases b
    · exact inferInstanceAs (Glances (pure false))
    · exact inferInstanceAs (Glances isOldOctal)
  unfold numeral
  infer_instance

/-! ## Strings and templates -/

instance : Neat st 1 stringEscape := .routine

instance (quote n : Nat) : Neat st 1 (stringTail quote n) := by
  induction n <;> unfold stringTail <;> exact .routine

instance : Neat st 1 string := .routine

instance : Neat st 1 templateEscape := .routine

instance : Neat st 1 (templateTail n) := by
  induction n <;> unfold templateTail <;> exact .routine

instance : Neat st 1 template := .routine

omit [st.source.OneLine] in
/-- A word that stands in the program is taken. -/
theorem takes_word {w : String} (hc : OnLine st.source c) (h : st.source.hasAt c.index w = true) :
    OnLine st.source { c with index := c.index + w.length } := by
  refine { hc with le := ?_ }
  cases hw : w.length with
  | zero => exact hc.le
  | succ n =>
    have hlt : n < (Text.ofString w).length := by
      simp only [Text.ofString, List.length_map, String.length_toList]
      omega
    exact Nat.succ_le_succ (Source.le_length_of_at? (Source.at?_of_hasAt h (List.getElem?_eq_getElem hlt)))

omit [st.source.OneLine] in
theorem takes_one (hc : OnLine st.source c) (hx : st.source.at? c.index = some x) :
    OnLine st.source { c with index := c.index + 1 } :=
  { hc with le := Nat.succ_le_succ (Source.le_length_of_at? hx) }

omit [st.source.OneLine] in
theorem takes_dots (hc : OnLine st.source c) (hx : st.source.at? c.index = some x) : OnLine st.source
      { c with index := c.index + (if st.source.hasAt c.index "..." = true then "..." else ".").length } := by
  split
  · exact takes_word hc ‹_›
  · exact takes_one hc hx

instance : Neat st 1 punctuator where
  neat {c} hc _ := by
    unfold punctuator
    rw [bind_ok _ (rfl : index st c = .ok c.index c)]
    refine neatly_here hc fun x _ hx => ?_
    split
    · exact takes_one (c := { c with openers := _ }) { hc with } hx
    split
    · exact takes_one (c := { c with openers := _ }) { hc with } hx
    split
    · exact takes_dots hc hx
    · rw [bind_ok _ (rfl : markAt? c.index (singleMarks ++ longMarks) st c =
        .ok ((singleMarks ++ longMarks).find? fun m => st.source.hasAt c.index m) c)]
      cases hm : (singleMarks ++ longMarks).find? fun m => st.source.hasAt c.index m with
      | some mark => exact takes_word hc (List.find?_some (p := fun m => st.source.hasAt c.index m) hm)
      | none => exact Neat.neat (b := 1) (p := reject >>= _) hc hc.le

instance : Neat st 1 next := .routine

instance (inSet : Bool) : Neat st 1 (regexTail n inSet) := by
  induction n generalizing inSet <;> unfold regexTail <;> exact .routine

instance : Neat st 1 regexBody := .routine

instance : Neat st 1 (regexFlags n) := by
  induction n <;> unfold regexFlags <;> exact .routine

instance (t : Text) : Neat st 1 (plainPattern n t) := by
  induction n generalizing t with
  | zero => unfold plainPattern; infer_instance
  | succ n ih =>
    cases t with
    | nil => unfold plainPattern; infer_instance
    | cons c rest =>
      unfold plainPattern
      split
      · dsimp only
        infer_instance
      · infer_instance

instance (pattern flags : Text) : Neat st 1 (checkRegex pattern flags) := by
  refine seq fun p => ?_
  dsimp only
  split <;> infer_instance

instance : Neat st 1 regex := .routine

instance : Neat st 1 (restOfLine n) := by
  induction n <;> unfold restOfLine <;> exact .routine

instance (mark : Nat) : Neat st 1 (lineComment mark) := .routine

instance : Neat st 1 (restOfBlock n) := by
  induction n <;> unfold restOfBlock <;> exact .routine

instance : Neat st 1 blockComment := .look

instance (lineHead : Bool) : Neat st 1 (blanks n lineHead) := by
  induction n generalizing lineHead with
  | zero => unfold blanks; infer_instance
  | succ n ih =>
    refine look fun _ => cond inferInstance ⟨fun {c} hc _ => neatly_here hc fun x _ hx => ?_⟩
    have hb := Source.le_length_of_at? hx
    have hone := takes_one hc hx
    have hstop : Neatly st.source ((pure [] : Scan (List Comment)) st c) := hc
    have hword {w : String} {n : Nat} (h : st.source.hasAt (c.index + 1) w = true) (hn : 1 + w.length = n) :
        OnLine st.source { c with index := c.index + n } := by
      rw [← hn, ← Nat.add_assoc]
      exact takes_word (c := { c with index := c.index + 1 }) hone h
    have hmark {w : String} {n : Nat} {p q : Scan (List Comment)} [Neat st 1 p] (hn : 1 + w.length = n)
        (hq : Neatly st.source (q st c)) :
        Neatly st.source ((sees (c.index + 1) w >>= fun b => if b then advance n >>= fun _ => p else q) st c) := by
      rw [bind_ok _ (rfl : sees (c.index + 1) w st c = .ok (st.source.hasAt (c.index + 1) w) c)]
      split
      · exact Neat.neat (p := p) (hword ‹_› hn) (hword ‹_› hn).le
      · exact hq
    rw [bind_ok _ (rfl : index st c = .ok c.index c)]
    split
    · exact Neat.neat (b := 0) hc hb
    rw [if_neg (by rw [Plain.plain]; exact Bool.false_ne_true)]
    split
    · refine neatly_charAt hc fun d _ hd => ?_
      have htwo := takes_one (c := { c with index := c.index + 1 }) hone hd
      split
      · exact Neat.neat (p := lineComment 2 >>= _) htwo htwo.le
      split
      · exact Neat.neat (p := blockComment >>= _) htwo htwo.le
      · exact hstop
    split
    · exact hmark rfl hstop
    rw [bind_ok _ (rfl : (read : Scan Settings) st c = .ok st c)]
    split
    · exact hmark rfl hstop
    · exact hstop

instance : Neat st 1 comments := .routine

instance (quote n : Nat) (r : Reference) : Neat st 1 (referenceTail quote n r) := by
  induction n generalizing r <;> unfold referenceTail <;> infer_instance

instance (quote : Nat) : Neat st 1 (reference quote) := by
  refine look fun n => seq fun r => ?_
  split
  · infer_instance
  next e he =>
    refine fails ?_
    rintro x rfl
    rcases (value_error he).1 with h | h | h <;> cases h

instance (quote n : Nat) : Neat st 1 (markupString quote n) := by
  induction n <;> unfold markupString <;> infer_instance

instance : Neat st 1 markup where
  neat {c} hc _ := by
    unfold markup
    rw [bind_ok _ (rfl : index st c = .ok c.index c)]
    refine neatly_here hc fun x _ hx => ?_
    have hb := Source.le_length_of_at? hx
    generalize List.find? _ _ = r
    cases r with
    | some mark => exact takes_one hc hx
    | none =>
    split
    · exact Neat.neat (b := 0) hc hb
    split
    · exact takes_dots hc hx
    split
    · exact hc
    split
    · exact Neat.neat (b := 0) hc hb
    · exact Neat.neat (b := 0) hc hb

instance : Neat st 1 (markupTextTail n) := by
  induction n <;> unfold markupTextTail <;> exact .routine

instance : Neat st 1 markupText := .routine

omit [st.source.OneLine] in
/-- A step that goes on after a failure. -/
theorem recovers {α : Type} {p : Scan α} {f : Failure → Scan α} [hp : Neat st 1 p]
    (hf : ∀ e, (∀ x, e = .rejected x → x.OnLine st.source) → Neat st 1 (f e)) : Neat st 1 (tryCatch p f) where
  neat {c} hc hb := by
    have h := hp.neat hc hb
    change Neatly _ (EStateM.tryCatch (p st) (fun e => f e st) c)
    unfold EStateM.tryCatch
    cases hr : p st c with
    | ok a d =>
      rw [hr] at h
      exact h
    | error e d =>
      rw [hr] at h
      exact (hf e h.2).neat h.1 h.1.le

/-- A look ahead. -/
theorem peeks {α β : Type} {p : Scan α} (g : α → β) [Neat st 1 p] : Neat st 1 (do
    let place ← save
    let _ ← comments
    let a ← p
    restore place
    return g a) :=
  save' fun _ _ => inferInstance

instance : Neat st 1 Listing.regexOrNext := save' fun _ _ => recovers fun _ _ => inferInstance

end Neat

end Scan

namespace Scan.Neat

variable [st.source.OneLine] (o : Listing.Options)

instance (h : History) : Neat st 1 (Listing.group o h) := by
  refine look fun _ => seq fun found => look fun _ => cond inferInstance (look fun first => here' fun c _ => ?_)
  refine cond ?_ inferInstance
  split
  · infer_instance
  next e he =>
    have : Neat st 0 (throw e : Scan Bool) := fails fun x hx => by
      rw [hx] at he
      cases History.opensRegex_raises he
    infer_instance

instance (h : History) : Neat st 1 (Listing.groups o n h) := by
  induction n generalizing h with
  | zero => unfold Listing.groups; infer_instance
  | succ n ih =>
    have hg : Neat st 1 (tryCatch (Listing.group o h) fun
        | .rejected e => do
          tolerate e
          pure none
        | e => throw e) := by
      refine recovers fun e he => ?_
      split
      next x =>
        have := tolerates (b := 1) (he x rfl)
        infer_instance
      next hne => exact fails hne
    refine seq fun g => ?_
    split
    · infer_instance
    · infer_instance

end Scan.Neat

namespace Scan

variable {d : Cursor} {a : α} {e : Failure} {p : Scan α} {t : Token}

theorem OnLine.returns (h : Returns p st c a d) (hc : st.source.OneLine → OnLine st.source c)
    (hp : st.source.OneLine → Neat st 1 p := by intro; infer_instance) :
    st.source.OneLine → OnLine st.source d := by
  intro hs
  have hd := (hp hs).neat (hc hs) (hc hs).le
  rw [h] at hd
  exact hd

theorem OnLine.token (hc : st.source.OneLine → OnLine st.source c)
    (hd : st.source.OneLine → OnLine st.source d) (h : t.start = c.index ∧ t.line = d.line) :
    st.source.OneLine → t.OnLine st.source :=
  fun hs => ⟨h.1 ▸ (hc hs).le, h.2.trans (hd hs).line⟩

theorem next_spot (h : Returns next st c t d) : t.start = c.index ∧ t.line = d.line :=
  ⟨(next_spans h).start, (next_spans h).line.1⟩

theorem regex_spot (h : Returns regex st c t d) : t.start = c.index ∧ t.line = d.line :=
  let ht := (regex_takes h).2
  ⟨ht.start, ht.line.1⟩

theorem markupText_spot (h : Returns markupText st c t d) : t.start = c.index ∧ t.line = d.line := by
  obtain ⟨v, u, -, h⟩ := (Returns.index h).ahead.bind
  obtain ⟨rfl, rfl⟩ := returns_token.mp h
  exact ⟨rfl, rfl⟩

theorem OnLine.raises (h : Raises p st c e) (hc : st.source.OneLine → OnLine st.source c)
    (hp : st.source.OneLine → Neat st 1 p := by intro; infer_instance) :
    ∀ x, e = .rejected x → st.source.OneLine → x.OnLine st.source := by
  intro x hx hs
  obtain ⟨u, h⟩ := h
  have hu := (hp hs).neat (hc hs) (hc hs).le
  rw [h] at hu
  exact hu.2 x hx

end Scan

end ScriptTree
