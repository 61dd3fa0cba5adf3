import Mathlib.Data.Nat.Digits.Defs
import ScriptTree.Proofs.Scan.Escapes

/-! # Numbers that are written with digits only

A number with the letter of a base has the value of its digits in that base, however many there are. After a zero
alone the digits count in base eight if all of them are octal, and in base ten if not (`numeral_reads`). -/

namespace ScriptTree

/-- The value of digits in a base, the last digit being the least. -/
def Text.valueIn (base : Nat) (ds : Text) : Nat := Nat.ofDigits base (ds.map Text.digitValue).reverse

theorem Text.positional_eq_valueIn (base : Nat) (ds : Text) : positional base ds = valueIn base ds := by
  suffices h : ∀ v, ds.foldl (fun v x => v * base + digitValue x) v = valueIn base ds + base ^ ds.length * v by
    simpa [positional] using h 0
  induction ds with
  | nil => simp [valueIn]
  | cons x ds ih =>
    intro v
    simp only [List.foldl_cons, ih, valueIn, List.map_cons, List.reverse_cons, Nat.ofDigits_append, List.length_reverse,
      List.length_map, List.length_cons, Nat.ofDigits_singleton, Nat.pow_succ]
    ring

theorem Text.valueIn_zero (base : Nat) (ds : Text) : valueIn base (0x30 :: ds) = valueIn base ds := by
  simp [valueIn, Nat.ofDigits_append, digitValue]

namespace Scan

/-- The bases with a letter. -/
inductive Radix where
  | binary
  | octal
  | hex
deriving DecidableEq, Repr

namespace Radix

def base : Radix → Nat
  | binary => 2
  | octal => 8
  | hex => 16

def letters : Radix → List Nat
  | binary => [0x62, 0x42]
  | octal => [0x6F, 0x4F]
  | hex => [0x78, 0x58]

def isDigit : Radix → Nat → Bool
  | binary, x => x == 0x30 || x == 0x31
  | octal, x => Text.isOctalDigit x
  | hex, x => Text.isHexDigit x

/-- Octal numbers tell whether they are written in the old way. -/
def mark : Radix → Option Bool
  | octal => some false
  | _ => none

end Radix

def Stops (x : Nat) : Prop := Text.isIdentifierStart x = false ∧ Text.isDecimalDigit x = false ∧ x ≠ 0x2E

instance (x : Nat) : Decidable (Stops x) := inferInstanceAs (Decidable (_ ∧ _))

/-- A number from one offset to another, with the cursor after it. -/
def IsNumber (start stop value : Nat) (octal : Option Bool) (c : Cursor) (t : Token) (d : Cursor) : Prop :=
  t = ⟨.numeric (.integer value) octal, c.line, c.lineStart, start, stop⟩ ∧ d = { c with index := stop }

def ReadsNumber (st : Settings) (c : Cursor) (stop value : Nat) (octal : Option Bool) : Prop :=
  ∃ t d, Returns numeral st c t d ∧ IsNumber c.index stop value octal c t d

/-- Digits are ahead, and then the end of the text or something with which no number goes on. -/
structure Ahead (st : Settings) (c : Cursor) (ds rest : Text) : Prop where
  bound : c.index ≤ st.source.length
  text : st.source.chars.toList.drop c.index = ds ++ rest
  stops : ∀ x ∈ rest.head?, Stops x

variable {E : Failure → Prop} {st : Settings} {c : Cursor} {ds rest : Text} {n x y start : Nat}

namespace Stops

theorem zero : Stops 0 := by decide

theorem not_letter (h : Stops x) (hy : y ∈ [0x41, 0x42, 0x43, 0x44, 0x45, 0x46, 0x61, 0x62, 0x63, 0x64, 0x65, 0x66]) :
    x ≠ y := by
  have hletters : ∀ y ∈ [0x41, 0x42, 0x43, 0x44, 0x45, 0x46, 0x61, 0x62, 0x63, 0x64, 0x65, 0x66],
      Text.isIdentifierStart y = true := by decide
  rintro rfl
  cases h.1.symm.trans (hletters x hy)

theorem not_digit (h : Stops x) (r : Radix) : r.isDigit x = false := by
  have hx := h.2.1
  cases r with
  | binary =>
    simp only [Radix.isDigit, Bool.or_eq_false_iff, beq_eq_false_iff_ne]
    constructor <;> rintro rfl <;> cases hx
  | octal => exact eq_false_of_ne_true (isOctalDigit_of_isDecimalDigit hx)
  | hex =>
    have hl := h.not_letter (y := x)
    simp only [Radix.isDigit, Text.isHexDigit, hx, Bool.false_or, Bool.or_eq_false_iff, Bool.and_eq_false_iff,
      decide_eq_false_iff_not]
    simp only [List.mem_cons, List.not_mem_nil, or_false, ne_eq, not_true_eq_false, imp_false] at hl
    omega

end Stops

namespace Ahead

theorem tail (h : Ahead st c (x :: ds) rest) : Ahead st { c with index := c.index + 1 } ds rest where
  bound := by
    have hlen := Source.length_of_drop h.text
    simp at hlen ⊢
    omega
  text := Source.drop_succ_of_drop h.text
  stops := h.stops

theorem after (h : Ahead st c ds rest) : Ahead st { c with index := c.index + ds.length } [] rest := by
  induction ds generalizing c with
  | nil => exact h
  | cons x ds ih => simpa [Nat.add_assoc, Nat.add_comm 1] using ih h.tail

/-- No number goes on with the character after the digits, or with the end mark. -/
theorem here {α : Type} {Q : α → Cursor → Prop} {f : Nat → Scan α} (h : Ahead st c [] rest)
    (hf : ∀ x, Stops x → Gives E st c (f x) Q) : Gives E st c (Scan.here >>= f) Q := by
  cases hrest : rest with
  | nil =>
    have hlen : st.source.length - c.index = 0 := by simpa [hrest] using Source.length_of_drop h.text
    have hend : c.index = st.source.length := Nat.le_antisymm h.bound (Nat.le_of_sub_eq_zero hlen)
    exact .known (if_pos (beq_iff_eq.mpr hend)) (hf 0 .zero)
  | cons x t =>
    subst hrest
    exact .known (Source.at?_of_drop h.text) (hf x (h.stops x rfl))

theorem takeWhile {kind : Nat → Bool} (h : Ahead st c ds rest) (hk : ∀ x, Stops x → kind x = false)
    (hd : ∀ x ∈ ds, kind x = true) (hn : ds.length ≤ n) : Gives E st c (Scan.takeWhile kind n) fun r d =>
      r = ds ∧ d = { c with index := c.index + ds.length } := by
  induction ds generalizing c n with
  | nil =>
    cases n with
    | zero => exact .pure ⟨rfl, rfl⟩
    | succ n => exact h.here fun x hx => .neg (by simp [hk x hx]) (.pure ⟨rfl, rfl⟩)
  | cons x ds ih =>
    obtain ⟨n, rfl⟩ := Nat.exists_eq_add_one_of_ne_zero (Nat.ne_of_gt (Nat.lt_of_lt_of_le (Nat.succ_pos _) hn))
    obtain ⟨hx, hd⟩ := List.forall_mem_cons.mp hd
    refine .known (Source.at?_of_drop h.text) <| .pos hx <| .advance <| .bind (ih h.tail hd (Nat.le_of_succ_le_succ hn)) ?_
    rintro _ _ ⟨rfl, rfl⟩
    exact .pure ⟨rfl, by simp [Nat.add_assoc, Nat.add_comm 1]⟩

end Ahead

/-! ## The forms of a number -/

theorem Ahead.length_le (h : Ahead st c ds rest) : ds.length ≤ st.source.length - c.index := by
  rw [Source.length_of_drop h.text, List.length_append]
  exact Nat.le_add_right _ _

theorem hexNumber_reads (h : Ahead st c ds rest) (hd : ∀ x ∈ ds, Text.isHexDigit x = true) (hne : ds ≠ []) :
    Gives E st c (hexNumber start) (IsNumber start (c.index + ds.length) (ds.valueIn 16) none c) := by
  refine .ahead <| .bind (h.takeWhile (fun x hx => hx.not_digit .hex) hd h.length_le) ?_
  rintro _ _ ⟨rfl, rfl⟩
  refine .neg (by simpa using hne) <| .bind (P := fun _ d => d = _) (h.after.here fun x hx => .neg (by simp [hx.1]) (.pure rfl)) ?_
  rintro _ _ rfl
  exact .token ⟨by rw [Text.positional_eq_valueIn], rfl⟩

theorem binaryNumber_reads (h : Ahead st c ds rest) (hd : ∀ x ∈ ds, Radix.binary.isDigit x = true) (hne : ds ≠ []) :
    Gives E st c (binaryNumber start) (IsNumber start (c.index + ds.length) (ds.valueIn 2) none c) := by
  refine .ahead <| .bind (h.takeWhile (fun x hx => hx.not_digit .binary) hd h.length_le) ?_
  rintro _ _ ⟨rfl, rfl⟩
  rw [← Text.positional_eq_valueIn]
  exact .neg (by simpa using hne) <| .atEnd (fun _ => .token ⟨rfl, rfl⟩) fun _ =>
    h.after.here fun x hx => .neg (by simp [hx.1, hx.2.1]) (.token ⟨rfl, rfl⟩)

theorem octalNumber_reads {first : Text} (hy : st.source.at? c.index = some y)
    (h : Ahead st { c with index := c.index + 1 } ds rest) (hd : ∀ x ∈ ds, Text.isOctalDigit x = true)
    (hf : first = if Text.isOctalDigit y then [y] else []) (hne : first ++ ds ≠ []) :
    Gives E st c (octalNumber y start)
      (IsNumber start (c.index + 1 + ds.length) (Text.valueIn 8 (first ++ ds)) (some (Text.isOctalDigit y)) c) := by
  unfold octalNumber
  extract_lets old next
  have hnext : Gives E st c (next first)
      (IsNumber start (c.index + 1 + ds.length) (Text.valueIn 8 (first ++ ds)) (some (Text.isOctalDigit y)) c) := by
    refine .advance <| .ahead <| .bind (h.takeWhile (fun x hx => hx.not_digit .octal) hd h.length_le) ?_
    rintro _ _ ⟨rfl, rfl⟩
    refine .neg (by simpa using hne) <| h.after.here fun x hx => .neg (by simp [hx.1, hx.2.1]) <| .token ?_
    exact ⟨by rw [Text.positional_eq_valueIn], rfl⟩
  refine .ite (fun ho => ?_) fun ho => .first rfl (by simpa [hf, old, ho] using hnext)
  refine .bind (P := fun r d => r = first ∧ d = c) (.known hy (.pure ⟨by simp [hf, old] at ho ⊢; simp [ho], rfl⟩)) ?_
  rintro _ _ ⟨rfl, rfl⟩
  exact hnext

/-- The first character that is no octal digit is a decimal digit unless all digits are octal. -/
theorem head?_dropWhile_octal (hd : ∀ x ∈ ds, Text.isDecimalDigit x = true) (hr : ∀ x ∈ rest.head?, Stops x) :
    ((ds ++ rest).dropWhile Text.isOctalDigit).head?.all (fun x => x != 0x38 && x != 0x39) =
      ds.all Text.isOctalDigit := by
  induction ds with
  | nil =>
    cases rest with
    | nil => rfl
    | cons x t =>
      have hx := hr x rfl
      have h8 : x ≠ 0x38 ∧ x ≠ 0x39 := by constructor <;> rintro rfl <;> cases hx.2.1
      simp [isOctalDigit_of_isDecimalDigit hx.2.1, h8]
  | cons x ds ih =>
    obtain ⟨hx, hd⟩ := List.forall_mem_cons.mp hd
    by_cases ho : Text.isOctalDigit x = true
    · simpa [ho] using ih hd
    · have h8 : x = 0x38 ∨ x = 0x39 := by
        simp only [Text.isDecimalDigit, Text.isOctalDigit, Bool.and_eq_true, decide_eq_true_eq] at hx ho
        omega
      rcases h8 with rfl | rfl <;> rfl

theorem oldOctal_reads (h : Ahead st c ds rest) (hd : ∀ x ∈ ds, Text.isDecimalDigit x = true) (hy : ds.head? = some y) :
    Gives E st c (pure (0x30 == 0x30 && Text.isOctalDigit y) <&&> isOldOctal) fun r d =>
      r = ds.all Text.isOctalDigit ∧ d = c := by
  obtain ⟨ds, rfl⟩ := List.head?_eq_some_iff.mp hy
  unfold andM
  refine .first rfl ?_
  cases ho : Text.isOctalDigit y with
  | false => exact .pure ⟨by simp [ho], rfl⟩
  | true =>
    have hslice : st.source.slice (c.index + 1) st.source.length = ds ++ rest := by
      have hs := Source.slice_of_drop h.tail.text (Nat.le_refl _)
      rwa [List.take_length, ← Source.length_of_drop h.tail.text, Nat.add_sub_cancel' h.tail.bound] at hs
    refine .first rfl <| .index <| .first rfl ?_
    have hall := head?_dropWhile_octal (List.forall_mem_cons.mp hd).2 h.stops
    rw [← hslice] at hall
    dsimp only
    split
    case h_1 hx => exact .pure ⟨by simpa [ho, hx] using hall, rfl⟩
    case h_2 hx => exact .pure ⟨by simpa [ho, hx] using hall, rfl⟩

theorem decimalNumber_reads {whole : Text} (h : Ahead st c [] rest) (hw : whole ≠ []) (hv : whole.valueIn 10 < 2 ^ 53) :
    Gives E st c (decimalNumber start whole) (IsNumber start c.index (whole.valueIn 10) none c) := by
  have hend : Gives E st c endNumber fun _ d => d = c := h.here fun x hx => .neg (by simp [hx.1]) (.pure rfl)
  refine h.here fun x hx => .neg (by simpa using hx.2.2) <| .first rfl <| h.here fun x hx => h.here fun y hy => .neg ?_ <|
    .first rfl <| .bind hend ?_
  · simp [hx.not_letter (y := 0x65) (by decide), hy.not_letter (y := 0x45) (by decide)]
  · rintro _ _ rfl
    refine .neg (by simpa using hw) <| .token ⟨?_, rfl⟩
    simp [Text.positional_eq_valueIn, Number.ofBinary64, Binary64.toInt?_ofDecimal hv]

theorem letter_reads {r : Radix} (h : Ahead st c (0x30 :: x :: ds) rest) (hx : x ∈ r.letters)
    (hd : ∀ x ∈ ds, r.isDigit x = true) (hne : ds ≠ []) :
    Gives E st c numeral (IsNumber c.index (c.index + 2 + ds.length) (ds.valueIn r.base) r.mark c) := by
  have hat := Source.at?_of_drop h.tail.text
  refine .index <| .known (Source.at?_of_drop h.text) <| .pos rfl <| .neg (by decide) <| .advance <| .known hat ?_
  cases r with
  | binary =>
    have hnumber : Gives E st _ (binaryNumber c.index) _ := binaryNumber_reads h.tail.tail hd hne
    obtain rfl | rfl : x = 0x62 ∨ x = 0x42 := by simpa [Radix.letters] using hx
    all_goals exact .neg (by decide) <| .pos (by decide) <| .advance hnumber
  | octal =>
    obtain rfl | rfl : x = 0x6F ∨ x = 0x4F := by simpa [Radix.letters] using hx
    all_goals exact .neg (by decide) <| .neg (by decide) <| .pos (by decide) <| octalNumber_reads hat h.tail.tail hd rfl hne
  | hex =>
    have hnumber : Gives E st _ (hexNumber c.index) _ := hexNumber_reads h.tail.tail hd hne
    obtain rfl | rfl : x = 0x78 ∨ x = 0x58 := by simpa [Radix.letters] using hx
    all_goals exact .pos (by decide) <| .advance hnumber

theorem zero_reads {value : Nat} {octal : Option Bool} (h : Ahead st c (0x30 :: ds) rest)
    (hd : ∀ x ∈ ds, Text.isDecimalDigit x = true) (hne : ds ≠ [])
    (hv : ds.all Text.isOctalDigit = true ∧ value = ds.valueIn 8 ∧ octal = some true ∨
      ds.all Text.isOctalDigit = false ∧ value = ds.valueIn 10 ∧ octal = none ∧ value < 2 ^ 53) :
    Gives E st c numeral (IsNumber c.index (c.index + 1 + ds.length) value octal c) := by
  obtain ⟨y, t, rfl⟩ := List.exists_cons_of_ne_nil hne
  have hat := Source.at?_of_drop h.tail.text
  have hy : 0x30 ≤ y ∧ y ≤ 0x39 := by simpa [Text.isDecimalDigit] using hd y (by simp)
  have hnot {l m : Nat} (hl : 0x39 < l := by decide) (hm : 0x39 < m := by decide) :
      ¬ (0x30 == 0x30 && (y == l || y == m)) = true := by
    simp
    omega
  refine .index <| .known (Source.at?_of_drop h.text) <| .pos rfl <| .neg (by decide) <| .advance <| .known hat <|
    .neg hnot <| .neg hnot <| .neg hnot <| .bind (oldOctal_reads h.tail hd rfl) ?_
  rintro _ _ ⟨rfl, rfl⟩
  rcases hv with ⟨ho, rfl, rfl⟩ | ⟨ho, rfl, rfl, hv⟩
  · have hdigits : ∀ x ∈ y :: t, Text.isOctalDigit x = true := List.all_eq_true.mp ho
    obtain ⟨hfirst, hmore⟩ := List.forall_mem_cons.mp hdigits
    have hy : [y] = if Text.isOctalDigit y then [y] else [] := by rw [hfirst, if_pos rfl]
    have hnumber : Gives E st _ (octalNumber y c.index) _ := octalNumber_reads hat h.tail.tail hmore hy hne
    rw [hfirst, Nat.add_assoc _ 1, Nat.add_comm 1] at hnumber
    exact .pos ho hnumber
  · refine .neg (by simp [ho]) <| .ahead <|
      .bind (h.tail.takeWhile (fun x hx => hx.2.1) hd (Nat.le_succ_of_le h.tail.length_le)) ?_
    rintro _ _ ⟨rfl, rfl⟩
    rw [← Text.valueIn_zero] at hv ⊢
    exact decimalNumber_reads h.tail.after (by simp) hv

/-- A number with the letter of a base has the value of its digits there. After a zero digits count in base eight if
all of them are octal, and else in base ten. -/
theorem numeral_reads (st : Settings) (c : Cursor) (ds rest : Text) (hne : ds ≠ []) (hr : ∀ x ∈ rest.head?, Stops x) :
    (∀ (r : Radix) (letter : Nat), letter ∈ r.letters → (∀ x ∈ ds, r.isDigit x = true) →
      st.source.chars.toList.drop c.index = 0x30 :: letter :: (ds ++ rest) →
      ReadsNumber st c (c.index + 2 + ds.length) (ds.valueIn r.base) r.mark) ∧
    ((∀ x ∈ ds, Text.isDecimalDigit x = true) → st.source.chars.toList.drop c.index = 0x30 :: (ds ++ rest) →
      (ds.all Text.isOctalDigit = true → ReadsNumber st c (c.index + 1 + ds.length) (ds.valueIn 8) (some true)) ∧
      (ds.all Text.isOctalDigit = false → ds.valueIn 10 < 2 ^ 53 →
        ReadsNumber st c (c.index + 1 + ds.length) (ds.valueIn 10) none)) := by
  have hahead {ds : Text} (hne : ds ≠ []) (h : st.source.chars.toList.drop c.index = ds ++ rest) : Ahead st c ds rest := by
    have hlen := Source.length_of_drop h
    have hpos := List.length_pos_iff.mpr hne
    rw [List.length_append] at hlen
    exact ⟨by omega, h, hr⟩
  refine ⟨fun r letter hl hd h => (letter_reads (hahead (by simp) h) hl hd hne).total, fun hd h => ?_⟩
  have hzero := hahead (List.cons_ne_nil 0x30 ds) h
  exact ⟨fun ho => (zero_reads hzero hd hne (.inl ⟨ho, rfl, rfl⟩)).total,
    fun ho hv => (zero_reads hzero hd hne (.inr ⟨ho, rfl, rfl, hv⟩)).total⟩

/-- More digits than a double precision number holds, and after a zero three octal digits or not. -/
theorem numeral_reads_long :
    ReadsNumber { source := .ofText (Text.ofString "0xFFFFFFFFFFFFFFFF;") } {} 18 (2 ^ 64 - 1) none ∧
      ReadsNumber { source := .ofText (Text.ofString "0177") } {} 4 127 (some true) ∧
      ReadsNumber { source := .ofText (Text.ofString "0178") } {} 4 178 none :=
  ⟨(numeral_reads _ _ (.replicate 16 0x46) [0x3B] (by decide) (by decide)).1 .hex 0x78 (by decide) (by decide) rfl,
    ((numeral_reads _ _ [0x31, 0x37, 0x37] [] (by decide) (by decide)).2 (by decide) rfl).1 rfl,
    ((numeral_reads _ _ [0x31, 0x37, 0x38] [] (by decide) (by decide)).2 (by decide) rfl).2 rfl (by decide)⟩

end Scan

end ScriptTree
