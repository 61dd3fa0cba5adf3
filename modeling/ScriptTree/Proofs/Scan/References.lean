import ScriptTree.Proofs.Scan.Markup
import ScriptTree.Proofs.Scan.Numerals

/-! # Strings in tags

A string in a tag has no escapes, but a code point may be written by its number or by its name. Whichever way
each code point is written, the string is read back as the text, unless a decimal number has more digits than a
number may be written with (`markup_reads_iff`). A reference is read digit by digit, and what it is known to be
by then is in its flags: `referenceTail_closes` follows them up to the semicolon. -/

namespace ScriptTree

theorem Text.entity?_name {name : Text} {x : Nat} (h : entity? name = some x) :
    name ≠ [] ∧ ∀ y ∈ name, (0x30 ≤ y && y != 0x3B) = true := by
  obtain ⟨e, he, -⟩ := Option.map_eq_some_iff.mp h
  have hname : name = ofString e.1 := by simpa [is] using List.find?_some he
  have hall : ∀ e ∈ entities, ofString e.1 ≠ [] ∧ ∀ y ∈ ofString e.1, (0x30 ≤ y && y != 0x3B) = true := by
    decide +kernel
  rw [hname]
  exact hall e (List.mem_of_find?_eq_some he)

namespace Scan

/-- A way to write a code point. -/
inductive Coding where
  | plain (x : Nat)
  | decimal (ds : Text)
  | hex (ds : Text)
  | named (name : Text)
deriving DecidableEq, Repr

namespace Coding

/-- What stands between the ampersand and the semicolon of a reference. -/
def body : Coding → Text
  | plain _ => []
  | decimal ds => 0x23 :: ds
  | hex ds => 0x23 :: 0x78 :: ds
  | named name => name

def text : Coding → Text
  | plain x => [x]
  | w => 0x26 :: (w.body ++ [0x3B])

/-- The code point may be written in this way between such quotes. -/
def Codes (quote : Nat) : Coding → Nat → Prop
  | plain y, x => y = x ∧ x ≠ quote ∧ x ≠ 0x26
  | decimal ds, x => ds ≠ [] ∧ (∀ y ∈ ds, Text.isDecimalDigit y = true) ∧ Text.valueIn 10 ds = x ∧ x ≤ 0x10FFFF
  | hex ds, x => ds ≠ [] ∧ (∀ y ∈ ds, Text.isHexDigit y = true) ∧ Text.valueIn 16 ds = x ∧ x ≤ 0x10FFFF
  | named name, x => Text.entity? name = some x

/-- A decimal number with more digits than are read. -/
def IsLong : Coding → Prop
  | decimal ds => Number.maxDigits < ds.length
  | _ => False

/-- The reference as it is when it has been read. -/
def reference (w : Coding) : Reference :=
  { text := 0x26 :: (w.body ++ [0x3B]), isClosed := true, isDecimal := w matches decimal _, isHex := w matches hex _ }

end Coding

variable {E : Failure → Prop} {st : Settings} {c : Cursor} {quote n x : Nat} {t u rest v : Text} {r : Reference}
  {w : Coding} {ws : List Coding}

theorem codePoint_of_le (hx : x ≤ 0x10FFFF) : Reference.codePoint x = .ok [x] := by
  have hsmall : ¬ x ≥ Nat.pow 2 31 := by
    have : Nat.pow 2 31 = 2147483648 := rfl
    omega
  rw [Reference.codePoint, if_neg hsmall, if_neg (by omega)]

theorem Coding.value_reference (hw : w.Codes quote x) (hp : w.body ≠ []) :
    (w.IsLong ∧ w.reference.value = .error .tooManyDigits) ∨ (¬ w.IsLong ∧ w.reference.value = .ok [x]) := by
  have hname : (w.reference.text.drop 1).dropLast = w.body := List.dropLast_concat
  simp only [Reference.value, hname]
  cases w with
  | plain y => exact absurd rfl hp
  | decimal ds =>
    obtain ⟨hne, -, rfl, hx⟩ := hw
    rw [← Text.positional_eq_valueIn] at hx ⊢
    by_cases hlong : Number.maxDigits < ds.length
    · exact .inl ⟨hlong, by simp [reference, body, hlong, hne]⟩
    · exact .inr ⟨hlong, by simp [reference, body, hlong, hne, codePoint_of_le hx]⟩
  | hex ds =>
    obtain ⟨hne, -, rfl, hx⟩ := hw
    rw [← Text.positional_eq_valueIn] at hx ⊢
    exact .inr ⟨id, by simp [reference, body, hne, codePoint_of_le hx]⟩
  | named name =>
    have hx : Text.entity? name = some x := hw
    have hne : name ≠ [] := (Text.entity?_name hx).1
    exact .inr ⟨id, by simp [reference, body, hne, hx]⟩

/-! ## One reference -/

theorem referenceTail_push {Q : Reference → Cursor → Prop} (hr : r.isValid = true ∧ r.isClosed = false)
    (h : st.source.chars.toList.drop c.index = x :: rest) (hx : x ≠ quote)
    (hq : Gives E st { c with index := c.index + 1 } (referenceTail quote n (r.push x)) Q) :
    Gives E st c (referenceTail quote (n + 1) r) Q := by
  have hlen := Source.length_of_drop h
  rw [List.length_cons] at hlen
  refine .first rfl <| .neg ?_ <| .known (Source.at?_of_drop h) <| .neg (by simpa using hx) <| .advance hq
  simp [hr]
  omega

/-- A reference that stays as it is over code points of a kind is read up to its semicolon. -/
theorem referenceTail_closes {kind : Nat → Bool} (hr : r.isValid = true ∧ r.isClosed = false)
    (hkind : ∀ t y, kind y = true → ({ r with text := r.text ++ t } : Reference).push y =
      { r with text := r.text ++ (t ++ [y]) })
    (hquote : kind quote = false ∧ quote ≠ 0x3B) (hu : ∀ y ∈ u, kind y = true) (hn : u.length < n)
    (h : st.source.chars.toList.drop c.index = u ++ 0x3B :: rest) :
    Gives E st c (referenceTail quote n { r with text := r.text ++ t }) fun a d =>
      a = { r with text := r.text ++ (t ++ (u ++ [0x3B])), isClosed := true } ∧
        d = { c with index := c.index + u.length + 1 } := by
  induction u generalizing c t n with
  | nil =>
    obtain ⟨n, rfl⟩ := Nat.exists_eq_add_one.mpr hn
    refine referenceTail_push hr h hquote.2.symm ?_
    have hclosed : ({ r with text := r.text ++ t } : Reference).push 0x3B =
        { r with text := r.text ++ (t ++ [0x3B]), isClosed := true } := by simp [Reference.push]
    rw [hclosed]
    cases n with
    | zero => exact .pure ⟨rfl, rfl⟩
    | succ n => exact .first rfl <| .pos (by simp) <| .pure ⟨rfl, rfl⟩
  | cons y u ih =>
    obtain ⟨hy, hu⟩ := List.forall_mem_cons.mp hu
    have hyq : y ≠ quote := by rintro rfl; simp [hy] at hquote
    obtain ⟨n, rfl⟩ := Nat.exists_eq_add_one.mpr (Nat.zero_lt_of_lt hn)
    refine referenceTail_push hr h hyq ?_
    rw [hkind t y hy]
    refine (ih (t := t ++ [y]) hu (Nat.lt_of_succ_lt_succ hn) (Source.drop_succ_of_drop h)).mono ?_
    rintro _ _ ⟨rfl, rfl⟩
    simp [Nat.add_assoc, Nat.add_comm 1]

theorem referenceTail_reads (hquote : quote = 0x27 ∨ quote = 0x22) (hw : w.Codes quote x) (hp : w.body ≠ [])
    (hn : w.body.length < n) (h : st.source.chars.toList.drop c.index = w.body ++ 0x3B :: rest) :
    Gives E st c (referenceTail quote n {}) fun a d =>
      a = w.reference ∧ d = { c with index := c.index + w.body.length + 1 } := by
  have hmark : 0x23 ≠ quote ∧ 0x78 ≠ quote ∧ quote ≠ 0x3B := by omega
  cases w with
  | plain y => exact absurd rfl hp
  | decimal ds =>
    obtain ⟨n, rfl⟩ := Nat.exists_eq_add_one.mpr (Nat.zero_lt_of_lt hn)
    refine referenceTail_push ⟨rfl, rfl⟩ h hmark.1 ?_
    have hkind : ∀ t y, Text.isDecimalDigit y = true → (⟨[0x26, 0x23] ++ t, true, false, true, false⟩ : Reference).push y =
        ⟨[0x26, 0x23] ++ (t ++ [y]), true, false, true, false⟩ := by
      intro t y hy
      have hy' : y ≠ 0x3B ∧ y ≠ 0x78 := by constructor <;> (rintro rfl; cases hy)
      simp [Reference.push, hy, hy']
    refine (referenceTail_closes (t := []) (r := ⟨[0x26, 0x23], true, false, true, false⟩) ⟨rfl, rfl⟩ hkind
      ⟨by rcases hquote with rfl | rfl <;> rfl, hmark.2.2⟩ hw.2.1 (Nat.lt_of_succ_lt_succ hn)
      (Source.drop_succ_of_drop h)).mono ?_
    rintro _ _ ⟨rfl, rfl⟩
    simp [Coding.reference, Coding.body, Nat.add_assoc, Nat.add_comm 1]
  | hex ds =>
    obtain ⟨n, rfl⟩ := Nat.exists_eq_add_of_le' (show 2 ≤ n by simp [Coding.body] at hn; omega)
    refine referenceTail_push ⟨rfl, rfl⟩ h hmark.1 <|
      referenceTail_push ⟨rfl, rfl⟩ (Source.drop_succ_of_drop h) hmark.2.1 ?_
    have hkind : ∀ t y, Text.isHexDigit y = true → (⟨[0x26, 0x23, 0x78] ++ t, true, false, false, true⟩ : Reference).push y =
        ⟨[0x26, 0x23, 0x78] ++ (t ++ [y]), true, false, false, true⟩ := by
      intro t y hy
      have hy' : y ≠ 0x3B := by rintro rfl; cases hy
      simp [Reference.push, hy, hy']
    refine (referenceTail_closes (t := []) (r := ⟨[0x26, 0x23, 0x78], true, false, false, true⟩) ⟨rfl, rfl⟩ hkind
      ⟨by rcases hquote with rfl | rfl <;> rfl, hmark.2.2⟩ hw.2.1 (by simp [Coding.body] at hn; omega)
      (Source.drop_succ_of_drop (Source.drop_succ_of_drop h))).mono ?_
    rintro _ _ ⟨rfl, rfl⟩
    simp [Coding.reference, Coding.body, Nat.add_assoc, Nat.add_comm 2]
  | named name =>
    have hkind : ∀ t y, (0x30 ≤ y && y != 0x3B) = true → (⟨[0x26] ++ t, true, false, false, false⟩ : Reference).push y =
        ⟨[0x26] ++ (t ++ [y]), true, false, false, false⟩ := by
      intro t y hy
      simp only [Bool.and_eq_true, decide_eq_true_eq, bne_iff_ne] at hy
      simp [Reference.push, hy.2, show y ≠ 0x23 by omega]
    refine (referenceTail_closes (t := []) (r := {}) ⟨rfl, rfl⟩ hkind
      ⟨by rcases hquote with rfl | rfl <;> rfl, hmark.2.2⟩ (Text.entity?_name hw).2 hn h).mono ?_
    rintro _ _ ⟨rfl, rfl⟩
    simp [Coding.reference, Coding.body]

theorem reference_reads (hquote : quote = 0x27 ∨ quote = 0x22) (hw : w.Codes quote x) (hp : w.body ≠ [])
    (hE : w.IsLong → E .tooManyDigits) (h : st.source.chars.toList.drop c.index = w.body ++ 0x3B :: rest) :
    Gives E st c (reference quote) fun a d =>
      a = [x] ∧ ¬ w.IsLong ∧ d = { c with index := c.index + w.body.length + 1 } := by
  have hn : w.body.length < st.source.length - c.index := by
    rw [Source.length_of_drop h]
    simp
  refine .ahead <| .bind (referenceTail_reads hquote hw hp hn h) ?_
  rintro _ _ ⟨rfl, rfl⟩
  rcases Coding.value_reference hw hp with ⟨hl, hv⟩ | ⟨hl, hv⟩
  · simp only [hv]
    exact .throw (hE hl)
  · simp only [hv]
    exact .pure ⟨rfl, hl, rfl⟩

/-! ## A string -/

theorem Coding.body_ne (hw : w.Codes quote x) (hp : ∀ y, w ≠ plain y) :
    w.body ≠ [] ∧ w.text = 0x26 :: (w.body ++ [0x3B]) := by
  cases w with
  | plain y => exact absurd rfl (hp y)
  | decimal ds => exact ⟨List.cons_ne_nil _ _, rfl⟩
  | hex ds => exact ⟨List.cons_ne_nil _ _, rfl⟩
  | named name => exact ⟨(Text.entity?_name hw).1, rfl⟩

theorem markupString_reads (hquote : quote = 0x27 ∨ quote = 0x22) (hw : List.Forall₂ (Coding.Codes quote) ws v)
    (hE : ∀ w ∈ ws, w.IsLong → E .tooManyDigits) (hn : ws.length < n)
    (h : st.source.chars.toList.drop c.index = ws.flatMap Coding.text ++ quote :: rest) :
    Gives E st c (markupString quote n) fun a d =>
      a = v ∧ (∀ w ∈ ws, ¬ w.IsLong) ∧ d = { c with index := c.index + (ws.flatMap Coding.text).length + 1 } := by
  induction hw generalizing c n with
  | nil =>
    obtain ⟨n, rfl⟩ := Nat.exists_eq_add_one.mpr hn
    exact .ongoing h <| .taken (Source.at?_of_drop h) <| .pos (beq_self_eq_true _) <| .pure ⟨rfl, by simp, rfl⟩
  | @cons w x ws v hw _ ih =>
    obtain ⟨n, rfl⟩ := Nat.exists_eq_add_one.mpr (Nat.zero_lt_of_lt hn)
    obtain ⟨hlong, hE⟩ := List.forall_mem_cons.mp hE
    have hstep : ¬ w.IsLong → Gives E st { c with index := c.index + w.text.length }
        (markupString quote n >>= fun a => pure (x :: a)) fun a d =>
          a = x :: v ∧ (∀ w' ∈ w :: ws, ¬ w'.IsLong) ∧
            d = { c with index := c.index + ((w :: ws).flatMap Coding.text).length + 1 } := by
      intro hw
      refine .bind (ih hE (Nat.lt_of_succ_lt_succ hn) ?_) ?_
      · rw [List.flatMap_cons, List.append_assoc] at h
        rw [← List.drop_drop, h, List.drop_left]
      · rintro _ _ ⟨rfl, hws, rfl⟩
        exact .pure ⟨rfl, List.forall_mem_cons.mpr ⟨hw, hws⟩, by simp [Nat.add_assoc]⟩
    by_cases hp : ∀ y, w ≠ .plain y
    · obtain ⟨hne, htext⟩ := Coding.body_ne hw hp
      rw [List.flatMap_cons, htext, List.append_assoc, List.cons_append, List.append_assoc] at h
      refine .ongoing h <| .taken (Source.at?_of_drop h) <| .neg (by simp; omega) <| .pos rfl <|
        .bind (reference_reads hquote hw hne hlong (Source.drop_succ_of_drop h)) ?_
      rintro _ _ ⟨rfl, hl, rfl⟩
      have hlen : c.index + 1 + w.body.length + 1 = c.index + w.text.length := by
        rw [htext]
        simp
        omega
      rw [hlen]
      exact hstep hl
    · obtain ⟨y, rfl⟩ : ∃ y, w = .plain y := by simpa using hp
      obtain ⟨rfl, hq, hamp⟩ := hw
      exact .ongoing h <| .taken (Source.at?_of_drop h) <| .neg (by simpa using hq) <| .neg (by simpa using hamp) <|
        hstep id

theorem length_le_length_codings (ws : List Coding) : ws.length ≤ (ws.flatMap Coding.text).length := by
  induction ws with
  | nil => exact Nat.le_refl _
  | cons w ws ih =>
    have hw : 1 ≤ w.text.length := by cases w <;> simp [Coding.text]
    simp only [List.flatMap_cons, List.length_append, List.length_cons]
    omega

theorem markup_string_gives (hquote : quote = 0x27 ∨ quote = 0x22) (hw : List.Forall₂ (Coding.Codes quote) ws v)
    (h : st.source.chars.toList.drop c.index = quote :: (ws.flatMap Coding.text ++ quote :: rest)) :
    Gives (fun e => e = .tooManyDigits ∧ ∃ w ∈ ws, w.IsLong) st c markup fun t d =>
      t = ⟨.string v false, c.line, c.lineStart, c.index, d.index⟩ ∧ (∀ w ∈ ws, ¬ w.IsLong) ∧
        d = { c with index := c.index + (ws.flatMap Coding.text).length + 2 } := by
  have hmarks : (["<", ">", "/", ":", "=", "\x7b", "\x7d"].find? fun m => Text.ofString m == [quote]) = none := by
    rcases hquote with rfl | rfl <;> decide
  have h' := Source.drop_succ_of_drop h
  have hfuel : ws.length < st.source.length - (c.index + 1) := by
    have := length_le_length_codings ws
    rw [Source.length_of_drop h', List.length_append, List.length_cons]
    omega
  refine .index <| .known (Source.at?_of_drop h) ?_
  simp only [hmarks]
  refine .pos (by simpa using hquote) <| .advance <| .ahead <|
    .bind (markupString_reads hquote hw (fun w hw hl => ⟨rfl, w, hw, hl⟩) hfuel h') ?_
  rintro _ _ ⟨rfl, hl, rfl⟩
  exact .token ⟨rfl, hl, by simp; omega⟩

/-- A string in a tag is read as the text that is written in it, up to its closing quote, if and only if no decimal
number has too many digits. If one has, the scan fails on it. -/
theorem markup_reads_iff (st : Settings) (c : Cursor) (quote : Nat) (ws : List Coding) (v rest : Text)
    (hquote : quote = 0x27 ∨ quote = 0x22) (hw : List.Forall₂ (Coding.Codes quote) ws v)
    (h : st.source.chars.toList.drop c.index = quote :: (ws.flatMap Coding.text ++ quote :: rest)) :
    (Returns markup st c
        ⟨.string v false, c.line, c.lineStart, c.index, c.index + (ws.flatMap Coding.text).length + 2⟩
        { c with index := c.index + (ws.flatMap Coding.text).length + 2 } ↔ ∀ w ∈ ws, ¬ w.IsLong) ∧
      ((∃ w ∈ ws, w.IsLong) → Raises markup st c .tooManyDigits) := by
  have hg := markup_string_gives hquote hw h
  rcases hg.ends with ⟨_, _, hr, rfl, hshort, rfl⟩ | ⟨_, hr, rfl, w, hw, hlong⟩
  · refine ⟨⟨fun _ => hshort, fun _ => hr⟩, ?_⟩
    rintro ⟨w, hw, hlong⟩
    exact absurd hlong (hshort w hw)
  · exact ⟨⟨fun hr' => (hg.returns hr').2.1, fun hshort => absurd hlong (hshort w hw)⟩, fun _ => hr⟩

/-- The same letter as itself, by number and with zeros before the number, then a quote by its name. -/
theorem markup_reads_iff_mixed :
    let st : Settings := { source := .ofText (Text.ofString "<a b='A&#065;&#x00041;&quot;&apos;'/>") }
    Returns markup st { index := 5, line := 1 } ⟨.string [0x41, 0x41, 0x41, 0x22, 0x27] false, 1, 0, 5, 35⟩
      { index := 35, line := 1 } := by
  intro st
  have hw : List.Forall₂ (Coding.Codes 0x27) [.plain 0x41, .decimal [0x30, 0x36, 0x35],
      .hex [0x30, 0x30, 0x30, 0x34, 0x31], .named (Text.ofString "quot"), .named (Text.ofString "apos")]
      [0x41, 0x41, 0x41, 0x22, 0x27] :=
    .cons ⟨rfl, by decide, by decide⟩ <| .cons ⟨by decide, by decide, by decide, by decide⟩ <|
      .cons ⟨by decide, by decide, by decide, by decide⟩ <| .cons rfl <| .cons rfl .nil
  refine (markup_reads_iff st { index := 5, line := 1 } 0x27 _ _ (Text.ofString "/>") (.inl rfl) hw rfl).1.mpr ?_
  simp [Coding.IsLong, Number.maxDigits]

theorem valueIn_replicate (n : Nat) (ds : Text) : Text.valueIn 10 (List.replicate n 0x30 ++ ds) = Text.valueIn 10 ds := by
  induction n with
  | zero => rfl
  | succ n ih => rw [List.replicate_succ, List.cons_append, Text.valueIn_zero, ih]

/-- Zeros before a decimal number count as digits. -/
theorem markup_fails_on_zeros : ∃ (st : Settings) (c : Cursor) (ds v rest : Text),
    List.Forall₂ (Coding.Codes 0x22) [.decimal ds] v ∧
      st.source.chars.toList.drop c.index = 0x22 :: ((Coding.decimal ds).text ++ 0x22 :: rest) ∧
      Raises markup st c .tooManyDigits := by
  obtain ⟨n, hn⟩ : ∃ n, Number.maxDigits < n := ⟨4400, by decide⟩
  let ds : Text := List.replicate n 0x30 ++ [0x36, 0x35]
  have hw : List.Forall₂ (Coding.Codes 0x22) [.decimal ds] [0x41] := by
    refine .cons ⟨by simp [ds], ?_, valueIn_replicate _ _, by decide⟩ .nil
    simp only [ds, List.mem_append, List.mem_replicate]
    rintro y (⟨-, rfl⟩ | hy)
    · rfl
    · revert y
      decide
  let st : Settings := { source := .ofText (0x22 :: ((Coding.decimal ds).text ++ [0x22])) }
  have h : st.source.chars.toList.drop 0 = 0x22 :: ((Coding.decimal ds).text ++ [0x22]) := rfl
  rcases (markup_string_gives (c := {}) (.inr rfl) hw (by simpa using h)).ends with ⟨_, _, -, -, hshort, -⟩ | ⟨_, hr, rfl, -⟩
  · have hlong : Coding.IsLong (.decimal ds) := by
      simp only [Coding.IsLong, ds, List.length_append, List.length_replicate]
      omega
    exact absurd hlong (hshort _ (by simp))
  · exact ⟨st, {}, ds, _, [], hw, h, hr⟩

end Scan

end ScriptTree
