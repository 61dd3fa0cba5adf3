import ScriptTree.Location
import ScriptTree.Text.Basic
import ScriptTree.Text.Blank
import ScriptTree.Text.Identifier

/-! # Lines of a text

The line and the column of an offset, read off the text before it. A carriage return with a line feed
after it ends one line, not two. The lemmas say how the two numbers change when one more code point, or
such a pair, is added to the text. -/

namespace ScriptTree.Text

variable {t : Text}

/-- Code points that stand inside a line: they are neither line terminators nor the end mark. -/
def Inner (x : Nat) : Prop := x ≠ 0 ∧ isLineTerminator x = false

instance (x : Nat) : Decidable (Inner x) := inferInstanceAs (Decidable (_ ∧ _))

variable {x : Nat}

theorem isLineTerminator_iff : isLineTerminator x = true ↔ x = 0x0A ∨ x = 0x0D ∨ x = 0x2028 ∨ x = 0x2029 := by
  simp [isLineTerminator, or_assoc]

/-- A kind of code points to which neither the end mark nor a line terminator belongs. -/
theorem inner_of (kind : Nat → Bool) (h : kind x = true)
    (hk : ∀ y ∈ [0, 0x0A, 0x0D, 0x2028, 0x2029], kind y = false := by decide) : Inner x := by
  have hx : x ∉ [0, 0x0A, 0x0D, 0x2028, 0x2029] := fun hm => by rw [hk x hm] at h; cases h
  refine ⟨fun h0 => hx (by simp [h0]), ?_⟩
  cases ht : isLineTerminator x with
  | false => rfl
  | true => exact absurd (List.mem_cons_of_mem 0 (by simpa using isLineTerminator_iff.mp ht)) hx

theorem inner_of_isIdentifierPart (h : isIdentifierPart x = true) : Inner x := inner_of _ h (by decide +kernel)

theorem inner_of_isIdentifierStart (h : isIdentifierStart x = true) : Inner x :=
  inner_of_isIdentifierPart (isIdentifierPart_of_isIdentifierStart h)

theorem inner_of_isHexDigit (h : isHexDigit x = true) : Inner x := inner_of _ h

theorem inner_of_isDecimalDigit (h : isDecimalDigit x = true) : Inner x := inner_of _ h

theorem inner_of_isOctalDigit (h : isOctalDigit x = true) : Inner x := inner_of _ h

/-- The number of line ends in a text. -/
def lineBreaks : Text → Nat
  | [] => 0
  | 0x0D :: 0x0A :: rest => lineBreaks rest + 1
  | x :: rest => lineBreaks rest + if isLineTerminator x then 1 else 0

def lastLineLength (t : Text) : Nat := (t.reverse.takeWhile fun x => !isLineTerminator x).length

/-- The line and the column of an offset. Lines count from one, columns from zero. -/
def positionOf (t : Text) (i : Nat) : Position :=
  ⟨lineBreaks (t.take i) + 1, lastLineLength (t.take i)⟩

example : positionOf [0x61, 0x0D, 0x0A, 0x62, 0x0A, 0x63] 4 = ⟨2, 1⟩ := by decide

/-- The offset does not stand inside a pair of carriage return and line feed. -/
def Whole (t : Text) (i : Nat) : Prop := ∀ j, i = j + 1 → t[j]? = some 0x0D → t[i]? ≠ some 0x0A

theorem lineBreaks_cons {rest : Text} (h : x ≠ 0x0D ∨ rest.head? ≠ some 0x0A) :
    lineBreaks (x :: rest) = lineBreaks rest + if isLineTerminator x then 1 else 0 := by
  rw [lineBreaks]
  rintro rest rfl rfl
  simp at h

/-- What is added at the end makes no pair with a code point in front of it. -/
theorem unpaired_append {y : Nat} {rest tail : Text} (hy : ∀ r, y = 0x0D → rest = 0x0A :: r → False)
    (h : rest = [] → y = 0x0D → tail.head? ≠ some 0x0A) :
    y ≠ 0x0D ∨ (rest ++ tail).head? ≠ some 0x0A := by
  by_cases hcr : y = 0x0D
  · right
    cases rest with
    | nil => exact h rfl hcr
    | cons z rest => intro hz; exact hy rest hcr (by simpa using hz)
  · exact .inl hcr

/-- The line ends of two texts in a row, unless a pair stands across them. -/
theorem lineBreaks_append {tail : Text} (h : t.getLast? = some 0x0D → tail.head? ≠ some 0x0A) :
    lineBreaks (t ++ tail) = lineBreaks t + lineBreaks tail := by
  fun_induction lineBreaks t with
  | case1 => simp
  | case2 rest ih =>
    have hr : rest.getLast? = some 0x0D → tail.head? ≠ some 0x0A := by
      intro he; apply h; cases rest <;> simp_all [List.getLast?_cons_cons]
    have hc : lineBreaks (0x0D :: 0x0A :: rest ++ tail) = lineBreaks (rest ++ tail) + 1 := rfl
    rw [hc, ih hr]
    omega
  | case3 y rest hy ih =>
    have hr : rest.getLast? = some 0x0D → tail.head? ≠ some 0x0A := by
      intro he; apply h; cases rest <;> simp_all [List.getLast?_cons_cons]
    have hp : y ≠ 0x0D ∨ (rest ++ tail).head? ≠ some 0x0A := unpaired_append hy (by rintro rfl rfl; exact h rfl)
    rw [List.cons_append, lineBreaks_cons hp, ih hr]
    omega

/-- A code point counts unless it is the second half of a pair. -/
theorem lineBreaks_snoc (h : t.getLast? = some 0x0D → x ≠ 0x0A) :
    lineBreaks (t ++ [x]) = lineBreaks t + if isLineTerminator x then 1 else 0 := by
  rw [lineBreaks_append (by simpa using h), lineBreaks_cons (by simp), show lineBreaks [] = 0 from rfl, Nat.zero_add]

/-- A pair of carriage return and line feed counts once. -/
theorem lineBreaks_pair (t : Text) : lineBreaks (t ++ [0x0D, 0x0A]) = lineBreaks t + 1 :=
  lineBreaks_append (by simp)

theorem lastLineLength_snoc (t : Text) (x : Nat) :
    lastLineLength (t ++ [x]) = if isLineTerminator x then 0 else lastLineLength t + 1 := by
  unfold lastLineLength
  rw [List.reverse_append]
  cases h : isLineTerminator x <;> simp [h]

theorem take_succ_of_getElem? {i x : Nat} (h : t[i]? = some x) : t.take (i + 1) = t.take i ++ [x] := by
  rw [List.take_add_one, h]
  rfl

/-- The text before a whole offset ends with no carriage return that a line feed follows. -/
theorem getLast?_take_of_whole {i x : Nat} (hw : Whole t i) (hx : t[i]? = some x)
    (h : (t.take i).getLast? = some 0x0D) : x ≠ 0x0A := by
  rintro rfl
  cases i with
  | zero => simp at h
  | succ j =>
    refine hw j rfl ?_ hx
    have hj : j < t.length := by
      have := (List.getElem?_eq_some_iff.mp hx).1
      omega
    rw [List.getLast?_eq_getElem?, List.length_take, Nat.min_eq_left (by omega)] at h
    simpa using h

end ScriptTree.Text
