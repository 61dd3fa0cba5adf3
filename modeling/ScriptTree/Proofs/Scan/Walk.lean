import ScriptTree.Proofs.Scan.Returns
import ScriptTree.Proofs.Text.Lines

/-! # How a cursor moves

A scan reads its source code point by code point and counts lines as it goes. `Walk` is the motion of a
place that does exactly this; from the start of a program it reaches only places whose line and column are
those of their offset (`Walk.position`). `Glides` is a walk of a cursor that leaves the open brackets
alone, which is what all parts of a token do. -/

namespace ScriptTree

variable {t : Text} {w : String}

namespace Source

variable {s : Source} {i j x : Nat}

theorem length_ofText (t : Text) : (ofText t).length = t.length := by
  simp [ofText, length]

theorem getElem?_ofText (t : Text) (i : Nat) : (ofText t).chars[i]? = t[i]? := by
  simp [ofText]

theorem getElem?_of_at? (h : s.at? i = some x) (hi : i < s.length) : s.chars[i]? = some x := by
  unfold at? at h
  rwa [if_neg (by simpa using Nat.ne_of_lt hi)] at h

/-- Only the end mark stands behind the text. -/
theorem lt_length_of_at? (h : s.at? i = some x) (hx : x ≠ 0) : i < s.length := by
  unfold at? at h
  split at h
  · exact absurd (Option.some.inj h).symm hx
  · exact (Array.getElem?_eq_some_iff.mp h).1

theorem le_length_of_at? (h : s.at? i = some x) : i ≤ s.length := by
  unfold at? at h
  split at h
  · exact Nat.le_of_eq (eq_of_beq ‹_›)
  · exact Nat.le_of_lt (Array.getElem?_eq_some_iff.mp h).1

theorem at?_of_lt (hi : i < s.length) : s.at? i = s.chars[i]? := by
  unfold at?
  rw [if_neg (by simpa using Nat.ne_of_lt hi)]

theorem getElem?_of_at?_ne (h : s.at? i = some x) (hx : x ≠ 0) : s.chars[i]? = some x :=
  getElem?_of_at? h (lt_length_of_at? h hx)

theorem lt_length_of_getElem? (h : s.chars[i]? = some x) : i < s.length :=
  (Array.getElem?_eq_some_iff.mp h).1

/-- The offset behind the line end that starts at an offset. -/
def lineEnd (s : Source) (i : Nat) : Nat :=
  if s.chars[i]? = some 0x0D ∧ s.chars[i + 1]? = some 0x0A then i + 2 else i + 1

theorem lt_lineEnd (s : Source) (i : Nat) : i < s.lineEnd i := by
  unfold lineEnd
  split <;> omega

theorem lineEnd_le (h : s.chars[i]? = some x) : s.lineEnd i ≤ s.length := by
  have hi := lt_length_of_getElem? h
  unfold lineEnd
  split
  · rename_i hp
    have := lt_length_of_getElem? hp.2
    omega
  · omega

/-- A slice of a source holds the code points at its offsets. -/
theorem at?_of_slice {k : Nat} (h : (s.slice i j)[k]? = some x) : s.at? (i + k) = some x := by
  unfold slice at h
  by_cases hk : k < (s.chars.extract i j).toList.length
  · rw [List.getElem?_append_left hk] at h
    have hlt : i + k < s.length := by
      simp only [Array.length_toList, Array.size_extract] at hk
      unfold length; omega
    rw [at?_of_lt hlt]
    have hk' : k < (s.chars.extract i j).size := by rwa [← Array.length_toList]
    rw [Array.getElem?_toList, Array.getElem?_eq_getElem hk', Array.getElem_extract] at h
    rw [Array.getElem?_eq_getElem (by unfold length at hlt; exact hlt)]
    exact h
  · rw [List.getElem?_append_right (by omega)] at h
    split at h
    · rename_i hb
      simp only [Bool.and_eq_true, decide_eq_true_eq] at hb
      have h0 : k - (s.chars.extract i j).toList.length = 0 ∧ x = 0 := by
        cases hz : k - (s.chars.extract i j).toList.length with
        | zero => rw [hz] at h; exact ⟨rfl, by simpa using h.symm⟩
        | succ n => rw [hz] at h; simp at h
      have hik : i + k = s.length := by
        simp only [Array.length_toList, Array.size_extract] at hk h0
        unfold length at *; omega
      unfold at?
      rw [if_pos (by simpa using hik), h0.2]
    · simp at h

theorem at?_of_hasAt {k : Nat} (h : s.hasAt i w = true)
    (hx : (Text.ofString w)[k]? = some x) : s.at? (i + k) = some x := by
  unfold hasAt at h
  apply at?_of_slice (j := i + w.length)
  rwa [eq_of_beq h]

theorem slice_self (s : Source) (i : Nat) : s.slice i i = [] := by
  have h : ¬ (i ≤ s.length ∧ s.length < i) := by omega
  simp [slice, h]

theorem slice_eq_cons (hx : s.chars[i]? = some x) (hij : i < j) : s.slice i j = x :: s.slice (i + 1) j := by
  obtain ⟨hi, hx⟩ := Array.getElem?_eq_some_iff.mp hx
  have hi' : i < s.length := hi
  have hcond : (i ≤ s.length ∧ s.length < j) ↔ (i + 1 ≤ s.length ∧ s.length < j) := by omega
  obtain ⟨m, hm⟩ : ∃ m, j - i = m + 1 := ⟨j - i - 1, by omega⟩
  have hm' : j - (i + 1) = m := by omega
  unfold slice
  simp only [Array.toList_extract, List.extract_eq_take_drop, Bool.and_eq_true, decide_eq_true_eq, hcond, hm,
    hm', List.drop_eq_getElem_cons (l := s.chars.toList) (i := i) (by simpa using hi), List.take_succ_cons,
    List.cons_append, Array.getElem_toList, hx]

theorem length_slice_le (s : Source) (i j : Nat) : (s.slice i j).length ≤ j - i := by
  unfold slice
  split
  · rename_i h
    have h' : i ≤ s.length ∧ s.length < j := by simpa using h
    have hs : s.length = s.chars.size := rfl
    simp only [List.length_append, Array.length_toList, Array.size_extract, List.length_cons, List.length_nil]
    omega
  · simp only [List.append_nil, Array.length_toList, Array.size_extract]
    omega

/-- A slice of a program that ends inside it is a slice of its text. -/
theorem slice_ofText (hj : j ≤ t.length) : (ofText t).slice i j = t.slice i j := by
  have hn : ¬ (ofText t).length < j := by rw [length_ofText]; omega
  unfold slice Text.slice
  rw [Array.toList_extract, List.extract_eq_take_drop, if_neg (by simp [hn]), List.append_nil, List.drop_take]
  rfl

end Source

namespace Scan

variable {E : Failure → Prop}

def Place.position (p : Place) : Position := ⟨p.line, (p.index : Int) - p.lineStart⟩

/-- A place moves over the source from one place to another: over code points of its line, and over line
ends. -/
inductive Walk (src : Source) (p : Place) : Place → Prop
  | here : Walk src p p
  | char {q : Place} {x : Nat} : Walk src p q → src.chars[q.index]? = some x →
      Text.isLineTerminator x = false → Walk src p { q with index := q.index + 1 }
  | line {q : Place} {x : Nat} : Walk src p q → src.chars[q.index]? = some x →
      Text.isLineTerminator x = true →
      Walk src p ⟨src.lineEnd q.index, q.line + 1, src.lineEnd q.index⟩

namespace Walk

variable {src : Source} {p q r : Place}

theorem trans (h : Walk src p q) (h' : Walk src q r) : Walk src p r := by
  induction h' with
  | here => exact h
  | char _ hx ht ih => exact .char ih hx ht
  | line _ hx ht ih => exact .line ih hx ht

theorem index_le (h : Walk src p q) : p.index ≤ q.index := by
  induction h with
  | here => exact Nat.le_refl _
  | char _ _ _ ih => exact Nat.le_succ_of_le ih
  | @line q _ _ _ _ ih => exact Nat.le_trans ih (Nat.le_of_lt (src.lt_lineEnd q.index))

theorem index_le_length (h : Walk src p q) (hp : p.index ≤ src.length) : q.index ≤ src.length := by
  induction h with
  | here => exact hp
  | char _ hx _ _ => exact Source.lt_length_of_getElem? hx
  | line _ hx _ _ => exact Source.lineEnd_le hx

/-- A walk that has left its start is in the program. -/
theorem bound (h : Walk src p q) (hlt : p.index < q.index) : q.index ≤ src.length := by
  cases h with
  | here => exact absurd hlt (Nat.lt_irrefl _)
  | char _ hx _ => exact Source.lt_length_of_getElem? hx
  | line _ hx _ => exact Source.lineEnd_le hx

theorem isLineTerminator_of_pair {i : Nat} {x : Nat} (hx : t[i]? = some x)
    (h : t[i]? = some 0x0D) : Text.isLineTerminator x = true := by
  rw [hx] at h
  rw [Option.some.inj h]
  rfl

/-- A walk from the start of a program keeps lines, line starts and pairs of carriage return and line feed
as they are in the text. -/
theorem counts (h : Walk (.ofText t) ⟨0, 1, 0⟩ p) : p.line = Text.lineBreaks (t.take p.index) + 1 ∧
      p.lineStart + Text.lastLineLength (t.take p.index) = p.index ∧ Text.Whole t p.index := by
  induction h with
  | here => exact ⟨rfl, rfl, fun _ h => by cases h⟩
  | @char q x _ hx ht ih =>
    rw [Source.getElem?_ofText] at hx
    obtain ⟨hl, hs, hw⟩ := ih
    have hlast := Text.getLast?_take_of_whole hw hx
    refine ⟨?_, ?_, ?_⟩
    · simp only [Text.take_succ_of_getElem? hx, Text.lineBreaks_snoc hlast, ht, hl]
      rfl
    · simp only [Text.take_succ_of_getElem? hx, Text.lastLineLength_snoc, ht]
      simp only [Bool.false_eq_true, if_false]
      omega
    · rintro j hj hcr
      obtain rfl : q.index = j := by simpa using hj
      rw [isLineTerminator_of_pair hx hcr] at ht
      cases ht
  | @line q x _ hx ht ih =>
    rw [Source.getElem?_ofText] at hx
    obtain ⟨hl, hs, hw⟩ := ih
    have hlast := Text.getLast?_take_of_whole hw hx
    unfold Source.lineEnd
    simp only [Source.getElem?_ofText]
    split
    · -- both halves of a pair are taken at once
      rename_i hp
      obtain rfl : x = 0x0D := by rw [hx] at hp; exact Option.some.inj hp.1
      have htake : t.take (q.index + 2) = t.take q.index ++ [0x0D, 0x0A] := by
        rw [Text.take_succ_of_getElem? hp.2, Text.take_succ_of_getElem? hx]
        simp
      refine ⟨by rw [htake, Text.lineBreaks_pair, hl], ?_, ?_⟩
      · have : t.take q.index ++ [0x0D, 0x0A] = (t.take q.index ++ [0x0D]) ++ [0x0A] := by simp
        simp only [htake, this, Text.lastLineLength_snoc]
        rfl
      · rintro j hj hcr
        obtain rfl : j = q.index + 1 := by simp at hj; omega
        rw [hp.2] at hcr
        cases hcr
    · rename_i hp
      refine ⟨?_, ?_, ?_⟩
      · simp only [Text.take_succ_of_getElem? hx, Text.lineBreaks_snoc hlast, ht, hl]
        rfl
      · simp only [Text.take_succ_of_getElem? hx, Text.lastLineLength_snoc, ht]
        rfl
      · rintro j hj hcr
        obtain rfl : q.index = j := by simpa using hj
        exact fun hlf => hp ⟨hcr, hlf⟩

/-- From the start of a program a walk reaches only places whose position is that of their offset. -/
theorem position (h : Walk (.ofText t) ⟨0, 1, 0⟩ p) : p.position = Text.positionOf t p.index := by
  obtain ⟨hl, hs, _⟩ := h.counts
  unfold Place.position Text.positionOf
  rw [hl]
  congr 1
  omega

end Walk

variable {st : Settings} {c d e : Cursor} {x : Nat}

/-- A line end is taken with the code point that was read last. -/
theorem newLine_gives (hx : st.source.chars[c.index]? = some x) :
    Gives E st { c with index := c.index + 1 } (newLine x) fun _ d =>
      d = { c with toPlace := ⟨st.source.lineEnd c.index, c.line + 1, st.source.lineEnd c.index⟩ } := by
  refine .ite (fun hcr => .here (Source.lt_length_of_getElem? hx) fun y hy => .ite (fun hlf => ?_) fun hlf => ?_)
    fun hcr => ?_
  · have hp : st.source.lineEnd c.index = c.index + 2 :=
      if_pos ⟨eq_of_beq hcr ▸ hx, Source.getElem?_of_at?_ne (eq_of_beq hlf ▸ hy) (by decide)⟩
    exact .advance <| .modify (by rw [hp])
  · have hp : st.source.lineEnd c.index = c.index + 1 := by
      refine if_neg fun hp => hlf ?_
      have hy' := Source.getElem?_of_at? hy (Source.lt_length_of_getElem? hp.2)
      rw [hp.2] at hy'
      simpa using (Option.some.inj hy').symm
    exact .modify (by rw [hp])
  · have hp : st.source.lineEnd c.index = c.index + 1 := by
      refine if_neg fun hp => hcr ?_
      rw [hx] at hp
      simpa using Option.some.inj hp.1
    exact .modify (by rw [hp])

/-- A cursor moves over the source and leaves the open brackets as they are. -/
structure Glides (st : Settings) (c d : Cursor) : Prop where
  walk : Walk st.source c.toPlace d.toPlace
  openers : d.openers = c.openers

/-- A cursor moves inside its line. -/
structure Slides (st : Settings) (c d : Cursor) : Prop extends Glides st c d where
  line : d.line = c.line
  lineStart : d.lineStart = c.lineStart

namespace Glides

theorem refl (st : Settings) (c : Cursor) : Glides st c c := ⟨.here, rfl⟩

theorem trans (h : Glides st c d) (h' : Glides st d e) : Glides st c e :=
  ⟨h.walk.trans h'.walk, h'.openers.trans h.openers⟩

theorem index_le (h : Glides st c d) : c.index ≤ d.index := h.walk.index_le

theorem index_le_length (h : Glides st c d) (hc : c.index ≤ st.source.length) : d.index ≤ st.source.length :=
  h.walk.index_le_length hc

theorem slide (h : Glides st c d) (h' : Slides st d e) : Glides st c e := h.trans h'.toGlides

theorem newLine (hx : st.source.chars[c.index]? = some x) (ht : Text.isLineTerminator x = true) :
    Gives E st { c with index := c.index + 1 } (Scan.newLine x) fun _ => Glides st c :=
  (newLine_gives hx).mono fun h => h ▸ ⟨.line .here hx ht, rfl⟩

end Glides

namespace Slides

theorem refl (st : Settings) (c : Cursor) : Slides st c c := ⟨.refl st c, rfl, rfl⟩

theorem trans (h : Slides st c d) (h' : Slides st d e) : Slides st c e :=
  ⟨h.toGlides.trans h'.toGlides, h'.line.trans h.line, h'.lineStart.trans h.lineStart⟩

/-- One code point that ends no line is passed over. -/
theorem char (hx : st.source.chars[c.index]? = some x) (ht : Text.isLineTerminator x = false) :
    Slides st c { c with index := c.index + 1 } :=
  ⟨⟨.char .here hx ht, rfl⟩, rfl, rfl⟩

theorem inner (hx : st.source.at? c.index = some x) (h : Text.Inner x) : Slides st c { c with index := c.index + 1 } :=
  char (Source.getElem?_of_at?_ne hx h.1) h.2

theorem past (hd : Slides st d c) (hx : st.source.at? c.index = some x) (h : Text.Inner x := by decide) :
    Slides st d { c with index := c.index + 1 } :=
  hd.trans (inner hx h)

/-- A cursor that has moved inside its line can go back. -/
theorem rewind (h : Slides st c d) : Glides st c { d with index := c.index } := by
  refine ⟨?_, h.openers⟩
  have : ({ d with index := c.index } : Cursor).toPlace = c.toPlace := by
    simp [h.line, h.lineStart]
  rw [this]
  exact .here

/-- A piece of text without line ends is passed over. -/
theorem along (h : st.source.hasAt c.index w = true) (hw : ∀ x ∈ Text.ofString w, Text.Inner x) :
    ∀ n ≤ w.length, Slides st c { c with index := c.index + n }
  | 0, _ => refl st c
  | n + 1, hn => by
    have hlt : n < (Text.ofString w).length := by
      simp only [Text.ofString, List.length_map, String.length_toList]; omega
    have hx := Source.at?_of_hasAt h (List.getElem?_eq_getElem hlt)
    exact (along h hw n (by omega)).trans (inner hx (hw _ (List.getElem_mem hlt)))

end Slides

end Scan

end ScriptTree
