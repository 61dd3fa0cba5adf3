import ScriptTree.Message

/-! # The places in a wording

A wording can be filled if there are parts enough for its places. -/

namespace ScriptTree

theorem Text.ofString_ofList (cs : List Char) : Text.ofString (String.ofList cs) = cs.map Char.toNat := by
  simp [Text.ofString]

namespace Message

/-- How many places a wording has. -/
def placesIn : Text → Nat
  | [] => 0
  | [_] => 0
  | c :: d :: rest => if c == 0x25 && Text.isAnyDigit d then placesIn rest + 1 else placesIn (d :: rest)

theorem fill_isSome {w : Text} {parts : List Text} (h : placesIn w ≤ parts.length) : (fill parts w).isSome = true := by
  fun_induction fill parts w with
  | case1 => rfl
  | case2 => rfl
  | case3 c d rest hc =>
    rw [placesIn, if_pos hc] at h
    cases h
  | case4 c d rest hc part parts ih =>
    rw [placesIn, if_pos hc] at h
    rw [Option.isSome_map]
    exact ih (Nat.le_of_succ_le_succ h)
  | case5 c d rest parts hc ih =>
    rw [placesIn, if_neg hc] at h
    rw [Option.isSome_map]
    exact ih h

/-- How many places the wording of a message has. -/
@[reducible] def places : Message → Nat
  | redeclared => 2
  | missingInitializer | duplicateBinding | loopInitializer | unexpectedTemplate | unexpectedToken
  | unknownLabel | jsxClosingTag => 1
  | _ => 0

theorem placesIn_wording (m : Message) : placesIn m.wording = m.places := by
  -- without the lemma the characters would be read off the bytes of each wording
  cases m <;> exact (congrArg placesIn (Text.ofString_ofList _)).trans rfl

end Message

end ScriptTree
