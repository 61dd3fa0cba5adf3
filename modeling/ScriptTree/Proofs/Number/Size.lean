import Mathlib.Algebra.Group.Nat.Defs
import ScriptTree.Number.Basic
import ScriptTree.Text.Digit

/-! # How large numbers get

A number has a text unless it is an integer of more than `Number.maxDigits` digits. A decimal literal never
is: its value is that of a double precision number, which has about three hundred digits at most
(`text?_ofDecimal`). A literal in another base is one only if it has thousands of digits itself
(`length_of_text?_eq_none`). -/

namespace ScriptTree

variable {base : Nat} {digits : Text} {exponent : Int} {negative : Bool}

namespace Number

theorem text?_eq_none {n : Int} (h : (Number.integer n).text? = none) : 10 ^ maxDigits ≤ n.natAbs := by
  unfold text? at h
  dsimp only at h
  split at h
  · rename_i hlong
    refine Nat.le_of_not_lt fun hlt => ?_
    have hle := (Nat.length_toDigits_le_iff (b := 10) (by decide) (by decide : 0 < maxDigits)).mpr hlt
    rw [Text.ofNat, List.length_map] at hlong
    omega
  · cases h

end Number

namespace Text

theorem digitValue_lt {c : Nat} (h : isHexDigit c = true) : digitValue c < 16 := by
  simp only [isHexDigit, isDecimalDigit, Bool.or_eq_true, Bool.and_eq_true, decide_eq_true_eq] at h
  unfold digitValue
  split
  · omega
  · split <;> omega

theorem octalValue_lt {c : Nat} (h : isOctalDigit c = true) : digitValue c < 8 := by
  simp only [isOctalDigit, Bool.and_eq_true, decide_eq_true_eq] at h
  unfold digitValue
  split <;> omega

/-- The value of digits that are read from the left, after some value before them. -/
theorem foldl_positional_lt (hb : base ≤ 16)
    (hd : ∀ c ∈ digits, isHexDigit c = true) {value k : Nat} (hv : value < 16 ^ k) :
    digits.foldl (fun value c => value * base + digitValue c) value < 16 ^ (k + digits.length) := by
  induction digits generalizing value k with
  | nil => exact hv
  | cons c digits ih =>
    have hc := digitValue_lt (hd c (List.mem_cons_self ..))
    have hnext : value * base + digitValue c < 16 ^ (k + 1) := by
      have hmul : value * base ≤ value * 16 := Nat.mul_le_mul_left value hb
      rw [Nat.pow_succ]
      omega
    have htail := ih (fun x hx => hd x (List.mem_cons_of_mem c hx)) hnext
    rw [List.length_cons, List.foldl_cons, Nat.add_comm digits.length 1, ← Nat.add_assoc]
    exact htail

theorem positional_lt (hb : base ≤ 16)
    (hd : ∀ c ∈ digits, isHexDigit c = true) : positional base digits < 16 ^ digits.length := by
  have h : positional base digits < 16 ^ (0 + digits.length) := foldl_positional_lt hb hd (by decide)
  rwa [Nat.zero_add] at h

end Text

/-- The number of digits, in whatever base, below which an integer has a text. -/
def Number.safeDigits : Nat := 3571

theorem Number.lt_maxDigits : 16 ^ safeDigits < 10 ^ maxDigits ∧
    10 ^ 310 + 2 ^ (53 + Binary64.maxExponent.toNat) < 10 ^ maxDigits := by
  decide +kernel

theorem Number.length_of_text?_eq_none (hb : base ≤ 16) (hd : ∀ c ∈ digits, Text.isHexDigit c = true)
    (h : (Number.integer (Text.positional base digits)).text? = none) : safeDigits < digits.length := by
  refine Nat.lt_of_not_le fun hle => ?_
  have hlarge : 10 ^ maxDigits ≤ Text.positional base digits := text?_eq_none h
  have hsmall : Text.positional base digits < 16 ^ safeDigits :=
    Nat.lt_of_lt_of_le (Text.positional_lt hb hd) (Nat.pow_le_pow_right (by decide) hle)
  have hbound := lt_maxDigits.1
  omega

/-! ## Double precision numbers -/

namespace Binary64

variable {n : Nat}

theorem roundDiv_le (num den : Nat) : roundDiv num den ≤ num / den + 1 := by
  unfold roundDiv
  dsimp only
  split <;> omega

/-- A rounded quotient of scaled numbers, scaled back. -/
theorem roundDiv_scaled_le {num den k : Nat} (hden : 0 < den) : roundDiv (num * 2 ^ k) den / 2 ^ k ≤ num / den + 1 := by
  have hk : 0 < 2 ^ k := Nat.two_pow_pos k
  have hnum : num < (num / den + 1) * den := by
    have := Nat.div_add_mod num den
    have := Nat.mod_lt num hden
    rw [Nat.add_mul, Nat.mul_comm (num / den)]
    omega
  have hq : num * 2 ^ k / den < (num / den + 1) * 2 ^ k := by
    rw [Nat.div_lt_iff_lt_mul hden, Nat.mul_right_comm]
    exact Nat.mul_lt_mul_of_pos_right hnum hk
  have hr := roundDiv_le (num * 2 ^ k) den
  calc roundDiv (num * 2 ^ k) den / 2 ^ k ≤ (num / den + 1) * 2 ^ k / 2 ^ k := Nat.div_le_div_right (by omega)
    _ = num / den + 1 := Nat.mul_div_cancel _ hk

/-- The magnitude of a finite number that is an integer. -/
def magnitude? (m : Nat) (e : Int) : Option Nat :=
  if e ≥ 0 then some (m * Nat.pow 2 e.toNat)
  else if m % Nat.pow 2 (-e).toNat == 0 then some (m / Nat.pow 2 (-e).toNat) else none

theorem magnitude?_zero : magnitude? 0 minExponent = some 0 ∧ (ofDecimal false 0 0).toInt? = some 0 := by
  decide +kernel

theorem toInt?_finite {m : Nat} {e n : Int} (h : (finite negative m e).toInt? = some n) :
    magnitude? m e = some n.natAbs := by
  obtain ⟨z, hz, hn⟩ := Option.map_eq_some_iff.mp h
  obtain ⟨k, hk, hz⟩ := Option.bind_eq_some_iff.mp hz
  obtain rfl := Option.some.inj hz
  have habs : n.natAbs = k := by
    rw [← hn]
    cases negative <;> simp
  rw [habs]
  exact hk

theorem magnitude?_le {num den m k : Nat} {e : Int} (hden : 0 < den) (he : e ≤ maxExponent)
    (hm : m = roundDiv (scaled num den e).1 (scaled num den e).2) (h : magnitude? m e = some k) :
    k ≤ num / den + 2 ^ maxExponent.toNat := by
  have hone : 0 < 2 ^ maxExponent.toNat := Nat.two_pow_pos _
  unfold magnitude? at h
  split at h
  · rename_i hpos
    obtain rfl := Option.some.inj h
    rw [scaled, if_pos hpos] at hm
    have hr := roundDiv_le num (den * 2 ^ e.toNat)
    have hpow : 2 ^ e.toNat ≤ 2 ^ maxExponent.toNat := Nat.pow_le_pow_right (by decide) (by omega)
    calc m * 2 ^ e.toNat ≤ (num / (den * 2 ^ e.toNat) + 1) * 2 ^ e.toNat := Nat.mul_le_mul_right _ (hm ▸ hr)
      _ = num / den / 2 ^ e.toNat * 2 ^ e.toNat + 2 ^ e.toNat := by
        rw [Nat.div_div_eq_div_mul, Nat.add_mul, Nat.one_mul]
      _ ≤ num / den + 2 ^ maxExponent.toNat := Nat.add_le_add (Nat.div_mul_le_self _ _) hpow
  · rename_i hneg
    split at h
    · obtain rfl := Option.some.inj h
      rw [scaled, if_neg hneg] at hm
      have hr : m / 2 ^ (-e).toNat ≤ num / den + 1 := hm ▸ roundDiv_scaled_le hden
      exact Nat.le_trans hr (Nat.add_le_add_left hone _)
    · cases h

theorem toInt?_ofRatio_le {num den : Nat} {n : Int} (hden : 0 < den)
    (h : (ofRatio negative num den).toInt? = some n) : n.natAbs ≤ num / den + 2 ^ (53 + maxExponent.toNat) := by
  unfold ofRatio at h
  split at h
  · have hz : magnitude? 0 minExponent = some n.natAbs := toInt?_finite h
    obtain rfl : 0 = n := by
      have := Option.some.inj (magnitude?_zero.1.symm.trans hz)
      omega
    exact Nat.zero_le _
  · dsimp only at h
    split at h
    · -- rounding up to the next power of two
      split at h
      · cases h
      · rename_i he
        have hm := toInt?_finite h
        have hle k : magnitude? (Nat.pow 2 52) (exponentFor num den + 1) = some k →
            k ≤ 2 ^ (53 + maxExponent.toNat) := by
          intro hk
          unfold magnitude? at hk
          split at hk
          · obtain rfl := Option.some.inj hk
            have : Nat.pow 2 52 * Nat.pow 2 (exponentFor num den + 1).toNat =
                2 ^ (52 + (exponentFor num den + 1).toNat) := (Nat.pow_add 2 _ _).symm
            rw [this]
            exact Nat.pow_le_pow_right (by decide) (by omega)
          · split at hk
            · obtain rfl := Option.some.inj hk
              have hpow : 2 ^ 52 ≤ 2 ^ (53 + maxExponent.toNat) :=
                Nat.pow_le_pow_right (by decide) (by omega)
              exact Nat.le_trans (Nat.div_le_self _ _) hpow
            · cases hk
        exact Nat.le_trans (hle _ hm) (Nat.le_add_left _ _)
    · split at h
      · cases h
      · rename_i he
        have hle := magnitude?_le hden (by omega) rfl (toInt?_finite h)
        have hpow : 2 ^ maxExponent.toNat ≤ 2 ^ (53 + maxExponent.toNat) :=
          Nat.pow_le_pow_right (by decide) (by decide)
        omega

theorem toInt?_ofDecimal_le {digits : Nat} {n : Int} (h : (ofDecimal negative digits exponent).toInt? = some n) :
    n.natAbs ≤ 10 ^ 310 + 2 ^ (53 + maxExponent.toNat) := by
  have hzero (m : Int) : (finite negative 0 minExponent).toInt? = some m →
      m.natAbs ≤ 10 ^ 310 + 2 ^ (53 + maxExponent.toNat) := by
    intro hm
    rw [← Option.some.inj (magnitude?_zero.1.symm.trans (toInt?_finite hm))]
    exact Nat.zero_le _
  unfold ofDecimal at h
  split at h
  · exact hzero n h
  dsimp only at h
  have hdigits : digits < 10 ^ (Nat.toDigits 10 digits).length :=
    (Nat.length_toDigits_le_iff (by decide) Nat.length_toDigits_pos).mp (Nat.le_refl _)
  generalize (Nat.toDigits 10 digits).length = count at h hdigits
  split at h
  · cases h
  split at h
  · exact hzero n h
  rename_i hlarge _
  split at h
  · rename_i hpos
    have hle : n.natAbs ≤ digits * 10 ^ exponent.toNat / 1 + 2 ^ (53 + maxExponent.toNat) :=
      toInt?_ofRatio_le (by decide) h
    have hnum : digits * 10 ^ exponent.toNat ≤ 10 ^ 310 :=
      calc digits * 10 ^ exponent.toNat
          ≤ 10 ^ count * 10 ^ exponent.toNat := Nat.mul_le_mul_right _ (Nat.le_of_lt hdigits)
        _ = 10 ^ (count + exponent.toNat) := (Nat.pow_add ..).symm
        _ ≤ 10 ^ 310 := Nat.pow_le_pow_right (by decide) (by omega)
    rw [Nat.div_one] at hle
    omega
  · rename_i hneg
    have hpos : 0 < 10 ^ (-exponent).toNat := Nat.pow_pos (by decide)
    have hle : n.natAbs ≤ digits / 10 ^ (-exponent).toNat + 2 ^ (53 + maxExponent.toNat) :=
      toInt?_ofRatio_le hpos h
    have hnum : digits / 10 ^ (-exponent).toNat ≤ 10 ^ 310 := by
      refine Nat.div_le_of_le_mul ?_
      calc digits ≤ 10 ^ count := Nat.le_of_lt hdigits
        _ ≤ 10 ^ ((-exponent).toNat + 310) := Nat.pow_le_pow_right (by decide) (by omega)
        _ = 10 ^ (-exponent).toNat * 10 ^ 310 := Nat.pow_add ..
    omega

/-- Scaling down by a power of two is exact where the number was scaled up by it. -/
theorem scaled_neg (n k : Nat) : scaled n 1 (-(k : Int)) = (n * 2 ^ k, 1) := by
  unfold scaled
  split
  · obtain rfl : k = 0 := by omega
    simp
  · simp

theorem toInt?_scaled (n k : Nat) : (finite false (n * 2 ^ k) (-(k : Int))).toInt? = some n := by
  have hk : 0 < 2 ^ k := Nat.two_pow_pos k
  by_cases h0 : k = 0 <;> simp [toInt?, h0, Nat.mul_div_cancel _ hk]

/-- The exponent of an integer of at most 53 bits makes its significand as long as that. -/
theorem exponentFor_one (h0 : n ≠ 0) (h : n < 2 ^ 53) : exponentFor n 1 = -((52 - n.log2 : Nat) : Int) := by
  have hlog : n.log2 < 53 := (Nat.log2_lt h0).mpr h
  have hguess : (n.log2 : Int) - (Nat.log2 1 : Nat) - 52 = -((52 - n.log2 : Nat) : Int) := by
    have : Nat.log2 1 = 0 := by decide
    omega
  have hbits : Nat.pow 2 52 ≤ n * 2 ^ (52 - n.log2) := by
    have hle := Nat.mul_le_mul_right (2 ^ (52 - n.log2)) (Nat.log2_self_le h0)
    rwa [← Nat.pow_add, show n.log2 + (52 - n.log2) = 52 by omega] at hle
  unfold exponentFor
  dsimp only
  rw [hguess, scaled_neg]
  dsimp only
  rw [Nat.div_one, if_neg (Nat.not_lt.mpr hbits)]
  unfold minExponent
  omega

theorem ofRatio_one (h0 : n ≠ 0) (h : n < 2 ^ 53) :
    ofRatio false n 1 = .finite false (n * 2 ^ (52 - n.log2)) (-((52 - n.log2 : Nat) : Int)) := by
  have hround (m : Nat) : roundDiv m 1 = m := by simp [roundDiv, Nat.mod_one]
  have hbits : n * 2 ^ (52 - n.log2) < 2 ^ 53 := by
    have hlog : n.log2 < 53 := (Nat.log2_lt h0).mpr h
    have hlt := Nat.mul_lt_mul_of_pos_right (Nat.lt_log2_self (n := n)) (Nat.two_pow_pos (52 - n.log2))
    rwa [← Nat.pow_add, show n.log2 + 1 + (52 - n.log2) = 53 by omega] at hlt
  unfold ofRatio
  dsimp only
  rw [if_neg (by simpa using h0), exponentFor_one h0 h, scaled_neg]
  dsimp only
  rw [hround, beq_false_of_ne (Nat.ne_of_lt hbits : _ ≠ Nat.pow 2 53)]
  exact if_neg (by simp [maxExponent])

/-- Integers of at most 53 bits are exact. -/
theorem toInt?_ofDecimal (h : n < 2 ^ 53) : (ofDecimal false n 0).toInt? = some n := by
  by_cases h0 : n = 0
  · subst h0
    exact magnitude?_zero.2
  have hdigits : (Nat.toDigits 10 n).length ≤ 16 :=
    (Nat.length_toDigits_le_iff (by decide) (by decide)).mpr (Nat.lt_trans h (by decide))
  unfold ofDecimal
  dsimp only
  rw [if_neg (by simpa using h0), if_neg (by omega), if_neg (by omega), if_pos (by decide)]
  rw [show n * Nat.pow 10 (Int.toNat 0) = n from Nat.mul_one n, ofRatio_one h0 h]
  exact toInt?_scaled n _

end Binary64

theorem Number.text?_ofDecimal {digits : Nat} :
    (Number.ofBinary64 (.ofDecimal negative digits exponent)).text? ≠ none := by
  intro h
  unfold ofBinary64 at h
  split at h
  · rename_i n hn
    have hlarge := text?_eq_none h
    have hsmall := Binary64.toInt?_ofDecimal_le hn
    have hbound := lt_maxDigits.2
    omega
  · cases h

end ScriptTree
