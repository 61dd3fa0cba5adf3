import Mathlib.Data.List.Induction
import Mathlib.Data.List.Nodup
import ScriptTree.Table

/-! # Tables

What a table holds after its entries were set, erased or filtered. Values are looked up with `get?`; where
the keys are distinct, the entries are told by their membership. -/

namespace ScriptTree.Table

variable {κ α : Type} [BEq κ] [LawfulBEq κ] {k key : κ} {v value : α} {t : Table κ α}

omit [LawfulBEq κ] in
theorem get?_cons (e : κ × α) (t : Table κ α) : get? k (e :: t) = if e.1 == k then some e.2 else get? k t := by
  by_cases h : (e.1 == k) = true <;> simp [get?, h]

theorem get?_set (k key : κ) (value : α) (t : Table κ α) :
    get? k (set key value t) = if key == k then some value else get? k t := by
  induction t with
  | nil => simp [set, get?_cons]
  | cons e t ih =>
    by_cases h : e.1 = key
    · subst h
      by_cases hk : e.1 = k <;> simp [set, get?_cons, hk]
    · by_cases hk : e.1 = k
      · subst hk
        simp [set, get?_cons, h, Ne.symm h]
      · simp [set, get?_cons, h, hk, ih]

@[simp] theorem get?_set_self : get? key (set key value t) = some value := by simp [get?_set]

theorem get?_set_of_ne (h : key ≠ k) : get? k (set key value t) = get? k t := by simp [get?_set, h]

/-- Entries that are chosen by their keys. -/
theorem get?_filter (q : κ → Bool) (t : Table κ α) :
    get? k (t.filter fun e => q e.1) = if q k then get? k t else none := by
  induction t with
  | nil => simp [get?]
  | cons e t ih =>
    by_cases hk : e.1 = k
    · subst hk
      by_cases hq : q e.1 = true <;> simp [hq, get?_cons, ih]
    · by_cases hq : q e.1 = true <;> simp [hq, get?_cons, ih, hk]

@[simp] theorem get?_erase_self : get? key (erase key t) = none := by
  simpa [erase] using get?_filter (k := key) (fun x => !(x == key)) t

theorem get?_erase_of_ne (h : k ≠ key) : get? k (erase key t) = get? k t := by
  simpa [erase, h] using get?_filter (k := k) (fun x => !(x == key)) t

theorem erase_set : erase key (set key value t) = erase key t := by
  induction t with
  | nil => simp [set, erase]
  | cons e t ih => by_cases h : e.1 = key <;> simp_all [set, erase]

theorem erase_of_get? (h : get? key t = none) : erase key t = t := by
  refine List.filter_eq_self.mpr fun e he => ?_
  simpa using List.find?_eq_none.mp (Option.map_eq_none_iff.mp h) e he

theorem mem_of_get? (h : get? k t = some v) : (k, v) ∈ t := by
  obtain ⟨e, he, rfl⟩ := Option.map_eq_some_iff.mp h
  have hkey : e.1 = k := by simpa using List.find?_some he
  exact hkey ▸ List.mem_of_find?_eq_some he

theorem isSome_get?_iff : (get? k t).isSome = true ↔ k ∈ keys t := by simp [get?, keys]

omit [BEq κ] [LawfulBEq κ] in
theorem mem_keys {k : κ} : k ∈ keys t ↔ ∃ v, (k, v) ∈ t := by simp [keys]

theorem keys_set (key : κ) (value : α) (t : Table κ α) :
    keys (set key value t) = if key ∈ keys t then keys t else keys t ++ [key] := by
  induction t with
  | nil => simp [set, keys]
  | cons e t ih =>
    by_cases h : e.1 = key
    · simp [set, keys, h]
    · simp only [keys, List.map_cons] at ih ⊢
      by_cases hm : key ∈ t.map Prod.fst <;> simp [set, h, Ne.symm h, ih, hm]

theorem mem_keys_set : k ∈ keys (set key value t) ↔ k = key ∨ k ∈ keys t := by
  rw [keys_set]
  by_cases hm : key ∈ keys t
  · simpa [hm] using fun h => h ▸ hm
  · simp [hm, or_comm]

theorem nodup_keys_set (h : (keys t).Nodup) : (keys (set key value t)).Nodup := by
  rw [keys_set]
  by_cases hm : key ∈ keys t
  · simpa [hm] using h
  · simp only [hm, if_false]
    exact List.nodup_append.mpr ⟨h, by simp, by simpa using fun a ha => ne_of_mem_of_not_mem ha hm⟩

theorem mem_set (h : (keys t).Nodup) : (k, v) ∈ set key value t ↔ k = key ∧ v = value ∨ k ≠ key ∧ (k, v) ∈ t := by
  induction t with
  | nil => simp [set]
  | cons e t ih =>
    obtain ⟨hnot, hrest⟩ := List.nodup_cons.mp (show (e.1 :: keys t).Nodup from h)
    by_cases he : e.1 = key
    · subst he
      have hk : (e.1, v) ∈ t → False := fun hv => hnot (mem_keys.mpr ⟨v, hv⟩)
      simp only [set, beq_self_eq_true, if_true, List.mem_cons, Prod.ext_iff]
      by_cases hke : k = e.1
      · subst hke
        simpa using fun hv => (hk hv).elim
      · simp [hke]
    · simp only [set, beq_eq_false_iff_ne.mpr he, Bool.false_eq_true, if_false, List.mem_cons, ih hrest, Prod.ext_iff]
      by_cases hke : k = key
      · subst hke
        simp [Ne.symm he]
      · simp [hke]

omit [LawfulBEq κ] in
theorem ofEntries_concat (entries : List (κ × α)) (e : κ × α) :
    ofEntries (entries ++ [e]) = set e.1 e.2 (ofEntries entries) := by
  simp [ofEntries]

theorem nodup_keys_ofEntries (entries : List (κ × α)) : (keys (ofEntries entries)).Nodup := by
  induction entries using List.reverseRecOn with
  | nil => simp [ofEntries, keys]
  | append_singleton entries e ih =>
    rw [ofEntries_concat]
    exact nodup_keys_set ih

/-- The last entry of a key counts. -/
theorem mem_ofEntries {entries : List (κ × α)} : (k, v) ∈ ofEntries entries ↔
      ∃ before after, entries = before ++ (k, v) :: after ∧ ∀ e ∈ after, e.1 ≠ k := by
  induction entries using List.reverseRecOn with
  | nil => simp [ofEntries]
  | append_singleton entries e ih =>
    rw [ofEntries_concat, mem_set (nodup_keys_ofEntries entries), ih]
    constructor
    · rintro (⟨rfl, rfl⟩ | ⟨hk, before, after, rfl, hafter⟩)
      · exact ⟨entries, [], rfl, by simp⟩
      · refine ⟨before, after ++ [e], by simp, ?_⟩
        intro x hx
        rcases List.mem_append.mp hx with hx | hx
        · exact hafter x hx
        · simpa [List.mem_singleton.mp hx] using Ne.symm hk
    · rintro ⟨before, after, heq, hafter⟩
      rcases List.eq_nil_or_concat after with rfl | ⟨after, x, rfl⟩
      · obtain ⟨-, he⟩ := List.append_inj' heq rfl
        obtain rfl := List.singleton_inj.mp he
        exact .inl ⟨rfl, rfl⟩
      · rw [List.concat_eq_append, ← List.cons_append, ← List.append_assoc] at heq
        obtain ⟨rfl, he⟩ := List.append_inj' heq rfl
        obtain rfl := List.singleton_inj.mp he
        refine .inr ⟨Ne.symm (hafter e (by simp)), before, after, rfl, ?_⟩
        intro x hx
        exact hafter x (by simp [hx])

end ScriptTree.Table
