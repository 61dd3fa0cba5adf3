import Mathlib.Algebra.GroupWithZero.Nat
import Mathlib.Data.List.Nodup
import ScriptTree.Value.Graph

/-! # Unfolding of graphs

In the unfolding of a graph every reference to an object is replaced by the object, but where an object is inside
itself the reference is left as a mark (`expand`). It is finite, as no object is opened twice on a path. A graph is
unfolded with a stack of open objects, from which a mark takes its object off. So it comes out as it should exactly if
no object has two marks inside it (`unfold_eq_iff`); otherwise an object is opened again inside itself. -/

namespace ScriptTree.Graph

variable {o : Nat × List (Text × Graph)} {known : Objects} {path : List Nat} {id : Nat} {fields : List (Text × Graph)}

def shown (fields : List (Text × Graph)) : List (Text × Graph) := fields.filter fun f => !Value.isHidden f.1

theorem shown_map (fields : List (Text × Graph)) (t : Graph → Graph) :
    shown (fields.map fun f => (f.1, t f.2)) = (shown fields).map fun f => (f.1, t f.2) := by
  rw [shown, List.filter_map]
  rfl

def unopened (known : Objects) (path : List Nat) : Nat := known.countP fun o => o.1 ∉ path

theorem unopened_cons_le (known : Objects) (path : List Nat) (id : Nat) :
    unopened known (id :: path) ≤ unopened known path := by
  refine List.countP_mono_left fun o _ h => ?_
  simp only [List.mem_cons, not_or, decide_eq_true_eq] at h ⊢
  exact h.2

theorem unopened_cons_lt (hid : id ∉ path)
    (ho : known.find? (fun o => o.1 == id) = some o) : unopened known (id :: path) < unopened known path := by
  induction known with
  | nil => cases ho
  | cons x known ih =>
    have hle := unopened_cons_le known path id
    unfold unopened at *
    by_cases hx : x.1 = id
    · rw [List.countP_cons_of_neg (by simp [hx]), List.countP_cons_of_pos (by simpa [hx] using hid)]
      exact Nat.lt_succ_of_le hle
    · rw [List.find?_cons_of_neg (by simpa using hx)] at ho
      simpa [List.countP_cons, hx] using ih ho

theorem sizeOf_lt_of_mem {f : Text × Graph} (h : f ∈ fields) : sizeOf f.2 < sizeOf fields := by
  have hf := List.sizeOf_lt_of_mem h
  obtain ⟨name, g⟩ := f
  rw [Prod.mk.sizeOf_spec] at hf
  dsimp only
  omega

/-- The unfolding of a graph inside the objects of a path. -/
def expand (known : Objects) (path : List Nat) : Graph → Graph
  | .leaf v => .leaf v
  | .list items => .list (items.map fun g => expand known path g)
  | .record fields => .record (shown (fields.map fun f => (f.1, expand known path f.2)))
  | .object id fields =>
    if id ∈ path then .ref id
    else .object id (shown (fields.map fun f => (f.1, expand known (id :: path) f.2)))
  | .ref id =>
    if _hid : id ∈ path then .ref id
    else match _ho : known.find? fun o => o.1 == id with
      | some o => .object id (shown (o.2.map fun f => (f.1, expand known (id :: path) f.2)))
      | none => .ref id
termination_by g => (unopened known path, sizeOf g)
decreasing_by
  · have := List.sizeOf_lt_of_mem ‹_ ∈ items›
    exact Prod.Lex.right _ (by rw [list.sizeOf_spec]; omega)
  · have := sizeOf_lt_of_mem ‹_ ∈ fields›
    exact Prod.Lex.right _ (by rw [record.sizeOf_spec]; omega)
  · have := sizeOf_lt_of_mem ‹_ ∈ fields›
    have := unopened_cons_le known path id
    simp only [Prod.lex_def, object.sizeOf_spec]
    omega
  · exact Prod.Lex.left _ _ (unopened_cons_lt _hid _ho)

def value : Graph → Value
  | .leaf v => v
  | .list items => .list (items.map fun g => value g)
  | .record fields => .record (fields.map fun f => (f.1, value f.2))
  | .object _ fields => .object "Object" (fields.map fun f => (f.1, value f.2))
  | .ref _ => .again
decreasing_by
  · decreasing_tactic
  all_goals have := sizeOf_lt_of_mem ‹_ ∈ _›; decreasing_tactic

def marks : Graph → List Nat
  | .leaf _ => []
  | .list items => items.flatMap fun g => marks g
  | .record fields => fields.flatMap fun f => marks f.2
  | .object id fields => (fields.flatMap fun f => marks f.2).filter (· ≠ id)
  | .ref id => [id]
decreasing_by
  · decreasing_tactic
  all_goals have := sizeOf_lt_of_mem ‹_ ∈ _›; decreasing_tactic

/-- No object of an unfolding has two marks inside it. -/
def MarksOnce : Graph → Prop
  | .leaf _ | .ref _ => True
  | .list items => ∀ g ∈ items, MarksOnce g
  | .record fields => ∀ f ∈ fields, MarksOnce f.2
  | .object id fields => (fields.flatMap fun f => marks f.2).count id ≤ 1 ∧ ∀ f ∈ fields, MarksOnce f.2
decreasing_by
  · decreasing_tactic
  all_goals have := sizeOf_lt_of_mem ‹_ ∈ _›; decreasing_tactic

/-! ## Steps -/

variable {α β γ : Type} {a : α} {b : β} {s stack ms ms' : List Nat} {once : Prop} {q : Graph → Unfolding Value}
  {values : List (Text × Value)}

/-- The marks are for different objects of the stack. -/
def Fits (stack ms : List Nat) : Prop := ms.Nodup ∧ ms ⊆ stack

def rest (stack ms : List Nat) : List Nat := stack.filter (· ∉ ms)

theorem fits_append : Fits stack (ms ++ ms') ↔ Fits stack ms ∧ Fits (rest stack ms) ms' := by
  simp only [Fits, rest, List.nodup_append, List.subset_def, List.mem_filter, decide_eq_true_eq]
  grind

theorem rest_append : rest stack (ms ++ ms') = rest (rest stack ms) ms' := by
  simp only [rest, List.filter_filter]
  congr 1
  grind

theorem fits_cons : Fits (id :: stack) ms ↔ ms.count id ≤ 1 ∧ Fits stack (ms.filter (· ≠ id)) := by
  constructor
  · rintro ⟨hn, hs⟩
    refine ⟨List.nodup_iff_count_le_one.mp hn id, hn.filter _, fun x hx => ?_⟩
    obtain ⟨hx, hne⟩ := List.mem_filter.mp hx
    exact (List.mem_cons.mp (hs hx)).resolve_left (by simpa using hne)
  · rintro ⟨hcount, hn, hs⟩
    refine ⟨List.nodup_iff_count_le_one.mpr fun x => ?_, fun x hx => ?_⟩
    · by_cases hne : x = id
      · rwa [hne]
      · rw [← List.count_filter (p := (· ≠ id)) (by simpa using hne)]
        exact List.nodup_iff_count_le_one.mp hn x
    · by_cases hne : x = id
      · exact hne ▸ List.mem_cons_self
      · exact List.mem_cons_of_mem _ (hs (List.mem_filter.mpr ⟨hx, by simpa using hne⟩))

theorem erase_rest_cons (h : id ∉ stack) : (rest (id :: stack) ms).erase id = rest stack (ms.filter (· ≠ id)) := by
  have hrest : rest stack ms = rest stack (ms.filter (· ≠ id)) := by
    refine List.filter_congr fun x hx => ?_
    have hne : x ≠ id := fun he => h (he ▸ hx)
    simp [hne]
  by_cases hid : id ∈ ms
  · rw [← hrest, rest, List.filter_cons_of_neg (by simpa using hid)]
    exact List.erase_of_not_mem fun hmem => h (List.mem_of_mem_filter hmem)
  · rw [← hrest, rest, List.filter_cons_of_pos (by simpa using hid), List.erase_cons_head]
    rfl

/-- From a stack of objects on the path the step returns the value exactly if the marks fit. -/
def Shows (path : List Nat) (p : Unfolding α) (a : α) (ms : List Nat) (once : Prop) : Prop :=
  ∀ stack, stack.Nodup → stack ⊆ path → ∀ s, p stack = .ok (a, s) ↔ once ∧ Fits stack ms ∧ s = rest stack ms

theorem bind_eq_ok {p : Unfolding α} {f : α → Unfolding β} :
    (p >>= f) stack = .ok (b, s) ↔ ∃ a u, p stack = .ok (a, u) ∧ f a u = .ok (b, s) := by
  change (p stack >>= fun x => f x.1 x.2) = _ ↔ _
  cases p stack with
  | error e => simp [bind, Except.bind]
  | ok x =>
    obtain ⟨a, u⟩ := x
    simp [bind, Except.bind]

namespace Shows

theorem pure : Shows path (Pure.pure a : Unfolding α) a [] True := by
  intro stack _ _ s
  change Except.ok (a, stack) = .ok (a, s) ↔ _
  simp [Fits, rest, eq_comm]

theorem map {p : Unfolding α} {f : α → β} (hp : Shows path p a ms once) (hf : f.Injective) :
    Shows path (do return f (← p)) (f a) ms once := by
  intro stack hn hs s
  rw [← hp stack hn hs, bind_eq_ok]
  constructor
  · rintro ⟨x, u, hx, h⟩
    obtain ⟨hfx, rfl⟩ : f x = f a ∧ u = s := by simpa using Except.ok.inj h
    rwa [← hf hfx]
  · exact fun h => ⟨a, s, h, rfl⟩

theorem mapM {p : β → Unfolding γ} {v : β → γ} {m : β → List Nat} {o : β → Prop} {l : List β}
    (h : ∀ x ∈ l, Shows path (p x) (v x) (m x) (o x)) :
    Shows path (l.mapM p) (l.map v) (l.flatMap m) (∀ x ∈ l, o x) := by
  induction l with
  | nil => simpa using pure (a := ([] : List γ))
  | cons x l ih =>
    obtain ⟨hx, hl⟩ := List.forall_mem_cons.mp h
    intro stack hn hs s
    have hrest := ih hl (rest stack (m x)) (hn.filter _) (fun _ hx => hs (List.mem_of_mem_filter hx)) s
    rw [List.mapM_cons, List.forall_mem_cons, List.flatMap_cons, fits_append, rest_append, List.map_cons]
    simp only [bind_eq_ok]
    constructor
    · rintro ⟨y, u, hy, ys, w, hys, h⟩
      obtain ⟨⟨rfl, rfl⟩, rfl⟩ : (y = v x ∧ ys = l.map v) ∧ w = s := by simpa using Except.ok.inj h
      obtain ⟨ho, hfit, rfl⟩ := (hx stack hn hs u).mp hy
      obtain ⟨hos, hfits, rfl⟩ := hrest.mp hys
      exact ⟨⟨ho, hos⟩, ⟨hfit, hfits⟩, rfl⟩
    · rintro ⟨⟨ho, hos⟩, ⟨hfit, hfits⟩, rfl⟩
      exact ⟨_, _, (hx stack hn hs _).mpr ⟨ho, hfit, rfl⟩, _, _, hrest.mpr ⟨hos, hfits, rfl⟩, rfl⟩

end Shows

/-- The fields of a record or an object are unfolded one after the other. -/
def unfoldFields (q : Graph → Unfolding Value) (fields : List (Text × Graph)) : Unfolding (List (Text × Value)) :=
  (shown fields).mapM fun f => do return (f.1, ← q f.2)

theorem unfoldObject_of_mem (h : id ∈ stack) : unfoldObject q id fields stack = .ok (.again, stack.erase id) := by
  change (if stack.contains id = true then _ else _ : Unfolding Value) stack = _
  rw [if_pos (by simpa using h)]
  rfl

theorem unfoldObject_eq_ok {v : Value} (h : id ∉ stack) : unfoldObject q id fields stack = .ok (v, s) ↔ ∃ values u,
      unfoldFields q fields (id :: stack) = .ok (values, u) ∧ v = .object "Object" values ∧ s = u.erase id := by
  have hrun : unfoldObject q id fields stack = (do
      let values ← unfoldFields q fields
      modify fun stack => stack.erase id
      return .object "Object" values : Unfolding Value) (id :: stack) := by
    change (if stack.contains id = true then _ else _ : Unfolding Value) stack = _
    rw [if_neg (by simpa using h)]
    rfl
  rw [hrun, bind_eq_ok]
  refine exists_congr fun values => exists_congr fun u => and_congr_right fun _ => ?_
  change Except.ok (Value.object "Object" values, u.erase id) = .ok (v, s) ↔ _
  simp [eq_comm]

namespace Shows

/-- An object inside itself is shown by a mark if it is still on the stack. -/
theorem again : Shows path (unfoldObject q id fields) .again [id] True := by
  intro stack hn hs s
  by_cases h : id ∈ stack
  · have herase : stack.erase id = rest stack [id] := by
      rw [hn.erase_eq_filter]
      exact List.filter_congr fun x _ => by grind
    rw [unfoldObject_of_mem h, herase]
    simp [Fits, h, eq_comm]
  · rw [unfoldObject_eq_ok h]
    simp [Fits, h]

/-- Another object is shown with its fields. -/
theorem object (hid : id ∉ path) (h : Shows (id :: path) (unfoldFields q fields) values ms once) :
    Shows path (unfoldObject q id fields) (.object "Object" values) (ms.filter (· ≠ id)) (ms.count id ≤ 1 ∧ once) := by
  intro stack hn hs s
  have hstack : id ∉ stack := fun hmem => hid (hs hmem)
  have hfields := h (id :: stack) (List.nodup_cons.mpr ⟨hstack, hn⟩) (List.cons_subset_cons id hs)
  rw [unfoldObject_eq_ok hstack]
  constructor
  · rintro ⟨values', u, hu, hv, rfl⟩
    obtain rfl : values = values' := by simpa using hv
    obtain ⟨ho, hfits, rfl⟩ := (hfields u).mp hu
    obtain ⟨hcount, hfits⟩ := fits_cons.mp hfits
    exact ⟨⟨hcount, ho⟩, hfits, erase_rest_cons hstack⟩
  · rintro ⟨⟨hcount, ho⟩, hfits, rfl⟩
    exact ⟨values, _, (hfields _).mpr ⟨ho, fits_cons.mpr ⟨hcount, hfits⟩, rfl⟩, rfl, (erase_rest_cons hstack).symm⟩

theorem ofFields {t : Graph → Graph}
    (h : ∀ f ∈ fields, Shows path (q f.2) (t f.2).value (t f.2).marks (t f.2).MarksOnce) :
    Shows path (unfoldFields q fields) ((shown (fields.map fun f => (f.1, t f.2))).map fun f => (f.1, f.2.value))
      ((shown (fields.map fun f => (f.1, t f.2))).flatMap fun f => f.2.marks)
      (∀ f ∈ shown (fields.map fun f => (f.1, t f.2)), f.2.MarksOnce) := by
  rw [shown_map, List.map_map, List.flatMap_map, List.forall_mem_map]
  refine mapM fun f hf => ?_
  exact (h f (List.mem_of_mem_filter hf)).map (f := fun v => (f.1, v)) fun _ _ hv => (Prod.mk.inj hv).2

end Shows

/-! ## Graphs -/

theorem objectsOfItems_eq (items : List Graph) : objectsOfItems items = items.flatMap fun g => objects g := by
  induction items with
  | nil => rfl
  | cons g items ih => rw [objectsOfItems, ih, List.flatMap_cons]

theorem objectsOfFields_eq (fields : List (Text × Graph)) :
    objectsOfFields fields = fields.flatMap fun f => objects f.2 := by
  induction fields with
  | nil => rfl
  | cons f fields ih => rw [objectsOfFields, ih, List.flatMap_cons]

theorem sizeOfItems_eq (items : List Graph) : sizeOfItems items = (items.map fun g => size g).sum := by
  induction items with
  | nil => rfl
  | cons g items ih => rw [sizeOfItems, ih, List.map_cons, List.sum_cons]

theorem sizeOfFields_eq (fields : List (Text × Graph)) : sizeOfFields fields = (fields.map fun f => size f.2).sum := by
  induction fields with
  | nil => rfl
  | cons f fields ih => rw [sizeOfFields, ih, List.map_cons, List.sum_cons]

/-- The objects contain less than a bound, and only objects of the list. -/
def Closed (known : Objects) (bound : Nat) : Prop :=
  ∀ o ∈ known, sizeOfFields o.2 < bound ∧ objectsOfFields o.2 ⊆ known

theorem Closed.mono {bound : Nat} {m : Objects} {n : Nat} (h : Closed known bound)
    (hm : known ⊆ m) (hn : bound ≤ n) (ho : o ∈ known) : sizeOfFields o.2 < n ∧ objectsOfFields o.2 ⊆ m :=
  ⟨Nat.lt_of_lt_of_le (h o ho).1 hn, List.Subset.trans (h o ho).2 hm⟩

/-- What is in a list or in fields is not larger than the whole, and its objects are objects of the whole. -/
theorem part_le {l : List β} {p : β → Graph} {x : β} (hx : x ∈ l) :
    size (p x) ≤ (l.map fun x => size (p x)).sum ∧ objects (p x) ⊆ l.flatMap fun x => objects (p x) := by
  refine ⟨?_, fun o ho => List.mem_flatMap.mpr ⟨x, hx, ho⟩⟩
  induction l with
  | nil => cases hx
  | cons y l ih =>
    rw [List.map_cons, List.sum_cons]
    rcases List.mem_cons.mp hx with rfl | hx
    · exact Nat.le_add_right _ _
    · exact Nat.le_add_left_of_le (ih hx)

theorem parts_closed {l : List β} {p : β → Graph}
    (h : ∀ x ∈ l, (objects (p x)).length ≤ size (p x) ∧ Closed (objects (p x)) (size (p x))) :
    (l.flatMap fun x => objects (p x)).length ≤ (l.map fun x => size (p x)).sum ∧
      Closed (l.flatMap fun x => objects (p x)) (l.map fun x => size (p x)).sum := by
  constructor
  · induction l with
    | nil => exact Nat.le_refl _
    | cons y l ih =>
      rw [List.flatMap_cons, List.length_append, List.map_cons, List.sum_cons]
      exact Nat.add_le_add (h y List.mem_cons_self).1 (ih fun x hx => h x (List.mem_cons_of_mem y hx))
  · intro o ho
    obtain ⟨x, hx, ho⟩ := List.mem_flatMap.mp ho
    obtain ⟨hle, hin⟩ := part_le (p := p) hx
    exact (h x hx).2.mono hin hle ho

/-- A graph has no more objects than parts, and contains what its objects contain. -/
theorem objects_closed (g : Graph) : (objects g).length ≤ size g ∧ Closed (objects g) (size g) := by
  induction hn : size g using Nat.strongRecOn generalizing g with
  | _ n ih =>
    subst hn
    have hparts {γ : Type} (l : List γ) (p : γ → Graph) (hlt : (l.map fun x => size (p x)).sum < size g) :=
      parts_closed fun x (hx : x ∈ l) => ih _ (Nat.lt_of_le_of_lt (part_le hx).1 hlt) (p x) rfl
    cases g with
    | leaf v => exact ⟨Nat.zero_le _, by simp [Closed, objects]⟩
    | ref id => exact ⟨Nat.zero_le _, by simp [Closed, objects]⟩
    | list items =>
      rw [size, sizeOfItems_eq, objects, objectsOfItems_eq] at *
      obtain ⟨hlen, hclosed⟩ := hparts items (fun g => g) (by omega)
      exact ⟨by omega, fun o => hclosed.mono (List.Subset.refl _) (by omega)⟩
    | record fields =>
      rw [size, sizeOfFields_eq, objects, objectsOfFields_eq] at *
      obtain ⟨hlen, hclosed⟩ := hparts fields Prod.snd (by omega)
      exact ⟨by omega, fun o => hclosed.mono (List.Subset.refl _) (by omega)⟩
    | object id fields =>
      rw [size, objects, List.length_cons]
      rw [size] at hparts
      obtain ⟨hlen, hclosed⟩ := hparts fields Prod.snd (by rw [sizeOfFields_eq]; omega)
      rw [← objectsOfFields_eq, ← sizeOfFields_eq] at hlen hclosed
      refine ⟨by omega, List.forall_mem_cons.mpr ⟨⟨Nat.lt_one_add_iff.mpr (Nat.le_refl _), ?_⟩, fun o => ?_⟩⟩
      · exact List.subset_cons_self _ _
      · exact hclosed.mono (List.subset_cons_self _ _) (by omega)

/-- Down to a depth that is enough for all objects outside the path, a graph comes out as its unfolding exactly if the
marks fit. -/
theorem unfoldTo_shows {bound n : Nat} (hknown : Closed known bound) (g : Graph) (path : List Nat)
    (hg : objects g ⊆ known) (hpath : path ⊆ known.map Prod.fst) (hn : size g + unopened known path * bound ≤ n) :
    Shows path (unfoldTo known n g) (expand known path g).value (expand known path g).marks
      (expand known path g).MarksOnce := by
  induction n generalizing g path with
  | zero => cases g <;> simp [size] at hn
  | succ n ih =>
    have hfields (fields : List (Text × Graph)) (path : List Nat) (hsub : objectsOfFields fields ⊆ known)
        (hpath : path ⊆ known.map Prod.fst) (hsize : sizeOfFields fields + unopened known path * bound ≤ n) :=
      Shows.ofFields (t := expand known path) fun f (hf : f ∈ fields) => by
        rw [objectsOfFields_eq] at hsub
        rw [sizeOfFields_eq] at hsize
        obtain ⟨hle, hin⟩ := part_le (p := Prod.snd) hf
        exact ih f.2 path (List.Subset.trans hin hsub) hpath (by omega)
    have hobject (id : Nat) (fields : List (Text × Graph)) (hid : id ∉ path) (hsub : objectsOfFields fields ⊆ known)
        (hmem : id ∈ known.map Prod.fst) (hsize : sizeOfFields fields + unopened known (id :: path) * bound ≤ n) :=
      Shows.object hid (hfields fields (id :: path) hsub (List.cons_subset.mpr ⟨hmem, hpath⟩) hsize)
    cases g with
    | leaf v =>
      simp only [expand, value, marks, MarksOnce]
      exact .pure
    | list items =>
      rw [objects, objectsOfItems_eq] at hg
      rw [size, sizeOfItems_eq] at hn
      simp only [expand, value, marks, MarksOnce, List.map_map, List.flatMap_map, List.forall_mem_map]
      refine Shows.map (f := Value.list) (.mapM fun g hmem => ?_) fun _ _ h => Value.list.inj h
      obtain ⟨hle, hin⟩ := part_le (p := fun g => g) hmem
      exact ih g path (List.Subset.trans hin hg) hpath (by omega)
    | record fields =>
      rw [size] at hn
      simp only [expand, value, marks, MarksOnce]
      exact Shows.map (f := Value.record) (hfields fields path hg hpath (by omega)) fun _ _ h => Value.record.inj h
    | object id fields =>
      obtain ⟨hmem, hsub⟩ := List.cons_subset.mp hg
      rw [size] at hn
      rw [expand]
      split
      · simp only [value, marks, MarksOnce]
        exact .again
      · rename_i hid
        have := Nat.mul_le_mul_right bound (unopened_cons_le known path id)
        simp only [value, marks, MarksOnce]
        exact hobject id fields hid hsub (List.mem_map_of_mem hmem) (by omega)
    | ref id =>
      rw [size] at hn
      cases ho : known.find? fun o => o.1 == id with
      | none =>
        -- A reference to no object fails, and its mark is for an object that is never open.
        have hid : id ∉ known.map Prod.fst := fun hmem => by
          obtain ⟨o, hin, rfl⟩ := List.mem_map.mp hmem
          simpa using List.find?_eq_none.mp ho o hin
        have hrun : unfoldTo known (n + 1) (.ref id) = throw .noEntry := by simp [unfoldTo, ho]
        have hexpand : expand known path (.ref id) = .ref id := by
          rw [expand]
          split
          · rfl
          · split <;> simp_all
        intro stack _ hs s
        rw [hrun, hexpand]
        simp only [value, marks, MarksOnce, Fits]
        exact ⟨fun h => (by cases h), fun h => absurd (hpath (hs (h.2.1.2 List.mem_cons_self))) hid⟩
      | some o =>
        obtain rfl : o.1 = id := by simpa using List.find?_some ho
        have hmem := List.mem_of_find?_eq_some ho
        have hrun : unfoldTo known (n + 1) (.ref o.1) = unfoldObject (unfoldTo known n) o.1 o.2 := by simp [unfoldTo, ho]
        rw [hrun, expand]
        split
        · simp only [value, marks, MarksOnce]
          exact .again
        · rename_i hid
          obtain ⟨hlt, hsub⟩ := hknown o hmem
          have := Nat.mul_le_mul_right bound (unopened_cons_lt hid ho)
          rw [Nat.succ_mul] at this
          split
          · rename_i o' ho'
            obtain rfl : o = o' := Option.some.inj (ho.symm.trans ho')
            simp only [value, marks, MarksOnce]
            exact hobject o.1 o.2 hid hsub (List.mem_map_of_mem hmem) (by omega)
          · simp_all

def unfolding (g : Graph) : Graph := expand g.objects [] g

/-- A graph comes out as its unfolding exactly if all references are to objects and no object of the unfolding has two
marks inside it. -/
theorem unfold_eq_iff (g : Graph) :
    g.unfold = .ok g.unfolding.value ↔ g.unfolding.marks = [] ∧ g.unfolding.MarksOnce := by
  obtain ⟨hlen, hclosed⟩ := objects_closed g
  have hdepth : size g + unopened g.objects [] * size g ≤ g.depth := by
    have hle : unopened g.objects [] ≤ size g := Nat.le_trans List.countP_le_length hlen
    have := Nat.mul_le_mul_right (size g) hle
    simp only [depth, Nat.add_mul, Nat.mul_add]
    omega
  have hshows : ∀ s, _ ↔ g.unfolding.MarksOnce ∧ Fits [] g.unfolding.marks ∧ s = rest [] g.unfolding.marks :=
    unfoldTo_shows hclosed g [] (List.Subset.refl _) (List.nil_subset _) hdepth [] .nil (List.Subset.refl _)
  have hfits : Fits [] g.unfolding.marks ↔ g.unfolding.marks = [] := by
    rw [Fits, List.subset_nil]
    exact ⟨fun h => h.2, fun h => ⟨h ▸ .nil, h⟩⟩
  have hrun : g.unfold = .ok g.unfolding.value ↔
      ∃ s, unfoldTo g.objects g.depth g [] = .ok (g.unfolding.value, s) := by
    change (unfoldTo g.objects g.depth g [] >>= fun x => .ok x.1) = _ ↔ _
    cases unfoldTo g.objects g.depth g [] with
    | error e => simp [bind, Except.bind]
    | ok x => simp [bind, Except.bind, Prod.ext_iff]
  rw [hrun, unfolding, exists_congr hshows, hfits]
  simp [and_comm, unfolding]

def doubled : Graph := .object 0 [([0x61], .ref 0), ([0x62], .ref 0)]

/-- The mark in the first field takes the object off the stack, and the second field opens it again. -/
theorem unfoldTo_doubled (n : Nat) : unfoldTo doubled.objects n (.ref 0) [] = .error .exhausted := by
  induction n with
  | zero => rfl
  | succ n ih =>
    cases n with
    | zero => rfl
    | succ n =>
      have hmark : (unfoldTo doubled.objects (n + 1) (.ref 0)).run [0] = .ok (.again, []) := rfl
      change (unfoldObject (unfoldTo doubled.objects (n + 1)) 0 _).run [] = _
      generalize unfoldTo doubled.objects (n + 1) = q at ih hmark
      have hrun : (unfoldObject q 0 [([0x61], .ref 0), ([0x62], .ref 0)]).run [] = (do
          let x ← (q (.ref 0)).run [0]
          let y ← (q (.ref 0)).run x.2
          return (.object "Object" [([0x61], x.1), ([0x62], y.1)], y.2.erase 0)) := by
        simp [unfoldObject, Value.isHidden]
      rw [hrun, hmark]
      change (q (.ref 0) [] >>= _) = _
      rw [ih]
      rfl

/-- An object with itself in a field and in an object in another field. -/
def nested : Graph := .object 0 [([0x61], .ref 0), ([0x62], .object 1 [([0x78], .ref 0)])]

theorem value_nested : nested.unfolding.value =
    .object "Object" [([0x61], .again), ([0x62], .object "Object" [([0x78], .again)])] := by
  simp [nested, unfolding, expand, objects, objectsOfFields, shown, value, Value.isHidden]

theorem unfold_nested : (∃ v, nested.unfold = .ok v ∧ v.plain ≠ nested.unfolding.value.plain) ∧
    ∀ n, unfoldTo doubled.objects n (.ref 0) [] = .error .exhausted := by
  refine ⟨⟨_, rfl, ?_⟩, unfoldTo_doubled⟩
  rw [value_nested]
  change Value.record [_, (_, .record [(_, .record [_, _])])] ≠ .record [_, (_, .record [(_, .record [_])])]
  simp

end ScriptTree.Graph
