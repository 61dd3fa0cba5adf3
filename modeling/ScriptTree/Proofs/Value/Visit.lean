import ScriptTree.Proofs.Table
import ScriptTree.Value.Visit
import ScriptTree.Value.Walk

/-! # Visitors compute recursive definitions -/

namespace ScriptTree

variable {heap : Heap} {path : List Nat} {g : Graph} {v : Value}

/-- The value is no list, record or object. -/
def Value.IsScalar : Value → Prop
  | .list _ | .record _ | .object .. | .again => False
  | _ => True

namespace Graph

def number? : Graph → Option Nat
  | .object id _ | .ref id => some id
  | _ => none

/-- Parts of a graph with their names and values. -/
abbrev Members := List (Text × Graph × Value)

variable {rows : Members}

def Members.graphs (rows : Members) : List (Text × Graph) := rows.map fun r => (r.1, r.2.1)

def Members.values (rows : Members) : List (Text × Value) := rows.map fun r => (r.1, r.2.2)

/-- The value that a graph stands for inside the objects of a path. No object is inside itself. -/
inductive Denotes (heap : Heap) : List Nat → Graph → Value → Prop where
  | leaf {path : List Nat} {v : Value} (hv : v.IsScalar) : Denotes heap path (.leaf v) v
  | list {path : List Nat} {items : List Graph} (rows : Members) (hi : items.map (fun g => ([], g)) = rows.graphs)
      (h : ∀ r ∈ rows, Denotes heap path r.2.1 r.2.2) :
      Denotes heap path (.list items) (.list (rows.values.map Prod.snd))
  | record {path : List Nat} (rows : Members) (h : ∀ r ∈ rows, Denotes heap path r.2.1 r.2.2) :
      Denotes heap path (.record rows.graphs) (.record rows.values)
  | object {path : List Nat} {g : Graph} {id : Nat} (rows : Members) (hg : g.number? = some id) (hid : id ∉ path)
      (hk : heap.find? id = some (id, rows.graphs)) (h : ∀ r ∈ rows, Denotes heap (id :: path) r.2.1 r.2.2) :
      Denotes heap path g (.object (heap.className id) rows.values)

theorem Members.values_filter (h : ∀ r ∈ rows, r.2.2.isNull = r.2.1.isNull) (q : Text → Bool → Bool) :
    Members.values (rows.filter fun r => q r.1 r.2.1.isNull) = rows.values.filter fun f => q f.1 f.2.isNull := by
  rw [values, values, List.filter_map]
  exact congrArg _ (List.filter_congr fun r hr => by rw [Function.comp, h r hr])

theorem Denotes.isNull (h : Denotes heap path g v) : v.isNull = g.isNull := by
  cases h with
  | leaf | list | record => rfl
  | object _ hg => cases g <;> first | rfl | cases hg

end Graph

namespace Visitor

open Graph (Members Denotes)

variable {σ ρ : Type} {V : Visitor σ ρ} {F : Graph → Value → σ → Except Failure (ρ × σ)} {rows : Members}

/-- The answers for parts one after the other. -/
def all (F : Graph → Value → σ → Except Failure (ρ × σ)) : Members → σ → Except Failure (List (Text × ρ) × σ)
  | [], s => .ok ([], s)
  | (name, g, v) :: rest, s => do
    let (r, s) ← F g v s
    let (rs, s) ← all F rest s
    return ((name, r) :: rs, s)

/-- The answer for a list or record by the answers for its items. -/
def whole (V : Visitor σ ρ) (F : Graph → Value → σ → Except Failure (ρ × σ)) (g : Graph) (rows : Members) (s : σ) :
    Except Failure (ρ × σ) := do
  let (rs, now) ← all F rows (V.enter s)
  return (V.combine s now g rs, V.leave now)

/-- The recursive definition that a visitor follows. -/
structure Follows (V : Visitor σ ρ) (F : Graph → Value → σ → Except Failure (ρ × σ)) : Prop where
  leaf : ∀ v s, v.IsScalar → F (.leaf v) v s = (V.leaf v).map (·, s)
  list : ∀ items (rows : Members) s, items.map (fun g => ([], g)) = rows.graphs →
    F (.list items) (.list (rows.values.map Prod.snd)) s = V.whole F (.list items) rows s
  record : ∀ (rows : Members) s, (∀ r ∈ rows, r.2.2.isNull = r.2.1.isNull) → F (.record rows.graphs) (.record rows.values) s =
    V.whole F (.record rows.graphs) (rows.filter fun r => V.looks s r.1 r.2.1) s
  object : ∀ g id c fields vs s, g.number? = some id → F g (.object c vs) s =
    match V.inside c with
    | none => (F (.record fields) (.record vs) (V.meet c s)).map fun x => (V.object id x.1, x.2)
    | some change =>
      (F (.record fields) (.record vs) (V.meet c (change s))).map fun x => (V.object id x.1, V.restore s x.2)

/-! ## Runs -/

theorem run_eq (m : Machine σ ρ) :
    V.run heap m = if m.stack.isEmpty then .ok m else V.step heap m >>= V.run heap := by
  have : Nonempty (Machine σ ρ) := ⟨m⟩
  refine (repeatM_eq_of_monadTail m).trans ?_
  unfold repeatM.body round
  split
  · rfl
  · cases V.step heap m <;> rfl

theorem run_next {m m' : Machine σ ρ} (h : V.step heap m = .ok m')
    (hs : m.stack.isEmpty = false) : V.run heap m = V.run heap m' := by
  rw [run_eq, hs, h]
  rfl

/-- The machine answers a part as the definition says, and all else is as before. -/
def Answers (V : Visitor σ ρ) (heap : Heap)
    (F : Graph → Value → σ → Except Failure (ρ × σ)) (table : Table Nat Bool) (g : Graph) (v : Value) : Prop :=
  ∀ rest last s, V.run heap ⟨.part g :: rest, last, table, s⟩ =
    F g v s >>= fun x => V.run heap ⟨rest, some x.1, table, x.2⟩

section

variable {table : Table Nat Bool} {rest : List (Entry σ ρ)} {last : Option ρ} {s : σ} {of : Option Nat}

theorem run_answer (r : ρ) : V.run heap ⟨.routine (.answer r) of :: rest, last, table, s⟩ =
    V.run heap ⟨rest, some r, of.elim table fun id => Table.erase id table, s⟩ :=
  (run_next rfl rfl).trans ((run_next rfl rfl).trans (run_next rfl rfl))

theorem run_ofExcept (x : Except Failure ρ) : V.run heap ⟨.routine (.ofExcept x) none :: rest, last, table, s⟩ =
    x >>= fun r => V.run heap ⟨rest, some r, table, s⟩ := by
  cases x with
  | ok r => exact run_answer r
  | error e => rw [run_eq]; rfl

theorem run_items (h : ∀ r ∈ rows, Answers V heap F table r.2.1 r.2.2) (g : Graph) (start : σ)
    (done : List (Text × ρ)) : V.run heap ⟨.routine (V.items g start rows.graphs done) none :: rest, last, table, s⟩ =
      all F rows s >>= fun x => V.run heap ⟨rest, some (V.combine start x.2 g (done ++ x.1)), table, V.leave x.2⟩ := by
  induction rows generalizing done s last with
  | nil =>
    refine (run_next rfl rfl).trans ((run_next rfl rfl).trans ((run_answer _).trans ?_))
    exact congrArg (fun done => V.run heap ⟨rest, some (V.combine start s g done), table, V.leave s⟩)
      (List.append_nil done).symm
  | cons r rows ih =>
    refine (run_next rfl rfl).trans ((h r (by simp) ..).trans ?_)
    simp only [all]
    cases F r.2.1 r.2.2 s with
    | error e => rfl
    | ok x =>
      refine (run_next rfl rfl).trans ((ih (fun r hr => h r (by simp [hr])) _).trans ?_)
      cases hx : all F rows x.2 with
      | error e => simp [hx, bind, Except.bind]
      | ok y => simp [hx, bind, Except.bind, pure, Except.pure]

/-- The items of a list or record are answered. -/
theorem run_whole (h : ∀ r ∈ rows, Answers V heap F table r.2.1 r.2.2)
    (hg : V.step heap ⟨.part g :: rest, last, table, s⟩ = .ok ⟨.routine (V.visitItems g) none :: rest, last, table, s⟩)
    (hr : V.itemsOf s g = rows.graphs) : V.run heap ⟨.part g :: rest, last, table, s⟩ =
      V.whole F g rows s >>= fun x => V.run heap ⟨rest, some x.1, table, x.2⟩ := by
  refine (run_next hg rfl).trans ((run_next rfl rfl).trans ((run_next rfl rfl).trans ?_))
  dsimp only
  rw [hr, run_items h, whole]
  cases all F rows (V.enter s) <;> rfl

theorem answers_record (hF : Follows V F) (hd : ∀ r ∈ rows, Denotes heap path r.2.1 r.2.2)
    (h : ∀ r ∈ rows, Answers V heap F table r.2.1 r.2.2) :
    Answers V heap F table (.record rows.graphs) (.record rows.values) := by
  intro rest last s
  rw [hF.record rows s fun r hr => (hd r hr).isNull]
  refine run_whole (fun r hr => h r (List.mem_of_mem_filter hr)) rfl ?_
  simp only [itemsOf, Members.graphs, List.filter_map]
  rfl

end

/-- An object is answered by way of its fields, and at the end it is not in the table. -/
theorem answers_object (hF : Follows V F) {id : Nat} {table : Table Nat Bool}
    (hg : g.number? = some id) (hk : heap.find? id = some (id, rows.graphs)) (ht : Table.get? id table = none)
    (h : ∀ table', Table.erase id table' = table →
      Answers V heap F table' (.record rows.graphs) (.record rows.values)) :
    Answers V heap F table g (.object (heap.className id) rows.values) := by
  have hcall (g : Graph) (hg : g.number? = some id) (rest last table s) :
      V.step heap ⟨.part g :: rest, last, table, s⟩ =
        .ok (V.call (heap.className id) (id, rows.graphs) rest ⟨.part g :: rest, last, table, s⟩) := by
    cases g <;> cases hg <;> simp only [step, hk]
  have herase (b : Bool) : Table.erase id (Table.set id b table) = table := by
    rw [Table.erase_set, Table.erase_of_get? ht]
  -- the routine for an object, wherever it is started
  have hobject (table' rest last s) (ht' : Table.erase id table' = table) :
      V.run heap ⟨.routine (V.visitObject id (heap.className id) rows.graphs) (some id) :: rest, last, table', s⟩ =
        F (.record rows.graphs) (.record rows.values) (V.meet (heap.className id) s) >>= fun x =>
          V.run heap ⟨rest, some (V.object id x.1), table, x.2⟩ := by
    refine (run_next rfl rfl).trans ((run_next rfl rfl).trans ((run_next rfl rfl).trans ((h _ ht' ..).trans ?_)))
    refine congrArg (_ >>= ·) (funext fun x => (run_next rfl rfl).trans ((run_answer _).trans ?_))
    rw [Option.elim_some, ht']
  intro rest last s
  rw [hF.object g id _ rows.graphs rows.values s hg]
  refine (run_next (hcall g hg ..) rfl).trans ?_
  cases hinside : V.inside (heap.className id) with
  | none =>
    simp only [call, ht, hinside]
    refine (hobject _ _ _ _ (herase true)).trans ?_
    cases F (.record rows.graphs) (.record rows.values) (V.meet (heap.className id) s) <;> rfl
  | some change =>
    simp only [call, ht, hinside]
    refine (run_next rfl rfl).trans ((run_next rfl rfl).trans ((run_next rfl rfl).trans ?_))
    refine (run_next (hcall (.ref id) rfl ..) rfl).trans ?_
    simp only [call, Table.get?_set_self, hinside]
    refine (hobject _ _ _ _ ?_).trans ?_
    · rw [Table.erase_set, herase]
    cases F (.record rows.graphs) (.record rows.values) (V.meet (heap.className id) (change s)) with
    | error e => rfl
    | ok x =>
      refine (run_next rfl rfl).trans ((run_next rfl rfl).trans ((run_next rfl rfl).trans ((run_next rfl rfl).trans ?_)))
      simp only [Option.elim_some, Table.erase_of_get? ht]
      rfl

/-- The objects in the table are those of the path, so an object that is met is not in it. -/
theorem answers (hF : Follows V F) (hd : Denotes heap path g v) (table : Table Nat Bool)
    (ht : ∀ id b, Table.get? id table = some b → id ∈ path) : Answers V heap F table g v := by
  induction hd generalizing table with
  | @leaf path v hv =>
    intro rest last s
    rw [hF.leaf v s hv]
    refine (run_next rfl rfl).trans ((run_ofExcept _).trans ?_)
    cases V.leaf v <;> rfl
  | @list path items rows hi _ ih =>
    intro rest last s
    rw [hF.list items rows s hi]
    exact run_whole (fun r hr => ih r hr table ht) rfl hi
  | record rows hd ih => exact answers_record hF hd fun r hr => ih r hr table ht
  | @object path g id rows hg hid hk hd ih =>
    have hnone : Table.get? id table = none := Option.eq_none_iff_forall_ne_some.mpr fun b hb => hid (ht id b hb)
    refine answers_object hF hg hk hnone fun table' herase => answers_record hF hd fun r hr => ih r hr table' ?_
    intro id' b hb
    by_cases heq : id' = id
    · exact heq ▸ List.mem_cons_self
    · rw [← Table.get?_erase_of_ne heq, herase] at hb
      exact List.mem_cons_of_mem id (ht id' b hb)

theorem all_plain (rows : Members) (s : Unit) : all (fun _ v s => .ok (v.plain, s)) rows s =
    .ok (rows.values.map fun f => (f.1, f.2.plain), s) := by
  induction rows with
  | nil => rfl
  | cons r rows ih => simp only [all, ih]; rfl

theorem plainItems_eq (l : List (Text × Value)) :
    Value.plainItems (l.map Prod.snd) = (l.map fun f => (f.1, f.2.plain)).map Prod.snd := by
  induction l with
  | nil => rfl
  | cons f l ih => exact congrArg (f.2.plain :: ·) ih

theorem plainFields_eq (l : List (Text × Value)) : Value.plainFields l =
    ((l.filter fun f => !(f.2.isNull || Value.isHidden f.1)).map fun f => (f.1, f.2.plain)).map
      fun f => (Value.shownName f.1, f.2) := by
  induction l with
  | nil => rfl
  | cons f l ih =>
    rw [Value.plainFields, List.filter_cons]
    cases f.2.isNull || Value.isHidden f.1 with
    | true => exact ih
    | false => exact congrArg ((Value.shownName f.1, f.2.plain) :: ·) ih

theorem plainVisitor_follows : plainVisitor.Follows fun _ v s => .ok (v.plain, s) where
  leaf v s hv := by cases v <;> first | rfl | cases hv
  list items rows s _ := by
    rw [whole, all_plain, Value.plain, plainItems_eq]
    rfl
  record rows s h := by
    have hshown : Members.values (rows.filter fun r => plainVisitor.looks s r.1 r.2.1) = _ :=
      Members.values_filter h fun name isNull => !(isNull || Value.isHidden name)
    rw [whole, all_plain, hshown, Value.plain, plainFields_eq]
    rfl
  object g id c fields vs s _ := rfl

/-- The texts of values with their names. -/
def texts (s : Value.Layout × Nat) : List (Text × Value) → Except Failure (List (Text × Text))
  | [] => .ok []
  | (name, v) :: rest => do
    let t ← v.print s.1 s.2
    return (name, t) :: (← texts s rest)

theorem all_text (rows : Members) (s : Value.Layout × Nat) :
    all (fun _ v s => (v.print s.1 s.2).map (·, s)) rows s = (texts s rows.values).map (·, s) := by
  induction rows with
  | nil => rfl
  | cons r rows ih =>
    simp only [all, Members.values, List.map_cons, texts]
    cases Value.print s.1 s.2 r.2.2 with
    | error e => rfl
    | ok t =>
      change (all _ rows s >>= _) = Except.map _ (texts s (Members.values rows) >>= _)
      rw [ih]
      cases texts s (Members.values rows) <;> rfl

theorem printItems_eq (l : Value.Layout) (level : Nat) (fields : List (Text × Value)) :
    Value.printItems l level (fields.map Prod.snd) = (texts (l, level) fields).map (List.map Prod.snd) := by
  induction fields with
  | nil => rfl
  | cons f fields ih =>
    simp only [List.map_cons, Value.printItems, ih, texts]
    cases Value.print l level f.2 with
    | error e => rfl
    | ok t => cases texts (l, level) fields <;> rfl

theorem printFields_eq (l : Value.Layout) (level : Nat) (fields : List (Text × Value)) :
    Value.printFields l level fields =
      (texts (l, level) (fields.filter fun f => !(f.2.isNull || Value.isHidden f.1 || l.skipped.contains f.1))).map
        (List.map fun f => f.1 ++ Text.ofString ": " ++ f.2) := by
  induction fields with
  | nil => rfl
  | cons f fields ih =>
    rw [Value.printFields, List.filter_cons, ih]
    cases f.2.isNull || Value.isHidden f.1 || l.skipped.contains f.1 with
    | true => rfl
    | false =>
      generalize fields.filter _ = shown
      change _ = Except.map _ (Value.print l level f.2 >>= fun t => texts (l, level) shown >>= _)
      cases Value.print l level f.2 with
      | error e => rfl
      | ok t => cases texts (l, level) shown <;> rfl

theorem textVisitor_follows : textVisitor.Follows fun _ v s => (v.print s.1 s.2).map (·, s) where
  leaf v s hv := by cases v <;> first | rfl | cases hv
  list items rows s _ := by
    rw [whole, all_text, Value.print, printItems_eq]
    change _ = Except.map _ (texts (s.1, s.2 + 1) rows.values) >>= _
    cases texts (s.1, s.2 + 1) rows.values <;> rfl
  record rows s h := by
    have hshown : Members.values (rows.filter fun r => textVisitor.looks s r.1 r.2.1) = _ :=
      Members.values_filter h fun name isNull => !(isNull || Value.isHidden name || s.1.skipped.contains name)
    rw [whole, all_text, hshown, Value.print, printFields_eq]
    generalize rows.values.filter _ = shown
    change _ = Except.map _ (texts (s.1, s.2 + 1) shown) >>= _
    cases texts (s.1, s.2 + 1) shown <;> rfl
  object g id c fields vs s _ := by
    cases hc : c == "SourceLocation" with
    | true =>
      simp only [textVisitor, hc, if_true, Value.print]
      cases Value.printFields s.1.flat (s.2 + 1) vs <;> rfl
    | false =>
      simp only [textVisitor, hc, Bool.false_eq_true, if_false, Value.print]
      cases Value.printFields s.1 (s.2 + 1) vs <;> rfl

/-! ## Walks -/

/-- An object is answered by its number. -/
def self : Graph → Graph
  | .object id _ => .ref id
  | g => g

/-- What a walk does, wherever it is. -/
def walkOn (g : Graph) (v : Value) (met : List String) : Except Failure (Graph × List String) :=
  (v.walk []).map fun more => (self g, met ++ more)

theorem all_walk (rows : Members) (met : List String) : all walkOn rows met =
    (Value.walkItems [] (rows.values.map Prod.snd)).map fun more => (rows.graphs.map fun f => (f.1, self f.2), met ++ more) := by
  induction rows generalizing met with
  | nil => exact congrArg (fun met => Except.ok ([], met)) (List.append_nil met).symm
  | cons r rows ih =>
    simp only [all, walkOn, Members.values, List.map_cons, Value.walkItems]
    cases Value.walk [] r.2.2 with
    | error e => rfl
    | ok more =>
      change (all walkOn rows (met ++ more) >>= _) = Except.map _ (Value.walkItems [] _ >>= _)
      rw [ih]
      change _ = Except.map _ (Value.walkItems [] ((Members.values rows).map Prod.snd) >>= _)
      cases Value.walkItems [] ((Members.values rows).map Prod.snd) with
      | error e => rfl
      | ok rest => exact congrArg (fun met => Except.ok (_, met)) (List.append_assoc met more rest)

theorem walkFields_eq (l : List (Text × Value)) :
    Value.walkFields [] l = Value.walkItems [] ((l.filter fun f => !Value.isHidden f.1).map Prod.snd) := by
  induction l with
  | nil => rfl
  | cons f l ih =>
    rw [Value.walkFields, List.filter_cons, ih]
    cases Value.isHidden f.1 <;> rfl

theorem walker_follows : walker.Follows walkOn where
  leaf v met hv := by
    have hwalk : v.walk [] = .ok [] := by cases v <;> first | rfl | cases hv
    rw [walkOn, hwalk]
    exact congrArg (fun met => Except.ok (_, met)) (List.append_nil met)
  list items rows met _ := by
    rw [whole, all_walk, walkOn, Value.walk]
    cases Value.walkItems [] (rows.values.map Prod.snd) <;> rfl
  record rows met h := by
    have hshown : Members.values (rows.filter fun r => walker.looks met r.1 r.2.1) = _ :=
      Members.values_filter h fun name _ => !Value.isHidden name
    rw [whole, all_walk, hshown, walkOn, Value.walk, walkFields_eq]
    generalize (rows.values.filter _).map _ = shown
    cases Value.walkItems [] shown <;> rfl
  object g id c fields vs met hg := by
    have hself : self g = .ref id := by cases g <;> cases hg <;> rfl
    simp only [walkOn, hself, Value.walk, List.contains_nil, walker]
    cases Value.walkFields [] vs with
    | error e => rfl
    | ok more => exact congrArg (fun met => Except.ok (_, met)) (List.append_cons met c more)

theorem walkItems_returns {l : List Value} (h : ∀ v ∈ l, ∃ met, v.walk [] = .ok met) :
    ∃ met, Value.walkItems [] l = .ok met := by
  induction l with
  | nil => exact ⟨[], rfl⟩
  | cons v l ih =>
    obtain ⟨met, hmet⟩ := h v (by simp)
    obtain ⟨more, hmore⟩ := ih fun v hv => h v (by simp [hv])
    exact ⟨met ++ more, by rw [Value.walkItems, hmet, hmore]; rfl⟩

/-- A walk through a value never meets an object inside itself. -/
theorem walk_returns (hd : Denotes heap path g v) : ∃ met, v.walk [] = .ok met := by
  have hfields {rows : Members} (ih : ∀ r ∈ rows, ∃ met, r.2.2.walk [] = .ok met) :
      ∃ met, Value.walkFields [] rows.values = .ok met := by
    rw [walkFields_eq]
    refine walkItems_returns fun v hv => ?_
    obtain ⟨f, hf, rfl⟩ := List.mem_map.mp hv
    obtain ⟨r, hr, rfl⟩ := List.mem_map.mp (List.mem_of_mem_filter hf)
    exact ih r hr
  induction hd with
  | @leaf _ v hv => exact ⟨[], by cases v <;> first | rfl | cases hv⟩
  | list rows _ _ ih =>
    refine walkItems_returns fun v hv => ?_
    obtain ⟨f, hf, rfl⟩ := List.mem_map.mp hv
    obtain ⟨r, hr, rfl⟩ := List.mem_map.mp hf
    exact ih r hr
  | record rows _ ih => exact hfields ih
  | object rows _ _ _ _ ih =>
    obtain ⟨met, hmet⟩ := hfields ih
    exact ⟨_, by rw [Value.walk, hmet]; rfl⟩

theorem visit_eq (hF : Follows V F) (hd : Denotes heap [] g v) (s : σ) :
    V.visit heap g s = (F g v s).map fun x => ⟨[], some x.1, [], x.2⟩ := by
  refine (answers hF hd [] (by simp [Table.get?]) [] none s).trans ?_
  cases F g v s with
  | error e => rfl
  | ok x =>
    change V.run heap _ = _
    rw [run_eq]
    rfl

/-- A graph that does not lead back into itself is turned into the value without classes that it stands for, and is
walked through in the order of its objects. No object is left in the table. -/
theorem visit_plain_and_walk (heap : Heap) (g : Graph) (v : Value) (hd : Denotes heap [] g v) :
    plainVisitor.visit heap g () = .ok ⟨[], some v.plain, [], ()⟩ ∧
      ∃ met, v.walk [] = .ok met ∧ walker.visit heap g [] = .ok ⟨[], some (self g), [], met⟩ := by
  refine ⟨visit_eq plainVisitor_follows hd (), ?_⟩
  obtain ⟨met, hmet⟩ := walk_returns hd
  refine ⟨met, hmet, (visit_eq walker_follows hd []).trans ?_⟩
  rw [walkOn, hmet]
  rfl

/-- An object that is twice in another. -/
def shared (className : Nat → String) : Heap where
  objects := [(0, [([0x61], .ref 1), ([0x62], .ref 1)]), (1, [([0x63], .leaf (.bool true))])]
  className := className

theorem shared_denotes (className : Nat → String) :
    let inner : Value := .object (className 1) [([0x63], .bool true)]
    Denotes (shared className) [] (.ref 0) (.object (className 0) [([0x61], inner), ([0x62], inner)]) := by
  intro inner
  have hinner : Denotes (shared className) [0] (.ref 1) inner :=
    .object [([0x63], .leaf (.bool true), .bool true)] rfl (by decide) rfl (by simpa using .leaf trivial)
  exact .object [([0x61], .ref 1, inner), ([0x62], .ref 1, inner)] rfl (by decide) rfl (by simpa using hinner)

theorem visit_plain_and_walk_shared : ∃ v, Denotes (shared fun _ => "Object") [] (.ref 0) v ∧
    plainVisitor.visit (shared fun _ => "Object") (.ref 0) () = .ok ⟨[], some v.plain, [], ()⟩ ∧
      ∃ met, v.walk [] = .ok met ∧ walker.visit (shared fun _ => "Object") (.ref 0) [] = .ok ⟨[], some (.ref 0), [], met⟩ :=
  ⟨_, shared_denotes _, visit_plain_and_walk _ _ _ (shared_denotes _)⟩

/-- A graph that does not lead back into itself is written as the value that it stands for, and the notes are what they
were. -/
theorem visit_text (heap : Heap) (g : Graph) (v : Value) (hd : Denotes heap [] g v) (l : Value.Layout) (level : Nat) :
    textVisitor.visit heap g (l, level) = (v.print l level).map fun t => ⟨[], some t, [], (l, level)⟩ := by
  rw [visit_eq textVisitor_follows hd]
  cases v.print l level <;> rfl

/-- The inner object is on one line. -/
theorem visit_text_location : ∃ v, Denotes (shared fun id => if id = 0 then "Object" else "SourceLocation") [] (.ref 0) v ∧
    textVisitor.visit (shared fun id => if id = 0 then "Object" else "SourceLocation") (.ref 0) ({}, 0) =
      (v.print {} 0).map fun t => ⟨[], some t, [], ({}, 0)⟩ :=
  ⟨_, shared_denotes _, visit_text _ _ _ (shared_denotes _) {} 0⟩

end Visitor

end ScriptTree
