import Mathlib.Data.List.TakeWhile
import ScriptTree.Editor.Query
import ScriptTree.Proofs.Editor.Exports

/-! # Reports on imports

When the imports of a view are looked up, the paths of the reports are searched for in the paths of the
imports, each from where the search before it ended. So no report on another path is kept, and all others are
kept exactly if they come first and in the order of the imports (`InOrder`). -/

namespace ScriptTree.Editor

variable {before paths : List Text} {reports : Table Text Report} {w : World} {P : Memory → Prop} {α β : Type}
  {path : Text}

/-- The action keeps a property of the memory, whether it fails or not. -/
def Preserves (w : World) (P : Memory → Prop) (p : Editor α) : Prop := ∀ m, P m → P (after p w m)

namespace Preserves

theorem pure (a : α) : Preserves w P (Pure.pure a : Editor α) := fun _ h => h

theorem throw (f : Failure) : Preserves w P (MonadExcept.throw f : Editor α) := fun _ h => h

theorem ofExcept (r : Except Failure α) : Preserves w P (Editor.ofExcept r) := by
  cases r with
  | ok a => exact pure a
  | error f => exact throw f

theorem bind {p : Editor α} {f : α → Editor β} (hp : Preserves w P p) (hf : ∀ a, Preserves w P (f a)) :
    Preserves w P (p >>= f) := by
  intro m hm
  have hm' := hp m hm
  unfold after at hm' ⊢
  cases h : p w m with
  | ok a m' =>
    rw [h] at hm'
    rw [bind_ok f h]
    exact hf a m' hm'
  | error e m' =>
    rw [h] at hm'
    rw [bind_error f h]
    exact hm'

theorem read {f : World → Editor β} (hf : Preserves w P (f w)) : Preserves w P (MonadReader.read >>= f) := hf

theorem get {f : Memory → Editor β} (hf : ∀ m, P m → P (after (f m) w m)) : Preserves w P (MonadState.get >>= f) := hf

end Preserves

def importPaths (v : View) : List Text := (imports v).map fun i => i.2.1

/-- A path is imported by a clause at the head of the view, and no later clause imports another under the
same name. -/
def Imports (v : View) (path : Text) : Prop :=
  ∃ before offset clause after,
    importClauses (v.text.take headLength) = before ++ (offset, clause) :: after ∧
      clause.path = path ∧ ∀ c ∈ after, c.2.name ≠ clause.name

theorem mem_importPaths {v : View} : path ∈ importPaths v ↔ Imports v path := by
  simp only [importPaths, imports, List.mem_map]
  constructor
  · rintro ⟨⟨name, path, region⟩, hmem, rfl⟩
    obtain ⟨before, after, hl, hafter⟩ := Table.mem_ofEntries.mp hmem
    obtain ⟨before, rest, hclauses, -, hrest⟩ := List.map_eq_append_iff.mp hl
    obtain ⟨⟨offset, clause⟩, after, rfl, hentry, rfl⟩ := List.map_eq_cons_iff.mp hrest
    obtain ⟨rfl, rfl, -⟩ : clause.name = name ∧ clause.path = path ∧ _ := by simpa using hentry
    exact ⟨before, offset, clause, after, hclauses, rfl, fun c hc => hafter _ (List.mem_map_of_mem hc)⟩
  · rintro ⟨before, offset, clause, after, hclauses, rfl, hafter⟩
    refine ⟨_, Table.mem_ofEntries.mpr ⟨_, _, by rw [hclauses, List.map_append, List.map_cons], ?_⟩, rfl⟩
    intro e he
    obtain ⟨c, hc, rfl⟩ := List.mem_map.mp he
    exact hafter c hc

theorem membersOf_preserves (j : Json) : Preserves w P (membersOf j) := by
  cases j <;> first | exact .pure _ | exact .throw _

/-- What needs no import is read and remembered, and nothing else is changed. -/
theorem globals_preserves (hload : ∀ m, P m → P { m with effects := m.effects ++ [.load resourceName] })
    (hset : ∀ m known, P m → P { m with globals := some known }) : Preserves w P globals := by
  refine .get fun m hm => ?_
  cases m.globals with
  | some known => exact hm
  | none =>
    have hact : Preserves w P (act (.load resourceName)) := hload
    refine hact.bind (fun _ => .read (.bind (.ofExcept _) fun found => ?_)) m hm
    by_cases hf : found.isPresent = true
    · simp only [hf, if_true]
      exact .bind (fun m => hset m found) fun _ => .pure _
    · simp only [hf]
      exact .pure _

theorem after_origins {m : Memory} (hload : ∀ m, P m → P { m with effects := m.effects ++ [.load resourceName] })
    (hset : ∀ m known, P m → P { m with globals := some known })
    (h : P { m with reports := stillImported m.reports (importPaths w.view) }) : P (after origins w m) := by
  have hrest := Preserves.bind (globals_preserves (w := w) hload hset)
    fun known => Preserves.bind (membersOf_preserves known) fun members =>
      Preserves.pure (members.foldl (fun all e => Table.set e.1 (.given e.2) all)
        ((imports w.view).map fun i => (i.1, Origin.imported i.2.1 i.2.2)))
  exact hrest _ h

theorem origins_after (m : Memory) : (after origins w m).reports = stillImported m.reports (importPaths w.view) ∧
      (after origins w m).modules = m.modules :=
  after_origins (P := fun m' => m'.reports = stillImported m.reports (importPaths w.view) ∧ m'.modules = m.modules)
    (fun _ h => h) (fun _ _ h => h) ⟨rfl, rfl⟩

/-! ## Reports that are kept -/

/-- The reports on imported paths come first, in the order of the imports. -/
def InOrder (reports : Table Text Report) (paths : List Text) : Prop :=
  ∃ kept gone, reports = kept ++ gone ∧ (Table.keys kept).Sublist paths ∧ ∀ e ∈ gone, e.1 ∉ paths

theorem stillImported_missed (r : Report) (rest : Table Text Report)
    (h : path ∉ paths) : stillImported ((path, r) :: rest) paths = stillImported rest [] := by
  have hdrop : paths.dropWhile (fun p => p != path) = [] :=
    List.dropWhile_eq_nil_iff.mpr fun p hp => by simpa using ne_of_mem_of_not_mem hp h
  simp [stillImported, hdrop]

theorem stillImported_found (r : Report) (rest : Table Text Report) (after : List Text) (h : path ∉ before) :
    stillImported ((path, r) :: rest) (before ++ path :: after) = (path, r) :: stillImported rest after := by
  have hdrop : (before ++ path :: after).dropWhile (fun p => p != path) = path :: after := by
    rw [List.dropWhile_append_of_pos fun p hp => by simpa using ne_of_mem_of_not_mem hp h]
    simp
  simp [stillImported, hdrop]

@[simp] theorem stillImported_nil (reports : Table Text Report) : stillImported reports [] = [] := by
  induction reports with
  | nil => rfl
  | cons e reports ih => rw [stillImported_missed _ _ List.not_mem_nil, ih]

theorem stillImported_sublist (reports : Table Text Report) (paths : List Text) :
    (stillImported reports paths).Sublist reports := by
  induction reports generalizing paths with
  | nil => exact .slnil
  | cons x reports ih =>
    by_cases hx : x.1 ∈ paths
    · obtain ⟨before, after, rfl, hbefore⟩ := List.eq_append_cons_of_mem hx
      rw [stillImported_found _ _ _ hbefore]
      exact (ih after).cons_cons x
    · rw [stillImported_missed _ _ hx, stillImported_nil]
      exact List.nil_sublist _

/-- No report on another path is kept. -/
theorem mem_of_mem_stillImported {e : Text × Report}
    (h : e ∈ stillImported reports paths) : e ∈ reports ∧ e.1 ∈ paths := by
  refine ⟨(stillImported_sublist reports paths).subset h, ?_⟩
  induction reports generalizing paths with
  | nil => cases h
  | cons x reports ih =>
    by_cases hx : x.1 ∈ paths
    · obtain ⟨before, after, rfl, hbefore⟩ := List.eq_append_cons_of_mem hx
      rw [stillImported_found _ _ _ hbefore] at h
      rcases List.mem_cons.mp h with rfl | h
      · simp
      · simp [ih h]
    · rw [stillImported_missed _ _ hx, stillImported_nil] at h
      cases h

theorem sublist_of_cons_sublist {l after : List Text} (hb : path ∉ before)
    (h : (path :: l).Sublist (before ++ path :: after)) : l.Sublist after := by
  induction before with
  | nil => exact List.cons_sublist_cons.mp h
  | cons b before ih =>
    cases h with
    | cons _ h => exact ih (fun hm => hb (List.mem_cons_of_mem _ hm)) h
    | cons_cons => exact absurd List.mem_cons_self hb

/-- The search in the paths that are left finds every report on a path of the list exactly if these reports come
first, in the order of the paths that are left. -/
theorem stillImported_complete_iff {all : List Text} (hkeys : (Table.keys reports).Nodup) (hall : paths ⊆ all) :
    (∀ e ∈ reports, e.1 ∈ all → e ∈ stillImported reports paths) ↔
      ∃ kept gone, reports = kept ++ gone ∧ (Table.keys kept).Sublist paths ∧ ∀ e ∈ gone, e.1 ∉ all := by
  induction reports generalizing paths with
  | nil => simp [Table.keys]
  | cons x reports ih =>
    obtain ⟨hnot, hrest⟩ := List.nodup_cons.mp (show (x.1 :: Table.keys reports).Nodup from hkeys)
    by_cases hx : x.1 ∈ paths
    · obtain ⟨before, after, rfl, hbefore⟩ := List.eq_append_cons_of_mem hx
      rw [stillImported_found _ _ _ hbefore]
      have ih := ih hrest fun p hp => hall (List.mem_append_right _ (List.mem_cons_of_mem _ hp))
      constructor
      · intro h
        have hfound : ∀ e ∈ reports, e.1 ∈ all → e ∈ stillImported reports after := by
          intro e he hin
          rcases List.mem_cons.mp (h e (List.mem_cons_of_mem _ he) hin) with rfl | h
          · exact absurd (List.mem_map_of_mem he) hnot
          · exact h
        obtain ⟨kept, gone, rfl, hkept, hgone⟩ := ih.mp hfound
        exact ⟨x :: kept, gone, rfl, (hkept.cons_cons x.1).trans (List.sublist_append_right _ _), hgone⟩
      · rintro ⟨kept, gone, heq, hkept, hgone⟩ e he hin
        cases kept with
        | nil =>
          obtain rfl : x :: reports = gone := heq
          exact absurd (hall hx) (hgone x List.mem_cons_self)
        | cons y kept =>
          obtain ⟨rfl, rfl⟩ := List.cons.inj heq
          rcases List.mem_cons.mp he with rfl | he
          · exact List.mem_cons_self
          · have h := ih.mpr ⟨kept, gone, rfl, sublist_of_cons_sublist hbefore hkept, hgone⟩
            exact List.mem_cons_of_mem _ (h e he hin)
    · rw [stillImported_missed _ _ hx, stillImported_nil]
      constructor
      · intro h
        exact ⟨[], x :: reports, rfl, List.nil_sublist _, fun e he hin => List.not_mem_nil (h e he hin)⟩
      · rintro ⟨kept, gone, heq, hkept, hgone⟩ e he hin
        cases kept with
        | nil =>
          obtain rfl : x :: reports = gone := heq
          exact absurd hin (hgone e he)
        | cons y kept =>
          obtain ⟨rfl, -⟩ := List.cons.inj heq
          exact absurd (hkept.subset List.mem_cons_self) hx

/-- Looking up the imports keeps no report on a path that is not imported, and keeps all others exactly if they
come first, in the order of the imports. -/
theorem origins_keeps_iff {m : Memory} (hkeys : (Table.keys m.reports).Nodup) :
    (∀ e ∈ (after origins w m).reports, e ∈ m.reports ∧ Imports w.view e.1) ∧
      ((∀ e ∈ m.reports, Imports w.view e.1 → e ∈ (after origins w m).reports) ↔
        InOrder m.reports (importPaths w.view)) := by
  simp only [(origins_after m).1, ← mem_importPaths]
  exact ⟨fun e he => mem_of_mem_stillImported he, stillImported_complete_iff hkeys (List.Subset.refl _)⟩

/-- The report on a path that is no longer imported comes last. -/
theorem origins_keeps_first :
    let text := Text.ofString "import * as a from './a.js'\nimport * as b from './b.js'"
    let r : Report := ⟨⟨20, 26⟩, .missing⟩
    let m : Memory := { reports := [(Text.ofString "./a.js", r), (Text.ofString "./c.js", r)] }
    let w : World := { view := { text } }
    InOrder m.reports (importPaths w.view) ∧
      ∀ e ∈ m.reports, Imports w.view e.1 → e ∈ (after origins w m).reports := by
  intro text r m w
  have hpaths : importPaths w.view = [Text.ofString "./a.js", Text.ofString "./b.js"] := by decide
  have hkeys : (Table.keys m.reports).Nodup := by decide
  have horder : InOrder m.reports (importPaths w.view) := by
    rw [hpaths]
    exact ⟨[(Text.ofString "./a.js", r)], [(Text.ofString "./c.js", r)], rfl, by simp [Table.keys], by decide⟩
  exact ⟨horder, (origins_keeps_iff hkeys).2.mpr horder⟩

/-- Completions that were asked for in another order than that of the imports. -/
theorem origins_drops_imported :
    let text := Text.ofString "import * as a from './a.js'\nimport * as b from './b.js'\na.b."
    let w : World :=
      { resource := Text.ofString "\x7b\x7d",
        view := { text, file := some (Text.ofString "v.js"), scope := Text.ofString "source.js" } }
    let m := after (query [60, 58]) w {}
    Table.keys m.reports = [Text.ofString "./b.js", Text.ofString "./a.js"] ∧
      Imports w.view (Text.ofString "./a.js") ∧
      Table.keys (after origins w m).reports = [Text.ofString "./b.js"] := by
  intro text w m
  exact ⟨by decide +kernel, mem_importPaths.mp (by decide +kernel), by decide +kernel⟩

end ScriptTree.Editor
