import ScriptTree.Proofs.Editor.Imports

/-! # Sessions

In a session files are written and removed, views are opened and completions are asked for. A request looks up
the imports of the view and the exports of modules, and all else that it does leaves the memory as it is
(`Within`). -/

namespace ScriptTree

namespace Files

variable {place : Option Path} {f : Files} {p path : Path} {b bytes : ByteArray} {t modified : Int}

theorem find_file (h : f.find place = .ok (.file b t)) :
    ∃ p, place = some p ∧ Table.get? p f.items = some (.file b t) := by
  cases place with
  | none => cases h
  | some p =>
    refine ⟨p, rfl, ?_⟩
    unfold find at h
    cases hp : p.parents.forM f.checkDirectory with
    | error e => simp [hp, bind, Except.bind] at h
    | ok u =>
      simp only [hp, bind, Except.bind, item?] at h
      by_cases hnil : p.isEmpty = true
      · simp [hnil] at h
      · simp only [hnil] at h
        cases hget : Table.get? p f.items with
        | none => simp [hget] at h
        | some item => simpa [hget] using h

theorem find_of_modified? (h : f.modified? place = .ok (some t)) : ∃ b, f.find place = .ok (.file b t) := by
  unfold modified? at h
  cases hf : f.find place with
  | error e => simp [hf, bind, Except.bind] at h
  | ok item =>
    cases item with
    | directory => simp [hf, bind, Except.bind] at h
    | file b t' =>
      obtain rfl : t' = t := by simpa [hf, bind, Except.bind] using h
      exact ⟨b, rfl⟩

theorem get?_makeDirectory (h : Table.get? p (f.makeDirectory path).items = some (.file b t)) :
    Table.get? p f.items = some (.file b t) := by
  unfold makeDirectory at h
  generalize path.parents ++ [path] = paths at h
  induction paths generalizing f with
  | nil => exact h
  | cons d paths ih =>
    have hf := ih h
    by_cases hd : (f.item? d).isSome = true
    · simpa [hd] using hf
    · by_cases hdp : d = p
      · subst hdp
        simp [hd] at hf
      · simpa [hd, Table.get?_set_of_ne hdp] using hf

theorem get?_write (h : Table.get? p (f.write path bytes modified).items = some (.file b t)) :
    p = path ∧ b = bytes ∧ t = modified ∨ Table.get? p f.items = some (.file b t) := by
  unfold write at h
  by_cases hp : path = p
  · subst hp
    simp only [Table.get?_set_self, Option.some.injEq, Item.file.injEq] at h
    exact .inl ⟨rfl, h.1.symm, h.2.symm⟩
  · exact .inr (get?_makeDirectory (by simpa [Table.get?_set_of_ne hp] using h))

theorem get?_remove (h : Table.get? p (f.remove path).items = some (.file b t)) :
    Table.get? p f.items = some (.file b t) := by
  unfold remove at h
  rw [Table.get?_filter (fun p => !path.isPrefixOf p) f.items] at h
  split at h
  · exact h
  · cases h

end Files

namespace Editor

/-! ## Runs -/

/-- The world and what the assistant remembers. -/
structure Session where
  world : World := {}
  memory : Memory := {}

/-- What happens in a session. -/
inductive Step where
  | write (path : Path) (bytes : ByteArray) (modified : Int)
  | makeDirectory (path : Path)
  | remove (path : Path)
  | provide (resource : Text)
  | open (view : View)
  | query (points : List Nat)
  | hover (point : Int)

/-- The session after one more step. A request that fails leaves what it has remembered so far. -/
def Session.perform (s : Session) : Step → Session
  | .write path bytes modified => { s with world.files := s.world.files.write path bytes modified }
  | .makeDirectory path => { s with world.files := s.world.files.makeDirectory path }
  | .remove path => { s with world.files := s.world.files.remove path }
  | .provide resource => { s with world.resource := resource }
  | .open view => { s with world.view := view }
  | .query points => { s with memory := after (Editor.query points) s.world s.memory }
  | .hover point => { s with memory := after (Editor.hover point) s.world s.memory }

def Session.run (steps : List Step) : Session := steps.foldl Session.perform {}

/-- What may be remembered in the course of a request: the imports are looked up, and the exports of modules. -/
inductive Within (w : World) (m : Memory) : Memory → Prop
  | start : Within w m m
  | imported {u : Memory} : Within w m u → Within w m (after origins w u)
  | exported {u : Memory} (path : Text) (region : Region) :
    Within w m u → Within w m (after (exports path region) w u)

variable {w : World} {m : Memory} {P : Memory → Prop}

theorem Within.preserves {u : Memory} (h : Within w m u) (ho : Preserves w P origins)
    (he : ∀ path region, Preserves w P (exports path region)) (hm : P m) : P u := by
  induction h with
  | start => exact hm
  | imported _ ih => exact ho _ ih
  | exported path region _ ih => exact he path region _ ih

/-- A property of actions in a world that whatever is put together from such actions has. -/
structure Closed (w : World) (C : {α : Type} → Editor α → Prop) : Prop where
  pure {α : Type} (a : α) : C (Pure.pure a)
  throw {α : Type} (f : Failure) : C (MonadExcept.throw f : Editor α)
  bind {α β : Type} {p : Editor α} {f : α → Editor β} : C p → (∀ a, C (f a)) → C (p >>= f)
  read {α : Type} {f : World → Editor α} : C (f w) → C (MonadReader.read >>= f)

theorem Preserves.closed : Closed w (Preserves w P) := ⟨Preserves.pure, Preserves.throw, Preserves.bind, Preserves.read⟩

namespace Closed

variable {C : {α : Type} → Editor α → Prop}

theorem ofExcept {α : Type} (h : Closed w C) (r : Except Failure α) : C (Editor.ofExcept r) := by
  cases r with
  | ok a => exact h.pure a
  | error f => exact h.throw f

theorem startingWith (h : Closed w C) (start : Text) (c : Completions) : C (Editor.startingWith start c) := by
  refine h.bind ?_ fun _ => h.pure _
  induction c with
  | nil => exact h.pure _
  | cons e c ih =>
    rw [List.mapM_cons]
    refine h.bind ?_ fun _ => h.bind ih fun _ => h.pure _
    obtain ⟨name, c⟩ := e
    cases name with
    | some name => exact h.pure _
    | none => exact h.throw _

theorem members (h : Closed w C) (he : ∀ path region, C (exports path region)) (names : Table Text Origin)
    (module start : Text) : C (Editor.members names module start) := by
  unfold Editor.members
  cases Table.get? module names with
  | none => exact h.pure _
  | some origin =>
    cases origin with
    | imported path region => exact h.bind (he path region) fun c => h.startingWith start c
    | given value =>
      refine h.bind ?_ fun _ => h.pure _
      cases value <;> first | exact h.pure _ | exact h.throw _

theorem offerAt (h : Closed w C) (he : ∀ path region, C (exports path region)) (names : Table Text Origin)
    (o : Offers) (point : Nat) : C (Editor.offerAt names o point) := by
  refine h.read ?_
  dsimp only
  cases nameAtEnd? (w.view.lineUpTo point) with
  | some name =>
    refine h.bind (h.members he names name.1 name.2) fun found => ?_
    by_cases hc : (w.view.charAt point == 0x28) = true
    · simp only [hc, if_true]
      exact h.bind (h.ofExcept _) fun _ => h.pure _
    · simp only [hc]
      exact h.pure _
  | none =>
    dsimp only
    cases pathAtEnd? (w.view.lineUpTo point) with
    | none => exact h.pure _
    | some path =>
      refine h.bind (h.read (h.bind (h.ofExcept _) fun directory => ?_)) fun _ => h.pure _
      cases w.files.list (directory.bind fun d => Path.resolve d path) <;> exact h.pure _

end Closed

/-- A query looks up the imports first and then the exports of modules, and changes nothing else. -/
theorem after_query (hs : w.view.isScript = true) (ho : P (after origins w m))
    (he : ∀ path region, Preserves w P (exports path region)) (points : List Nat) :
    P (after (query points) w m) := by
  have hoffers (names : Table Text Origin) : Preserves w P (do
      let offers ← points.foldlM (offerAt names) {}
      return some offers) := by
    refine .bind ?_ fun _ => .pure _
    generalize ({} : Offers) = o
    induction points generalizing o with
    | nil => exact .pure _
    | cons point points ih =>
      rw [List.foldlM_cons]
      exact .bind (Preserves.closed.offerAt he names o point) fun o => ih o
  unfold query
  simp only [after, read_bind, hs, Bool.not_true, Bool.false_eq_true, if_false]
  cases h : origins w m with
  | error f u =>
    rw [bind_error _ h]
    simpa only [after, h] using ho
  | ok names u =>
    rw [bind_ok _ h]
    exact hoffers names u (by simpa only [after, h] using ho)

theorem after_query_of_not_script (hs : w.view.isScript = false) (points : List Nat) :
    after (query points) w m = m := by
  unfold query
  simp only [after, read_bind, hs]
  rfl

theorem query_preserves (ho : Preserves w P origins)
    (he : ∀ path region, Preserves w P (exports path region)) (points : List Nat) :
    Preserves w P (query points) := by
  intro m hm
  cases hs : w.view.isScript with
  | true => exact after_query hs (ho m hm) he points
  | false => rwa [after_query_of_not_script hs]

/-- Where the pointer rests problems are shown, and nothing else is changed. -/
theorem hover_shows (hpopup : ∀ m text point, P m → P { m with effects := m.effects ++ [.popup text popupStyle point] })
    (point : Int) : Preserves w P (hover point) := by
  refine .get fun m hm => ?_
  suffices h : Preserves w P _ from h m hm
  refine .bind ?_ fun _ => .pure _
  generalize m.reports = reports
  induction reports with
  | nil => exact .pure _
  | cons e reports ih =>
    rw [List.forIn_cons]
    by_cases hc : e.2.region.contains point = true
    · simp only [hc, if_true, bind_assoc, pure_bind]
      exact .bind (fun m => hpopup m e.2.problem.message point) fun _ => ih
    · simp only [hc]
      exact ih

theorem hover_preserves (point : Int) (r : Table Text Report) (t : Table Text Snapshot) :
    Preserves w (fun m => m.reports = r ∧ m.modules = t) (hover point) :=
  hover_shows (fun _ _ _ h => h) point

end Editor

end ScriptTree
