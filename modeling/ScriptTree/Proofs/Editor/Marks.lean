import ScriptTree.Proofs.Editor.Snapshots

/-! # Marks under import paths

The marks in a view are those that were set last. They are set whenever a problem is reported and whenever a
module is learned, but not when reports are dropped because their paths are no longer imported. So every report
is marked, and there are other marks exactly from a query that drops reports up to the next time that the marks are
set (`run_marks_iff`). The steps of a run are about one view, and it is opened anew after each edit. -/

namespace ScriptTree.Editor

/-- The marks under import paths after an effect, given those before it. -/
def Effect.marks (before : List Region) : Effect → List Region
  | .erase key => if key = markKey then [] else before
  | .mark key regions _ _ _ => if key = markKey then regions else before
  | _ => before

/-- Does the effect set the marks under import paths? -/
def Effect.draws : Effect → Bool
  | .erase key => key == markKey
  | .mark key _ _ _ _ => key == markKey
  | _ => false

variable {w : World} {m : Memory} {steps before : List Step}

namespace Memory

def marks (m : Memory) : List Region := m.effects.foldl Effect.marks []

def drawings (m : Memory) : Nat := m.effects.countP Effect.draws

def regions (m : Memory) : List Region := m.reports.map fun r => r.2.region

@[simp] theorem marks_drawn (m : Memory) : m.drawn.marks = m.drawn.regions := by
  by_cases h : m.reports = []
  · simp [marks, drawn, regions, h, Effect.marks]
  · simp [marks, drawn, regions, h, Effect.marks]

@[simp] theorem drawings_drawn (m : Memory) : m.drawn.drawings = m.drawings + 1 := by
  by_cases h : m.reports = []
  · simp [drawings, drawn, h, Effect.draws]
  · simp [drawings, drawn, h, Effect.draws]

/-- Either the marks are as they were, or they were set for the reports that there are. -/
def Follows (m : Memory) (reports : Table Text Report) (m' : Memory) : Prop :=
  m.drawings < m'.drawings ∧ m'.marks = m'.regions ∨
    m'.drawings = m.drawings ∧ m'.marks = m.marks ∧ m'.reports = reports

theorem Follows.drawn {m u : Memory} {reports reports' : Table Text Report} {modules : Table Text Snapshot}
    (h : m.Follows reports u) : m.Follows reports { u with reports := reports', modules := modules }.drawn := by
  refine .inl ⟨?_, marks_drawn _⟩
  rw [drawings_drawn]
  rcases h with ⟨hlt, -⟩ | ⟨heq, -⟩
  · exact Nat.lt_succ_of_lt hlt
  · exact Nat.lt_succ_of_le heq.ge

end Memory

/-! ## Steps -/

theorem exports_follows (path : Text) (region : Region) (reports : Table Text Report) :
    Preserves w (m.Follows reports) (exports path region) := by
  intro u hu
  rcases after_exports path region w u with ha | ⟨problem, ha, -⟩ | ⟨place, snapshot, ha, -⟩
  · rwa [ha]
  · rw [ha]
    exact hu.drawn
  · rw [ha]
    exact hu.drawn

theorem query_follows (hs : w.view.isScript = true) (points : List Nat) :
    m.Follows (stillImported m.reports (importPaths w.view)) (after (query points) w m) := by
  refine after_query hs (.inr ?_) (fun path region => exports_follows path region _) points
  -- The resource is read, which sets no marks.
  refine after_origins (P := fun u => u.drawings = m.drawings ∧ u.marks = m.marks ∧ u.reports = _) ?_ (fun _ _ h => h)
    ⟨rfl, rfl, rfl⟩
  rintro u ⟨hd, hm, hr⟩
  exact ⟨by simpa [Memory.drawings, Effect.draws] using hd, by simpa [Memory.marks, Effect.marks] using hm, hr⟩

/-- All reports are kept exactly if their paths are imported in the order of the reports. -/
theorem stillImported_eq_self_iff {reports : Table Text Report} {paths : List Text} :
    stillImported reports paths = reports ↔ (Table.keys reports).Sublist paths := by
  induction reports generalizing paths with
  | nil => simp [stillImported, Table.keys]
  | cons x reports ih =>
    by_cases hx : x.1 ∈ paths
    · obtain ⟨before, after, rfl, hbefore⟩ := List.eq_append_cons_of_mem hx
      rw [stillImported_found _ _ _ hbefore, List.cons_inj_right, ih]
      constructor
      · exact fun h => (h.cons_cons x.1).trans (List.sublist_append_right _ _)
      · exact fun h => sublist_of_cons_sublist hbefore h
    · rw [stillImported_missed _ _ hx, stillImported_nil]
      constructor
      · exact fun h => by cases h
      · exact fun h => absurd (h.subset List.mem_cons_self) hx

/-- A query that drops reports: not all of them are on imported paths, in the order of the imports. -/
def Session.Drops (s : Session) : Step → Prop
  | .query _ => s.world.view.isScript = true ∧ ¬ (Table.keys s.memory.reports).Sublist (importPaths s.world.view)
  | _ => False

/-- A step sets the marks for the reports that it leaves, or it sets no marks, and leaves all reports unless it
drops some. -/
theorem perform_marks (s : Session) (step : Step) : s.memory.drawings < (s.perform step).memory.drawings ∧
        (s.perform step).memory.marks = (s.perform step).memory.regions ∨
      (s.perform step).memory.drawings = s.memory.drawings ∧ (s.perform step).memory.marks = s.memory.marks ∧
        (s.perform step).memory.reports.Sublist s.memory.reports ∧
        ((s.perform step).memory.reports = s.memory.reports ↔ ¬ s.Drops step) := by
  cases step with
  | query points =>
    cases hs : s.world.view.isScript with
    | true =>
      refine (query_follows hs points).imp_right fun ⟨hd, hm, hr⟩ => ⟨hd, hm, ?_⟩
      rw [Session.perform, hr, stillImported_eq_self_iff]
      exact ⟨stillImported_sublist _ _, by simp [Session.Drops, hs]⟩
    | false => exact .inr (by simp [Session.perform, after_query_of_not_script hs, Session.Drops, hs])
  | hover point =>
    refine .inr ?_
    have hsame := hover_shows (w := s.world) (P := fun u => u.drawings = s.memory.drawings ∧
      u.marks = s.memory.marks ∧ u.reports = s.memory.reports) ?_ point s.memory ⟨rfl, rfl, rfl⟩
    · obtain ⟨hd, hm, hr⟩ := hsame
      exact ⟨hd, hm, by simp [Session.perform, hr], by simp [Session.perform, hr, Session.Drops]⟩
    · rintro u text point ⟨hd, hm, hr⟩
      exact ⟨by simpa [Memory.drawings, Effect.draws] using hd, by simpa [Memory.marks, Effect.marks] using hm, hr⟩
  | _ => exact .inr ⟨rfl, rfl, .refl _, by simp [Session.perform, Session.Drops]⟩

/-! ## Runs -/

theorem run_drawings_le (h : before <+: steps) :
    (Session.run before).memory.drawings ≤ (Session.run steps).memory.drawings := by
  induction steps using List.reverseRecOn with
  | nil => rw [List.prefix_nil.mp h]
  | append_singleton steps step ih =>
    rcases List.prefix_concat_iff.mp h with rfl | h
    · exact Nat.le_refl _
    · refine Nat.le_trans (ih h) ?_
      rw [run_concat]
      rcases perform_marks (Session.run steps) step with ⟨hlt, -⟩ | ⟨heq, -⟩
      · exact Nat.le_of_lt hlt
      · exact heq.ge

/-- All reports are marked in their order. Nothing else is marked exactly if after every query that drops reports, or
in its course, the marks were set. -/
theorem run_marks_iff (steps : List Step) :
    (Session.run steps).memory.regions.Sublist (Session.run steps).memory.marks ∧
      ((Session.run steps).memory.marks = (Session.run steps).memory.regions ↔
        ∀ before step, before ++ [step] <+: steps → (Session.run before).Drops step →
          (Session.run before).memory.drawings < (Session.run steps).memory.drawings) := by
  induction steps using List.reverseRecOn with
  | nil => simp [Session.run, Memory.regions, Memory.marks]
  | append_singleton steps step ih =>
    obtain ⟨hsub, hiff⟩ := ih
    rw [run_concat]
    generalize hs : Session.run steps = s at hsub hiff
    rcases perform_marks s step with ⟨hlt, hdrawn⟩ | ⟨heq, hmarks, hreports, hkept⟩
    · refine ⟨by rw [hdrawn], iff_of_true hdrawn fun before step' hp _ => ?_⟩
      -- Whatever was dropped before, the marks are set in the last step.
      have hle : before <+: steps := by
        rcases List.prefix_concat_iff.mp hp with h | h
        · exact (List.append_inj' h rfl).1 ▸ List.prefix_refl _
        · exact (List.prefix_append _ _).trans h
      exact Nat.lt_of_le_of_lt (hs ▸ run_drawings_le hle) hlt
    · have hregions : (s.perform step).memory.regions.Sublist s.memory.regions := hreports.map _
      rw [hmarks, heq]
      refine ⟨hregions.trans hsub, ?_⟩
      have hsame : s.memory.marks = (s.perform step).memory.regions ↔
          s.memory.marks = s.memory.regions ∧ ¬ s.Drops step := by
        rw [← hkept]
        constructor
        · intro h
          have hall : s.memory.regions = s.memory.marks := hsub.antisymm (h ▸ hregions)
          refine ⟨hall.symm, hreports.eq_of_length ?_⟩
          simpa [Memory.regions] using congrArg List.length (h.symm.trans hall.symm)
        · rintro ⟨h, hr⟩
          rw [h, Memory.regions, Memory.regions, hr]
      rw [hsame, hiff]
      constructor
      · rintro ⟨h, hdrop⟩ before step' hp hd
        rcases List.prefix_concat_iff.mp hp with he | hp
        · obtain ⟨rfl, rfl⟩ : before = steps ∧ step' = step := by simpa using he
          exact absurd (hs ▸ hd) hdrop
        · exact h before step' hp hd
      · intro h
        refine ⟨fun before step' hp => h before step' (hp.trans (List.prefix_append _ _)), fun hd => ?_⟩
        exact absurd (h steps step (List.prefix_refl _) (hs ▸ hd)) (by rw [hs]; exact Nat.lt_irrefl _)

/-- Two problems were reported in another order than that of the imports, and a query asks for nothing. -/
theorem query_leaves_mark :
    let text := Text.ofString "import * as a from './a.js'\nimport * as b from './b.js'\na.b."
    let m := (Session.run [.provide "\x7b\x7d", .open { text, file := some "v.js", scope := "source.js" },
      .query [60, 58], .query [0]]).memory
    m.regions = [⟨48, 54⟩] ∧ m.marks = [⟨48, 54⟩, ⟨20, 26⟩] := by
  decide +kernel

end ScriptTree.Editor
