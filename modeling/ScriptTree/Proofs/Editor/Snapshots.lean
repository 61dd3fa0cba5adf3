import Mathlib.Data.List.Pairwise
import ScriptTree.Proofs.Editor.Session

/-! # Remembered modules

A remembered module stems from a file that was written before and to which its import path led from a view that
was opened before (`Sound`). Modules are remembered by import path and compared by modification time, so a file
is taken for another exactly where the path leads to both from different views and both were modified at one
time. A report on a module that is answered from memory stays. -/

namespace ScriptTree.Editor

variable {s : Session} {step : Step}

/-- The file that a step writes and its modification time. -/
def Step.stamp? : Step → Option (Path × Int)
  | .write path _ modified => some (path, modified)
  | _ => none

/-- Every write gives its file a modification time that it never had before. -/
def FreshWrites (steps : List Step) : Prop := (steps.filterMap Step.stamp?).Nodup

/-- The import path leads to the file from a view that was opened. -/
def Leads (steps : List Step) (path : Text) (p : Path) : Prop :=
  ∃ v, .open v ∈ steps ∧ v.target path = .ok (some p)

/-- The import path leads to two files that were at some time modified at the same moment. -/
def Confuses (steps : List Step) (path : Text) : Prop :=
  ∃ p p' b b' t, p ≠ p' ∧ Leads steps path p ∧ Leads steps path p' ∧
    .write p b t ∈ steps ∧ .write p' b' t ∈ steps

/-- The module was learned from a file that was written before. -/
structure Stems (past : List Step) (path : Text) (snapshot : Snapshot) : Prop where
  isScript : isScriptPath path = true
  file : ∃ p b, Leads past path p ∧ .write p b snapshot.modified ∈ past ∧
    survey (some p) b = .ok (.ok snapshot.completions)

/-- Files and views are those of past steps, and so is what is remembered of modules. -/
structure Sound (past : List Step) (w : World) (m : Memory) : Prop where
  files : ∀ p b t, Table.get? p w.files.items = some (.file b t) → .write p b t ∈ past
  view : w.view.file.isSome = true → .open w.view ∈ past
  modules : ∀ path snapshot, Table.get? path m.modules = some snapshot → Stems past path snapshot

variable {past steps : List Step} {w : World} {m m' : Memory} {path : Text} {region : Region} {p : Path}
  {place : Option Path} {snapshot : Snapshot}

/-! ## Runs -/

theorem FreshWrites.bytes_eq {b b' : ByteArray} {t : Int} (h : FreshWrites steps)
    (hb : .write p b t ∈ steps) (hb' : .write p b' t ∈ steps) : b = b' := by
  by_contra hne
  have hpair := List.pairwise_filterMap.mp h
  have : Std.Symm fun a a' : Step => ∀ x, a.stamp? = some x → ∀ y, a'.stamp? = some y → x ≠ y :=
    ⟨fun _ _ hr x hx y hy => Ne.symm (hr y hy x hx)⟩
  exact hpair.forall hb hb' (by simpa using hne) (p, t) rfl (p, t) rfl rfl

theorem FreshWrites.init (h : FreshWrites (past ++ [step])) : FreshWrites past := by
  unfold FreshWrites at h ⊢
  rw [List.filterMap_append] at h
  exact h.of_append_left

theorem FreshWrites.not_before {b b' : ByteArray} {t : Int} (h : FreshWrites (past ++ [.write p b t])) :
    .write p b' t ∉ past := by
  intro hb
  unfold FreshWrites at h
  rw [List.filterMap_append, List.nodup_append] at h
  exact h.2.2 (p, t) (List.mem_filterMap.mpr ⟨_, hb, rfl⟩) (p, t) (by simp [Step.stamp?]) rfl

theorem Leads.mono (h : Leads past path p) (hs : past ⊆ steps) : Leads steps path p := by
  obtain ⟨v, hv, ht⟩ := h
  exact ⟨v, hs hv, ht⟩

theorem Stems.mono (h : Stems past path snapshot) (hs : past ⊆ steps) : Stems steps path snapshot := by
  obtain ⟨hp, p, b, hl, hw, hsurvey⟩ := h
  exact ⟨hp, p, b, hl.mono hs, hs hw, hsurvey⟩

theorem Sound.mono (h : Sound past w m) (hs : past ⊆ steps) : Sound steps w m :=
  ⟨fun p b t hg => hs (h.files p b t hg), fun hv => hs (h.view hv), fun p s hg => (h.modules p s hg).mono hs⟩

/-- A look at a place that shows a module. -/
theorem examine_learned (h : examine w.files place = .ok (.ok snapshot)) : ∃ b,
    w.files.find place = .ok (.file b snapshot.modified) ∧ survey place b = .ok (.ok snapshot.completions) := by
  unfold examine Files.read at h
  cases hfind : w.files.find place with
  | error f => cases f <;> simp [hfind, bind, Except.bind] at h
  | ok item =>
    cases item with
    | directory => simp [hfind, bind, Except.bind] at h
    | file b t =>
      cases hs : survey place b with
      | error f => simp [hfind, bind, Except.bind, hs, Except.map] at h
      | ok r =>
        cases r with
        | error problem => simp [hfind, bind, Except.bind, hs, Except.map] at h
        | ok c =>
          obtain rfl : (⟨t, c⟩ : Snapshot) = snapshot := by simpa [hfind, bind, Except.bind, hs, Except.map] using h
          exact ⟨b, rfl, hs⟩

/-- What the request for the exports of a module does to the memory. -/
theorem after_exports (path : Text) (region : Region) (w : World) (m : Memory) : after (exports path region) w m = m ∨
    (∃ problem, after (exports path region) w m = m.reported path region problem ∧
      (isScriptPath path = true → ∃ place, w.view.target path = .ok place ∧
        m.known w.files path place = .ok none ∧ examine w.files place = .ok (.error problem))) ∨
    ∃ place snapshot, after (exports path region) w m = m.learned path snapshot ∧
      isScriptPath path = true ∧ w.view.target path = .ok place ∧ m.known w.files path place = .ok none ∧
      examine w.files place = .ok (.ok snapshot) := by
  unfold after
  cases hp : isScriptPath path with
  | false =>
    rw [exports_stray hp]
    by_cases hnil : path.isEmpty = true
    · exact .inl (by simp [hnil])
    · exact .inr (.inl ⟨.notRelative, by simp [hnil], nofun⟩)
  | true =>
    cases ht : w.view.target path with
    | error f => exact .inl (by rw [exports_unplaced hp ht])
    | ok place =>
      rw [exports_eq hp ht]
      cases hr : m.known w.files path place with
      | error f => exact .inl rfl
      | ok c =>
        cases c with
        | some c => exact .inl rfl
        | none =>
          cases hx : examine w.files place with
          | error f => exact .inl rfl
          | ok r =>
            cases r with
            | error problem => exact .inr (.inl ⟨problem, rfl, fun _ => ⟨place, rfl, hr, hx⟩⟩)
            | ok snapshot => exact .inr (.inr ⟨place, snapshot, rfl, rfl, rfl, hr, hx⟩)

theorem Sound.leads (h : Sound past w m) (ht : w.view.target path = .ok (some p)) : Leads past path p := by
  refine ⟨w.view, h.view ?_, ht⟩
  cases hf : w.view.file with
  | none => simp [View.target, View.directory, hf, Except.map] at ht
  | some file => rfl

theorem Sound.imported (h : Sound past w m) : Sound past w (after origins w m) :=
  ⟨h.files, h.view, by rw [(origins_after m).2]; exact h.modules⟩

theorem Sound.exported (h : Sound past w m) (path : Text) (region : Region) :
    Sound past w (after (exports path region) w m) := by
  rcases after_exports path region w m with ha | ⟨problem, ha, -⟩ | ⟨place, snapshot, ha, hp, ht, -, hx⟩
  · rw [ha]
    exact h
  · rw [ha]
    exact ⟨h.files, h.view, h.modules⟩
  · rw [ha]
    refine ⟨h.files, h.view, ?_⟩
    intro path' snapshot' hget
    by_cases hpath : path = path'
    · subst hpath
      obtain rfl : snapshot = snapshot' := by simpa [Memory.learned, Memory.drawn] using hget
      obtain ⟨b, hfind, hsurvey⟩ := examine_learned hx
      obtain ⟨p, rfl, hfile⟩ := Files.find_file hfind
      exact ⟨hp, p, b, h.leads ht, h.files p b _ hfile, hsurvey⟩
    · exact h.modules path' snapshot' (by simpa [Memory.learned, Memory.drawn, Table.get?_set_of_ne hpath] using hget)

theorem Sound.performed (h : Sound past s.world s.memory) (step : Step) :
    Sound (past ++ [step]) (s.perform step).world (s.perform step).memory := by
  have hm := h.mono (List.subset_append_left past [step])
  cases step with
  | write path bytes modified =>
    refine ⟨fun p b t hget => ?_, hm.view, hm.modules⟩
    rcases Files.get?_write hget with ⟨rfl, rfl, rfl⟩ | hget
    · simp
    · exact hm.files p b t hget
  | makeDirectory path => exact ⟨fun p b t hget => hm.files p b t (Files.get?_makeDirectory hget), hm.view, hm.modules⟩
  | remove path => exact ⟨fun p b t hget => hm.files p b t (Files.get?_remove hget), hm.view, hm.modules⟩
  | provide resource => exact ⟨hm.files, hm.view, hm.modules⟩
  | «open» view => exact ⟨hm.files, fun _ => by simp [Session.perform], hm.modules⟩
  | query points =>
    exact query_preserves (P := Sound _ s.world) (fun _ h => h.imported) (fun path region _ h => h.exported path region)
      points s.memory hm
  | hover point =>
    obtain ⟨-, hmodules⟩ := hover_preserves (w := s.world) point _ _ s.memory ⟨rfl, rfl⟩
    exact ⟨hm.files, hm.view, by simpa [Session.perform, hmodules] using hm.modules⟩

theorem run_concat (steps : List Step) (step : Step) :
    Session.run (steps ++ [step]) = (Session.run steps).perform step := by
  simp [Session.run]

theorem run_sound (steps : List Step) : Sound steps (Session.run steps).world (Session.run steps).memory := by
  induction steps using List.reverseRecOn with
  | nil => exact ⟨nofun, nofun, nofun⟩
  | append_singleton steps step ih =>
    rw [run_concat]
    exact ih.performed step

/-! ## Answers from memory -/

/-- The module is remembered, but there is no file where its import path leads to. -/
def Lost (w : World) (m : Memory) (path : Text) : Prop :=
  ∃ place, w.view.target path = .ok place ∧ w.files.find place = .error .noSuchFile ∧
    (Table.get? path m.modules).isSome = true

/-- What is remembered of a module is what its file says, if no other file is taken for it. -/
theorem Sound.examine_eq (h : Sound steps w m) (hf : FreshWrites steps) (hc : ¬ Confuses steps path)
    (hget : Table.get? path m.modules = some snapshot) (ht : w.view.target path = .ok place)
    (hm : w.files.modified? place = .ok (some snapshot.modified)) :
    examine w.files place = .ok (.ok snapshot) := by
  obtain ⟨b, hfind⟩ := Files.find_of_modified? hm
  obtain ⟨p, rfl, hfile⟩ := Files.find_file hfind
  obtain ⟨-, p', b', hleads, hwrite, hsurvey⟩ := h.modules path snapshot hget
  obtain rfl : p = p' := by
    by_contra hne
    exact hc ⟨p, p', b, b', _, hne, h.leads ht, hleads, h.files p b _ hfile, hwrite⟩
  obtain rfl := hf.bytes_eq (h.files p b _ hfile) hwrite
  simp [examine, Files.read, hfind, bind, Except.bind, hsurvey, Except.map]

/-- What is offered after a look at a file. -/
def offered : Except Problem Snapshot → Completions
  | .ok snapshot => snapshot.completions
  | .error _ => []

theorem outcome_exports (hp : isScriptPath path = true) (ht : w.view.target path = .ok place) :
    outcome (exports path region) w m = match m.known w.files path place with
      | .error f => .error f
      | .ok (some c) => .ok c
      | .ok none => (examine w.files place).map offered := by
  unfold outcome
  rw [exports_eq hp ht]
  cases m.known w.files path place with
  | error f => rfl
  | ok c =>
    cases c with
    | some c => rfl
    | none =>
      cases examine w.files place with
      | error f => rfl
      | ok r => cases r <;> rfl

theorem outcome_forgotten (hp : isScriptPath path = true) (ht : w.view.target path = .ok place) :
    outcome (exports path region) w { m with modules := [] } = (examine w.files place).map offered :=
  outcome_exports hp ht

theorem Sound.outcome_iff (h : Sound steps w m) (hf : FreshWrites steps) (hc : ¬ Confuses steps path) :
    outcome (exports path region) w m = outcome (exports path region) w { m with modules := [] } ↔ ¬ Lost w m path := by
  cases hp : isScriptPath path with
  | false =>
    refine iff_of_true ?_ ?_
    · simp only [outcome, exports_stray hp]
      by_cases hnil : path.isEmpty = true <;> simp [hnil]
    · rintro ⟨place, -, -, hsome⟩
      obtain ⟨snapshot, hget⟩ := Option.isSome_iff_exists.mp hsome
      simp [(h.modules path snapshot hget).isScript] at hp
  | true =>
    cases ht : w.view.target path with
    | error f =>
      refine iff_of_true ?_ ?_
      · simp only [outcome, exports_unplaced hp ht]
      · rintro ⟨place, hplace, -⟩
        simp [ht] at hplace
    | ok place =>
      rw [outcome_exports hp ht, outcome_forgotten hp ht]
      cases hget : Table.get? path m.modules with
      | none => simp [Memory.known, hget, Lost]
      | some snapshot =>
        have hlost : Lost w m path ↔ w.files.find place = .error .noSuchFile := by simp [Lost, ht, hget]
        rw [hlost]
        cases hfind : w.files.find place with
        | error f =>
          -- The time of a file is asked for before the file is read, and that is not caught.
          have hr : m.known w.files path place = .error f := by
            simp [Memory.known, hget, Files.modified?, hfind, bind, Except.bind, Except.map]
          have hread : w.files.read place = .error f := by simp [Files.read, hfind, bind, Except.bind]
          cases f <;> simp [hr, examine, hread, Except.map]
        | ok item =>
          refine iff_of_true ?_ (by simp)
          by_cases hm : w.files.modified? place = .ok (some snapshot.modified)
          · simp [Memory.known, hget, hm, h.examine_eq hf hc hget ht hm, Except.map, offered]
          · have hr : m.known w.files path place = .ok none := by
              cases item <;> simp_all [Memory.known, Files.modified?, bind, Except.bind, Except.map]
            rw [hr]

/-- If every write gives its file a new modification time and no file is taken for another, a request for the
exports of a module ends as if nothing were remembered of modules, unless the module is lost. -/
theorem exports_as_if_forgotten_iff (hf : FreshWrites steps) (hc : ¬ Confuses steps path)
    (hm : Within (Session.run steps).world (Session.run steps).memory m) :
    outcome (exports path region) (Session.run steps).world m =
        outcome (exports path region) (Session.run steps).world { m with modules := [] } ↔
      ¬ Lost (Session.run steps).world m path := by
  have hsound := hm.preserves (P := Sound steps (Session.run steps).world) (fun _ h => h.imported)
    (fun path region _ h => h.exported path region) (run_sound steps)
  exact hsound.outcome_iff hf hc

/-- A view of a program that imports a module and asks for its exports. -/
def importing (file : String) : Step :=
  .open { text := "import * as m from './m.js'\nm.", file := some file, scope := "source.js" }

/-- Two modules with one import path, asked for one after the other. -/
def twins (text : String) (time : Nat) : List Step :=
  [.write ["a", "m.js"] "export let x".toUTF8 1, .write ["b", "m.js"] text.toUTF8 time, .provide "\x7b\x7d",
    importing "a/v.js", .query [30], importing "b/v.js"]

def repaired : List Step :=
  [.write ["m.js"] "export let x".toUTF8 1, .provide "\x7b\x7d", importing "v.js", .query [30],
    .write ["m.js"] "(".toUTF8 2, .query [30], .write ["m.js"] "export let y".toUTF8 3]

-- all sessions are evaluated at once
theorem sessions_evaluated :
    let path := Text.ofString "./m.js"
    let ended (s : Session) := outcome (exports path ⟨20, 26⟩) s.world s.memory
    let twin := Session.run (twins "export let y" 1)
    let broken := Session.run (twins "(" 2 ++ [.query [30], importing "a/v.js"])
    (Table.get? path (Session.run (twins "export let y" 2)).memory.modules).map Snapshot.modified = some 1 ∧
      ended twin ≠ ended { twin with memory.modules := [] } ∧
      (parse (Text.unifyLineEnds "export let y") { isModule := true }).toOption.isSome = true ∧
      path ∈ Table.keys (Session.run repaired).memory.reports ∧
      (ended (Session.run repaired)).toOption.isSome = true ∧
      (ended broken).toOption.map Table.keys = some [some (Text.ofString "x")] ∧
      path ∈ Table.keys (after (exports path ⟨20, 26⟩) broken.world broken.memory).reports := by
  decide +kernel

/-- Two modules with one import path that were modified at different times. -/
theorem exports_as_if_forgotten_twins :
    let path := Text.ofString "./m.js"
    let steps := [.write ["a", "m.js"] "export let x".toUTF8 1, .write ["b", "m.js"] "export let y".toUTF8 2,
      .provide "\x7b\x7d", importing "a/v.js", .query [30], importing "b/v.js"]
    let s := Session.run steps
    (Table.get? path s.memory.modules).map Snapshot.modified = some 1 ∧
      outcome (exports path ⟨20, 26⟩) s.world s.memory =
        outcome (exports path ⟨20, 26⟩) s.world { s.memory with modules := [] } := by
  intro path steps s
  have hfresh : FreshWrites steps := by
    unfold FreshWrites
    decide
  have hclear : ¬ Confuses steps path := by
    rintro ⟨p, p', b, b', t, hne, -, -, hw, hw'⟩
    simp only [steps, importing, List.mem_cons, List.not_mem_nil, Step.write.injEq, reduceCtorEq, or_false] at hw hw'
    rcases hw with ⟨rfl, -, rfl⟩ | ⟨rfl, -, rfl⟩ <;> simp_all
  have hlost : ¬ Lost s.world s.memory path := by
    rintro ⟨place, ht, hfind, -⟩
    have hplace : s.world.view.target path = .ok (some ["b", "m.js"]) := rfl
    obtain rfl := Except.ok.inj (hplace.symm.trans ht)
    cases hfind
  exact ⟨sessions_evaluated.1, (exports_as_if_forgotten_iff hfresh hclear .start).mpr hlost⟩

/-- Two modules with one import path that were modified at the same time. -/
theorem exports_mistakes_twin :
    let path := Text.ofString "./m.js"
    let steps := [.write ["a", "m.js"] "export let x".toUTF8 1, .write ["b", "m.js"] "export let y".toUTF8 1,
      .provide "\x7b\x7d", importing "a/v.js", .query [30], importing "b/v.js"]
    let s := Session.run steps
    FreshWrites steps ∧ outcome (exports path ⟨20, 26⟩) s.world s.memory ≠
      outcome (exports path ⟨20, 26⟩) s.world { s.memory with modules := [] } := by
  refine ⟨?_, sessions_evaluated.2.1⟩
  unfold FreshWrites
  decide

/-! ## Reports on remembered modules -/

/-- The import path leads to one file at most. -/
def LeadsToOne (steps : List Step) (path : Text) : Prop :=
  ∀ p p', Leads steps path p → Leads steps path p' → p = p'

/-- The file of a remembered module with a report was modified since. -/
def Outdated (past : List Step) (path : Text) (w : World) (m : Memory) : Prop :=
  ∀ snapshot, path ∈ Table.keys m.reports → Table.get? path m.modules = some snapshot →
    ∀ p b, Leads past path p → Table.get? p w.files.items ≠ some (.file b snapshot.modified)

theorem Outdated.imported (h : Outdated past path w m) : Outdated past path w (after origins w m) := by
  intro snapshot hkey hget
  obtain ⟨hreports, hmodules⟩ := origins_after (w := w) m
  rw [hreports] at hkey
  rw [hmodules] at hget
  obtain ⟨r, hr⟩ := Table.mem_keys.mp hkey
  exact h snapshot (Table.mem_keys.mpr ⟨r, (mem_of_mem_stillImported hr).1⟩) hget

/-- A remembered module is looked at because its file was modified since. -/
theorem find_of_known (hget : Table.get? path m.modules = some snapshot) (hr : m.known w.files path place = .ok none) :
    w.files.find place = .ok .directory ∨ ∃ b t, w.files.find place = .ok (.file b t) ∧ t ≠ snapshot.modified := by
  cases hfind : w.files.find place with
  | error f => simp [Memory.known, hget, Files.modified?, hfind, bind, Except.bind, Except.map] at hr
  | ok item =>
    cases item with
    | directory => exact .inl rfl
    | file b t =>
      refine .inr ⟨b, t, rfl, ?_⟩
      simpa [Memory.known, hget, Files.modified?, hfind, bind, Except.bind, Except.map] using hr

/-- A module is reported after its file was found to be modified, and the report goes when it is learned. -/
theorem Outdated.exported (h : Outdated past path w m) (hs : Sound past w m) (ho : LeadsToOne past path)
    (path' : Text) (region : Region) : Outdated past path w (after (exports path' region) w m) := by
  rcases after_exports path' region w m with ha | ⟨problem, ha, hlook⟩ | ⟨place, snapshot', ha, -⟩
  · rw [ha]
    exact h
  · rw [ha]
    intro snapshot hkey hget p b hleads hfile
    by_cases hpath : path' = path
    · subst hpath
      obtain ⟨place, ht, hr, hx⟩ := hlook (hs.modules path' snapshot hget).isScript
      rcases find_of_known hget hr with hfind | ⟨b', t, hfind, hne⟩
      · simp [examine, Files.read, hfind, bind, Except.bind] at hx
      · obtain ⟨p', rfl, hfile'⟩ := Files.find_file hfind
        obtain rfl := ho p p' hleads (hs.leads ht)
        rw [hfile'] at hfile
        simp_all
    · refine h snapshot ?_ hget p b hleads hfile
      rw [← Table.isSome_get?_iff] at hkey ⊢
      simpa [Memory.reported, Memory.drawn, Table.get?_set_of_ne hpath] using hkey
  · rw [ha]
    intro snapshot hkey hget
    rw [← Table.isSome_get?_iff] at hkey
    by_cases hpath : path = path'
    · simp [Memory.learned, Memory.drawn, hpath] at hkey
    · refine h snapshot (Table.isSome_get?_iff.mp ?_) ?_
      · simpa [Memory.learned, Memory.drawn, Table.get?_erase_of_ne hpath] using hkey
      · simpa [Memory.learned, Memory.drawn, Table.get?_set_of_ne (Ne.symm hpath)] using hget

theorem LeadsToOne.mono (h : LeadsToOne steps path) (hs : past ⊆ steps) : LeadsToOne past path :=
  fun p p' hp hp' => h p p' (hp.mono hs) (hp'.mono hs)

theorem Outdated.performed (h : Outdated past path s.world s.memory)
    (hs : Sound past s.world s.memory) (hf : FreshWrites (past ++ [step]))
    (ho : LeadsToOne (past ++ [step]) path) :
    Outdated (past ++ [step]) path (s.perform step).world (s.perform step).memory := by
  have hpast : past ⊆ past ++ [step] := List.subset_append_left past [step]
  -- The file that a remembered module stems from is the only one that the path leads to.
  have hold {snapshot p} : Table.get? path s.memory.modules = some snapshot → Leads (past ++ [step]) path p →
      Leads past path p ∧ ∃ b, .write p b snapshot.modified ∈ past := by
    intro hget hleads
    obtain ⟨-, p', b, hleads', hwrite, -⟩ := hs.modules path snapshot hget
    obtain rfl := ho p p' hleads (hleads'.mono hpast)
    exact ⟨hleads', b, hwrite⟩
  have hsame : Outdated (past ++ [step]) path s.world s.memory :=
    fun snapshot hkey hget p b hleads => h snapshot hkey hget p b (hold hget hleads).1
  cases step with
  | write path' bytes modified =>
    intro snapshot hkey hget p b hleads hfile
    rcases Files.get?_write hfile with ⟨rfl, -, hmod⟩ | hfile
    · obtain ⟨-, b', hwrite⟩ := hold hget hleads
      exact hf.not_before (hmod ▸ hwrite)
    · exact hsame snapshot hkey hget p b hleads hfile
  | makeDirectory path' =>
    exact fun snapshot hkey hget p b hleads hfile =>
      hsame snapshot hkey hget p b hleads (Files.get?_makeDirectory hfile)
  | remove path' =>
    exact fun snapshot hkey hget p b hleads hfile => hsame snapshot hkey hget p b hleads (Files.get?_remove hfile)
  | provide resource => exact hsame
  | «open» view => exact hsame
  | query points =>
    have hboth := query_preserves (P := fun m => Sound (past ++ [.query points]) s.world m ∧
        Outdated (past ++ [.query points]) path s.world m) (fun _ h => ⟨h.1.imported, h.2.imported⟩)
      (fun path' region _ h => ⟨h.1.exported path' region, h.2.exported h.1 ho path' region⟩) points
    exact (hboth s.memory ⟨hs.mono hpast, hsame⟩).2
  | hover point =>
    obtain ⟨hreports, hmodules⟩ := hover_preserves (w := s.world) point _ _ s.memory ⟨rfl, rfl⟩
    intro snapshot hkey hget
    exact hsame snapshot (hreports ▸ hkey) (hmodules ▸ hget)

theorem run_outdated (hf : FreshWrites steps) (ho : LeadsToOne steps path) :
    Outdated steps path (Session.run steps).world (Session.run steps).memory := by
  induction steps using List.reverseRecOn with
  | nil => exact nofun
  | append_singleton steps step ih =>
    have hpast : steps ⊆ steps ++ [step] := List.subset_append_left steps [step]
    rw [run_concat]
    exact (ih hf.init (ho.mono hpast)).performed (run_sound steps) hf ho

/-- The import path leads to a file whose text is a module. -/
def Importable (w : World) (path : Text) : Prop :=
  isScriptPath path = true ∧ ∃ place bytes modified text program, w.view.target path = .ok place ∧
    w.files.read place = .ok (bytes, modified) ∧ Text.ofUtf8? bytes = some text ∧
    parse text.unifyLineEnds { isModule := true } = .ok program

/-- The module is remembered, and its file was last modified at the remembered time. -/
def Remembered (w : World) (m : Memory) (path : Text) : Prop :=
  ∃ place snapshot, w.view.target path = .ok place ∧ Table.get? path m.modules = some snapshot ∧
    w.files.modified? place = .ok (some snapshot.modified)

theorem remembered_iff (ht : w.view.target path = .ok place) :
    Remembered w m path ↔ ∃ c, m.known w.files path place = .ok (some c) := by
  constructor
  · rintro ⟨place', snapshot, ht', hget, hmod⟩
    obtain rfl := Except.ok.inj (ht.symm.trans ht')
    exact ⟨snapshot.completions, by simp [Memory.known, hget, hmod, Except.map]⟩
  · rintro ⟨c, hr⟩
    unfold Memory.known at hr
    cases hget : Table.get? path m.modules with
    | none => simp [hget] at hr
    | some snapshot =>
      cases hmod : w.files.modified? place with
      | error f => simp [hget, hmod, Except.map] at hr
      | ok modified =>
        have hsame : modified = some snapshot.modified ∧ snapshot.completions = c := by
          simpa [hget, hmod, Except.map] using hr
        exact ⟨place, snapshot, ht, hget, hsame.1 ▸ hmod⟩

/-- The exports of a module are remembered, or they are learned and no report is left. -/
theorem returns_exports {c : Completions} (hi : Importable w path) (hr : Returns (exports path region) w m c m') :
    m' = m ∧ Remembered w m path ∨ path ∉ Table.keys m'.reports ∧ ¬ Remembered w m path := by
  obtain ⟨hp, place, bytes, modified, text, program, ht, hread, hb, hparse⟩ := hi
  rw [remembered_iff ht]
  unfold Returns at hr
  rw [exports_eq hp ht] at hr
  cases hknown : m.known w.files path place with
  | error f => simp [hknown] at hr
  | ok known =>
    cases known with
    | some c' =>
      obtain ⟨-, rfl⟩ : c' = c ∧ m = m' := by simpa [hknown] using hr
      exact .inl ⟨rfl, c', rfl⟩
    | none =>
      simp only [hknown, examine, hread, survey, hb, hparse] at hr
      cases hc : program.completions ((place.bind List.getLast?).getD []) with
      | error f => simp [hc, Except.map, Memory.answer] at hr
      | ok found =>
        obtain ⟨-, rfl⟩ : found = c ∧ m.learned path ⟨modified, found⟩ = m' := by
          simpa [hc, Except.map, Memory.answer] using hr
        refine .inr ⟨?_, by simp⟩
        rw [← Table.isSome_get?_iff]
        simp [Memory.learned, Memory.drawn]

/-- After the exports of a module are found there is a report on its path exactly if they were remembered and
there was one before. This does not happen if every write gives its file a new modification time and the path
leads to one file. -/
theorem exports_leaves_report_iff {c : Completions}
    (hm : Within (Session.run steps).world (Session.run steps).memory m)
    (hi : Importable (Session.run steps).world path)
    (hr : Returns (exports path region) (Session.run steps).world m c m') :
    (path ∈ Table.keys m'.reports ↔
      Remembered (Session.run steps).world m path ∧ path ∈ Table.keys m.reports) ∧
    (FreshWrites steps → LeadsToOne steps path → path ∉ Table.keys m'.reports) := by
  rcases returns_exports hi hr with ⟨rfl, hrem⟩ | ⟨hnone, hrem⟩
  · refine ⟨by simp [hrem], fun hf ho hkey => ?_⟩
    obtain ⟨hsound, houtdated⟩ := hm.preserves (P := fun m => Sound steps (Session.run steps).world m ∧
        Outdated steps path (Session.run steps).world m) (fun _ h => ⟨h.1.imported, h.2.imported⟩)
      (fun path' region _ h => ⟨h.1.exported path' region, h.2.exported h.1 ho path' region⟩)
      ⟨run_sound steps, run_outdated hf ho⟩
    obtain ⟨place, snapshot, ht, hget, hmod⟩ := hrem
    obtain ⟨b, hfind⟩ := Files.find_of_modified? hmod
    obtain ⟨p, rfl, hfile⟩ := Files.find_file hfind
    exact houtdated snapshot hkey hget p b (hsound.leads ht) hfile
  · exact ⟨by simp [hrem, hnone], fun _ _ => hnone⟩

/-- A module that was broken and repaired. -/
theorem exports_leaves_report_repaired :
    let path := Text.ofString "./m.js"
    let steps := [.write ["m.js"] "export let x".toUTF8 1, .provide "\x7b\x7d", importing "v.js", .query [30],
      .write ["m.js"] "(".toUTF8 2, .query [30], .write ["m.js"] "export let y".toUTF8 3]
    let s := Session.run steps
    path ∈ Table.keys s.memory.reports ∧ ∃ c m', Returns (exports path ⟨20, 26⟩) s.world s.memory c m' ∧
      path ∉ Table.keys m'.reports := by
  intro path steps s
  have hfresh : FreshWrites steps := by
    unfold FreshWrites
    decide
  have hone : LeadsToOne steps path := by
    rintro p p' ⟨v, hv, ht⟩ ⟨v', hv', ht'⟩
    simp only [steps, importing, List.mem_cons, List.not_mem_nil, Step.open.injEq, reduceCtorEq, or_false,
      false_or] at hv hv'
    subst hv hv'
    exact Option.some.inj (Except.ok.inj (ht.symm.trans ht'))
  obtain ⟨-, -, hparse, hkey, hrun, -⟩ := sessions_evaluated
  have hi : Importable s.world path := by
    cases hp : parse (Text.unifyLineEnds "export let y") { isModule := true } with
    | error f => simp [hp, Except.toOption] at hparse
    | ok program =>
      exact ⟨by rfl, some ["m.js"], _, 3, "export let y", program, by rfl, rfl, by rfl, hp⟩
  cases hr : exports path ⟨20, 26⟩ s.world s.memory with
  | error f m' =>
    change (outcome (exports path ⟨20, 26⟩) s.world s.memory).toOption.isSome = true at hrun
    simp [outcome, hr, Except.toOption] at hrun
  | ok c m' => exact ⟨hkey, c, m', hr, (exports_leaves_report_iff .start hi hr).2 hfresh hone⟩

/-- A module that is remembered has the import path of a broken one. -/
theorem exports_leaves_report_of_twin :
    let path := Text.ofString "./m.js"
    let steps := [.write ["a", "m.js"] "export let x".toUTF8 1, .write ["b", "m.js"] "(".toUTF8 2,
      .provide "\x7b\x7d", importing "a/v.js", .query [30], importing "b/v.js", .query [30], importing "a/v.js"]
    let s := Session.run steps
    (outcome (exports path ⟨20, 26⟩) s.world s.memory).toOption.map Table.keys = some [some (Text.ofString "x")] ∧
      path ∈ Table.keys (after (exports path ⟨20, 26⟩) s.world s.memory).reports :=
  sessions_evaluated.2.2.2.2.2

end ScriptTree.Editor
