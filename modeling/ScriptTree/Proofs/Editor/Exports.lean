import ScriptTree.Editor.Exports
import ScriptTree.Proofs.Returns
import ScriptTree.Proofs.Table

/-! # The exports of a module

The exports are what is remembered of the module, if its file was modified at the remembered time, or else
what a look at the file says (`exports_eq`). So a module that cannot be imported is reported exactly if the
memory does not answer first. -/

namespace ScriptTree.Editor

variable {files : Files} {problem : Problem} {β : Type}

/-- The place that an import path leads to from a view. -/
def View.target (v : View) (path : Text) : Except Failure (Option Path) :=
  v.directory.map fun d => d.bind fun d => Path.resolve d path

/-- What the bytes at a place say of the module there. -/
def survey (place : Option Path) (bytes : ByteArray) : Except Failure (Except Problem Completions) :=
  match Text.ofUtf8? bytes with
  | none => .error .badEncoding
  | some text =>
    match parse text.unifyLineEnds { isModule := true } with
    | .error _ => .ok (.error .unparsable)
    | .ok program => (program.completions ((place.bind List.getLast?).getD [])).map .ok

/-- What a look at a place says of the module there. -/
def examine (files : Files) (place : Option Path) : Except Failure (Except Problem Snapshot) :=
  match files.read place with
  | .error .noSuchFile => .ok (.error .missing)
  | .error f => .error f
  | .ok (bytes, modified) => (survey place bytes).map fun r => r.map fun c => ⟨modified, c⟩

namespace Memory

/-- What is remembered of the module at a place, if its file was modified at the remembered time. -/
def known (m : Memory) (files : Files) (path : Text) (place : Option Path) :
    Except Failure (Option Completions) :=
  match Table.get? path m.modules with
  | some snapshot => (files.modified? place).map fun modified =>
      if modified == some snapshot.modified then some snapshot.completions else none
  | none => .ok none

/-- The memory after the reports were marked in the view. -/
def drawn (m : Memory) : Memory :=
  { m with effects := m.effects ++ [if m.reports.isEmpty then .erase markKey else
      .mark markKey (m.reports.map fun r => r.2.region) "invalid.illegal" [] underline] }

/-- The memory after a problem was reported. -/
def reported (m : Memory) (path : Text) (region : Region) (problem : Problem) : Memory :=
  drawn { m with reports := Table.set path ⟨region, problem⟩ m.reports }

/-- The memory after a module was learned. -/
def learned (m : Memory) (path : Text) (snapshot : Snapshot) : Memory :=
  drawn { m with
    modules := Table.set path snapshot m.modules
    reports := Table.erase path m.reports }

/-- How a request for the exports of a module ends after a look at its file. -/
def answer (m : Memory) (path : Text) (region : Region) :
    Except Failure (Except Problem Snapshot) → EStateM.Result Failure Memory Completions
  | .error f => .error f m
  | .ok (.error problem) => .ok [] (m.reported path region problem)
  | .ok (.ok snapshot) => .ok snapshot.completions (m.learned path snapshot)

end Memory

/-- What is remembered after an action, also after one that fails. -/
def after {α : Type} (p : Editor α) (w : World) (m : Memory) : Memory :=
  match p w m with
  | .ok _ m' => m'
  | .error _ m' => m'

/-- The result of an action, or its failure. -/
def outcome {α : Type} (p : Editor α) (w : World) (m : Memory) : Except Failure α :=
  match p w m with
  | .ok a _ => .ok a
  | .error f _ => .error f

variable {w : World} {m : Memory} {path : Text} {region : Region} {place : Option Path}

theorem get_bind (f : Memory → Editor β) : (get >>= f : Editor β) w m = f m w m := rfl

theorem read_bind (f : World → Editor β) : (read >>= f : Editor β) w m = f w w m := rfl

theorem modify_bind (g : Memory → Memory) (f : Unit → Editor β) : (modify g >>= f : Editor β) w m = f () w (g m) := rfl

theorem drawReports_eq : drawReports w m = .ok () m.drawn := by
  unfold drawReports
  rw [get_bind]
  by_cases h : m.reports.isEmpty = true
  · simp only [h, if_true, Memory.drawn]
    rfl
  · simp only [h, Memory.drawn]
    rfl

theorem report_eq (problem : Problem) : report path region problem w m = .ok () (m.reported path region problem) := by
  unfold report
  rw [modify_bind, drawReports_eq]
  rfl

theorem known?_eq : known? path place w m = match m.known w.files path place with
    | .ok c => .ok c m
    | .error f => .error f m := by
  unfold known? Memory.known
  rw [get_bind]
  cases Table.get? path m.modules with
  | none => rfl
  | some snapshot =>
    dsimp only
    rw [read_bind]
    cases w.files.modified? place <;> rfl

theorem learn_eq {text : Text} {bytes : ByteArray} (modified : Int) (h : Text.ofUtf8? bytes = some text) :
    learn path region ((place.bind List.getLast?).getD []) text.unifyLineEnds modified w m =
    m.answer path region ((survey place bytes).map fun r => r.map fun c => ⟨modified, c⟩) := by
  unfold learn survey
  rw [h]
  dsimp only
  cases parse text.unifyLineEnds { isModule := true } with
  | error e =>
    dsimp only
    rw [bind_ok _ (report_eq _)]
    rfl
  | ok program =>
    dsimp only
    cases program.completions ((place.bind List.getLast?).getD []) with
    | error f => rfl
    | ok c =>
      dsimp only [ofExcept]
      rw [pure_bind, modify_bind, bind_ok _ drawReports_eq]
      rfl

theorem ne_nil_of_isScriptPath (h : isScriptPath path = true) : path.isEmpty = false := by
  cases path with
  | nil => simp [isScriptPath] at h
  | cons => rfl

/-- The exports are remembered or looked up. -/
theorem exports_eq (hp : isScriptPath path = true) (ht : w.view.target path = .ok place) : exports path region w m =
    match m.known w.files path place with
    | .error f => .error f m
    | .ok (some c) => .ok c m
    | .ok none => m.answer path region (examine w.files place) := by
  unfold exports
  rw [ne_nil_of_isScriptPath hp, hp]
  simp only [Bool.false_eq_true, if_false, Bool.not_true]
  unfold View.target at ht
  cases hd : w.view.directory with
  | error f => simp [hd, Except.map] at ht
  | ok d =>
    obtain rfl : d.bind (fun d => Path.resolve d path) = place := by simpa [hd, Except.map] using ht
    rw [read_bind, hd]
    dsimp only [ofExcept]
    rw [pure_bind]
    cases hk : m.known w.files path (d.bind fun d => Path.resolve d path) with
    | error f => rw [bind_error _ (by rw [known?_eq, hk])]
    | ok c =>
      rw [bind_ok _ (show Returns _ _ _ c m by unfold Returns; rw [known?_eq, hk])]
      cases c with
      | some c => rfl
      | none =>
        dsimp only
        unfold examine
        cases w.files.read (d.bind fun d => Path.resolve d path) with
        | error f =>
          cases f with
          | noSuchFile =>
            dsimp only
            rw [bind_ok _ (report_eq _)]
            rfl
          | _ => rfl
        | ok found =>
          obtain ⟨bytes, modified⟩ := found
          cases hb : Text.ofUtf8? bytes with
          | none =>
            simp only [survey, hb, Except.map]
            rfl
          | some text =>
            simp only [hb]
            exact learn_eq modified hb

theorem exports_stray (hp : isScriptPath path = false) : exports path region w m =
    if path.isEmpty then .error .noSuchMember m else .ok [] (m.reported path region .notRelative) := by
  unfold exports
  cases path with
  | nil => rfl
  | cons c path =>
    rw [hp]
    exact bind_ok _ (report_eq _)

theorem exports_unplaced {f : Failure} (hp : isScriptPath path = true) (ht : w.view.target path = .error f) :
    exports path region w m = .error f m := by
  unfold exports
  rw [ne_nil_of_isScriptPath hp, hp]
  simp only [Bool.false_eq_true, if_false, Bool.not_true]
  unfold View.target at ht
  cases hd : w.view.directory with
  | ok d => simp [hd, Except.map] at ht
  | error e =>
    obtain rfl : e = f := by simpa [hd, Except.map] using ht
    rw [read_bind, hd]
    rfl

/-! ## Modules that cannot be imported -/

/-- There is no file at the place, or its text is no module. -/
inductive Faulty (files : Files) (place : Option Path) : Problem → Prop
  | missing : files.find place = .error .noSuchFile → Faulty files place .missing
  | unparsable {bytes : ByteArray} {modified : Int} {text : Text} {e : Failure} :
    files.read place = .ok (bytes, modified) → Text.ofUtf8? bytes = some text →
    parse text.unifyLineEnds { isModule := true } = .error e → Faulty files place .unparsable

/-- A problem is recorded and marked, and nothing else is changed. -/
structure Reported (path : Text) (r : Report) (m m' : Memory) : Prop where
  recorded : Table.get? path m'.reports = some r
  others : ∀ p, p ≠ path → Table.get? p m'.reports = Table.get? p m.reports
  modules : m'.modules = m.modules
  marked : ∃ regions, r.region ∈ regions ∧
    m'.effects = m.effects ++ [.mark markKey regions "invalid.illegal" [] underline]

/-- A module is remembered, and its file is gone or was last modified at the remembered time. -/
def Shadowed (files : Files) (m : Memory) (path : Text) (place : Option Path) : Prop :=
  ∃ snapshot, Table.get? path m.modules = some snapshot ∧
    (files.find place = .error .noSuchFile ∨ files.modified? place = .ok (some snapshot.modified))

theorem reported_reported (m : Memory) (path : Text) (region : Region) (problem : Problem) :
    Reported path ⟨region, problem⟩ m (m.reported path region problem) := by
  have hget : Table.get? path (Table.set path (⟨region, problem⟩ : Report) m.reports) = some ⟨region, problem⟩ :=
    Table.get?_set_self
  have hmem := Table.mem_of_get? hget
  refine ⟨hget, fun p hp => Table.get?_set_of_ne (Ne.symm hp), rfl, ?_⟩
  refine ⟨_, List.mem_map_of_mem (f := fun e => e.2.region) hmem, ?_⟩
  simp [Memory.reported, Memory.drawn, List.ne_nil_of_mem hmem]

theorem Faulty.examined (h : Faulty files place problem) : examine files place = .ok (.error problem) := by
  cases h with
  | missing h =>
    have hr : files.read place = .error .noSuchFile := by simp [Files.read, h, bind, Except.bind]
    simp [examine, hr]
  | unparsable hr hb he => simp [examine, hr, survey, hb, he, Except.map]

/-- The file of a faulty module is looked at unless the memory answers first. -/
theorem Faulty.known_eq_none_iff (h : Faulty files place problem) :
    m.known files path place = .ok none ↔ ¬ Shadowed files m path place := by
  unfold Memory.known Shadowed
  cases Table.get? path m.modules with
  | none => simp
  | some snapshot =>
    cases h with
    | missing h => simp [Files.modified?, h, bind, Except.bind, Except.map]
    | @unparsable _ modified _ _ hr =>
      cases hfind : files.find place with
      | error f => simp [Files.read, hfind, bind, Except.bind] at hr
      | ok item =>
        cases item with
        | directory => simp [Files.read, hfind, bind, Except.bind] at hr
        | file bytes modified => simp [Files.modified?, hfind, bind, Except.bind, Except.map]

/-- A module that cannot be imported is reported, unless the memory answers first. -/
theorem exports_reports_iff {problem : Problem} (hp : isScriptPath path = true)
    (ht : w.view.target path = .ok place) (hf : Faulty w.files place problem) :
    (∃ m', exports path region w m = .ok [] m' ∧ Reported path ⟨region, problem⟩ m m') ↔
      ¬ Shadowed w.files m path place := by
  rw [← hf.known_eq_none_iff, exports_eq hp ht]
  constructor
  · rintro ⟨m', hm', hreported⟩
    cases hr : m.known w.files path place with
    | error f => simp [hr] at hm'
    | ok c =>
      cases c with
      | none => rfl
      | some c =>
        -- An answer from memory marks nothing.
        obtain ⟨-, rfl⟩ : c = [] ∧ m = m' := by simpa [hr] using hm'
        obtain ⟨regions, -, heffects⟩ := hreported.marked
        simp at heffects
  · intro hr
    simp only [hr, hf.examined]
    exact ⟨_, rfl, reported_reported m path region problem⟩

/-- A module that was broken after it was remembered. -/
theorem exports_reports_broken :
    let path := Text.ofString "./m.js"
    let w : World :=
      { files := .write {} [Text.ofString "m.js"] "(".toUTF8 2, view := { file := some (Text.ofString "v.js") } }
    let m : Memory := { modules := [(path, ⟨1, []⟩)] }
    Faulty w.files (some [Text.ofString "m.js"]) .unparsable ∧
      ∃ m', exports path ⟨0, 6⟩ w m = .ok [] m' ∧ Reported path ⟨⟨0, 6⟩, .unparsable⟩ m m' := by
  intro path w m
  have hfind : w.files.find (some [Text.ofString "m.js"]) = .ok (.file "(".toUTF8 2) := rfl
  have hparse : (parse (Text.unifyLineEnds (Text.ofString "(")) { isModule := true }).toOption.isNone = true := by
    decide +kernel
  have hfaulty : Faulty w.files (some [Text.ofString "m.js"]) .unparsable := by
    cases he : parse (Text.unifyLineEnds (Text.ofString "(")) { isModule := true } with
    | ok p => simp [he, Except.toOption] at hparse
    | error e => exact .unparsable (by simp [Files.read, hfind]; rfl) (by decide +kernel) he
  refine ⟨hfaulty, (exports_reports_iff (by decide +kernel) (by decide +kernel) hfaulty).mpr ?_⟩
  rintro ⟨snapshot, hs, h⟩
  obtain rfl := Option.some.inj hs
  simp [Files.modified?, hfind, bind, Except.bind] at h

/-- A remembered module whose file was removed is not reported. -/
theorem exports_raises_after_removal :
    let path := Text.ofString "./m.js"
    let place := some [Text.ofString "m.js"]
    let w : World :=
      { files := .write {} [Text.ofString "m.js"] "export let a".toUTF8 1,
        view := { file := some (Text.ofString "v.js") } }
    let w' := { w with files := w.files.remove [Text.ofString "m.js"] }
    isScriptPath path = true ∧ w'.view.target path = .ok place ∧ Faulty w'.files place .missing ∧
      outcome (exports path ⟨0, 6⟩) w' (after (exports path ⟨0, 6⟩) w {}) = .error .noSuchFile := by
  intro path place w w'
  exact ⟨by decide +kernel, by decide +kernel, .missing rfl, by decide +kernel⟩

end ScriptTree.Editor
