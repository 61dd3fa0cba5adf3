import ScriptTree.Proofs.Scan.Comments
import ScriptTree.Proofs.Scan.Tokens

/-! # Lines in the course of a scan

A scan is asked for comments, tokens and regular expressions in any order, and it may go back to a place that it
has saved. Each call walks over the source from where the scan is, and a saved place was reached by such a walk.
So line and line start are always those of the offset, however the calls follow each other (`answers_count`). -/

namespace ScriptTree.Scan

/-- What a scan is asked for. -/
inductive Call where
  | comments
  | next
  | regex
  | save
  /-- A return to a saved place. The place that was saved last has the age zero. -/
  | restore (age : Nat)

/-- Answers a call, given the saved places. -/
def Call.answer (saved : List Place) : Call → Scan (List Place)
  | comments => do
    let _ ← Scan.comments
    return saved
  | next => do
    let _ ← Scan.next
    return saved
  | regex => do
    let _ ← Scan.regex
    return saved
  | save => return (← Scan.save) :: saved
  | restore age =>
    match saved[age]? with
    | some place => do
      Scan.restore place
      return saved
    | none => throw .noSuchMember

def answers (calls : List Call) : Scan (List Place) := calls.foldlM Call.answer []

variable {st : Settings} {c d : Cursor} {saved saved' : List Place}

/-- The cursor and all saved places were reached by walks from the start of the source. -/
def Tracked (src : Source) (c : Cursor) (saved : List Place) : Prop :=
  ∀ p ∈ c.toPlace :: saved, Walk src (start src).toPlace p

theorem Tracked.walk (h : Tracked st.source c saved) (hw : Walk st.source c.toPlace d.toPlace) :
    Tracked st.source d saved := by
  obtain ⟨hc, hsaved⟩ := List.forall_mem_cons.mp h
  exact List.forall_mem_cons.mpr ⟨hc.trans hw, hsaved⟩

theorem Call.answer_tracked {call : Call} (h : Tracked st.source c saved)
    (hr : Returns (call.answer saved) st c saved' d) : Tracked st.source d saved' := by
  cases call with
  | comments =>
    obtain ⟨ms, u, h₁, hr⟩ := Returns.bind hr
    obtain ⟨rfl, rfl⟩ := hr.ended
    obtain ⟨_, hskip, -⟩ := comments_skip h₁
    exact h.walk hskip.walk
  | next =>
    obtain ⟨t, u, h₁, hr⟩ := Returns.bind hr
    obtain ⟨rfl, rfl⟩ := hr.ended
    exact h.walk (next_spans h₁).walk
  | regex =>
    obtain ⟨t, u, h₁, hr⟩ := Returns.bind hr
    obtain ⟨rfl, rfl⟩ := hr.ended
    exact h.walk (regex_takes h₁).2.walk
  | save =>
    obtain ⟨rfl, rfl⟩ := returns_pure.mp (Returns.first hr rfl)
    exact List.forall_mem_cons.mpr ⟨h _ (.head _), h⟩
  | restore age =>
    dsimp only [answer] at hr
    cases hp : saved[age]? with
    | none =>
      rw [hp] at hr
      exact absurd hr returns_throw
    | some place =>
      rw [hp] at hr
      obtain ⟨rfl, rfl⟩ := returns_pure.mp (Returns.first hr rfl)
      have hmem := List.mem_of_getElem? hp
      exact List.forall_mem_cons.mpr ⟨h _ (List.mem_cons_of_mem _ hmem), (List.forall_mem_cons.mp h).2⟩

theorem answers_tracked {calls : List Call} (h : Returns (answers calls) st (start st.source) saved d) :
    Tracked st.source d saved := by
  have hstart : Tracked st.source (start st.source) [] := by simp [Tracked, Walk.here]
  unfold answers at h
  generalize start st.source = c, ([] : List Place) = found at h hstart
  induction calls generalizing c found with
  | nil =>
    obtain ⟨rfl, rfl⟩ := h.ended
    exact hstart
  | cons call calls ih =>
    rw [List.foldlM_cons] at h
    obtain ⟨found', u, h₁, h⟩ := h.bind
    exact ih u found' h (Call.answer_tracked hstart h₁)

/-- Whatever a scan of a text that is not empty was asked for: if nothing has failed, the cursor is inside the
text, its line is one more than the number of line ends before it, its line starts after the last of them, and it
is not inside a pair of carriage return and line feed. -/
theorem answers_count {t : Text} {calls : List Call} (ht : t ≠ []) (hst : st.source = .ofText t)
    (h : Returns (answers calls) st (start st.source) saved c) :
    c.index ≤ t.length ∧ c.line = 1 + Text.lineBreaks (t.take c.index) ∧
      c.lineStart + Text.lastLineLength (t.take c.index) = c.index ∧ Text.Whole t c.index := by
  have hwalk := answers_tracked h c.toPlace (.head _)
  have hlength : 0 < t.length := List.length_pos_iff.mpr ht
  have hstart : (start st.source).toPlace = ⟨0, 1, 0⟩ := by
    simp [start, hst, Source.length_ofText, hlength]
  rw [hstart, hst] at hwalk
  obtain ⟨hline, hlineStart, hwhole⟩ := hwalk.counts
  have hindex := hwalk.index_le_length (Nat.zero_le _)
  rw [Source.length_ofText] at hindex
  exact ⟨hindex, by rw [hline, Nat.add_comm], hlineStart, hwhole⟩

/-- A template with a pair of carriage return and line feed, and a regular expression at which the scan has been
before. -/
theorem answers_count_template :
    let t := Text.ofString "`\r\n`/b/"
    let calls := [.next, .save, .next, .restore 0, .regex]
    let c : Cursor := { index := 7, line := 2, lineStart := 3 }
    Returns (answers calls) { source := .ofText t } (start (.ofText t)) [⟨4, 2, 3⟩] c ∧
      c.line = 1 + Text.lineBreaks (t.take c.index) ∧
      c.lineStart + Text.lastLineLength (t.take c.index) = c.index := by
  intro t calls c
  have h : Returns (answers calls) { source := .ofText t } (start (.ofText t)) [⟨4, 2, 3⟩] c := by
    rfl
  obtain ⟨-, hline, hlineStart, -⟩ := answers_count (by decide) rfl h
  exact ⟨h, hline, hlineStart⟩

end ScriptTree.Scan
