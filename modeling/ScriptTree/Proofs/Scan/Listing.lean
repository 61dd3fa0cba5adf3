import ScriptTree.Proofs.Scan.Groups

/-! # The list of tokens and comments is faithful

What `tokenize` lists is the source again: the entries lie one after the other, each token has its own
text, between them there are only blanks, and lines and columns are those of the offsets. -/

namespace ScriptTree

def Entry.isComment (e : Entry) : Bool := e.kind == "BlockComment" || e.kind == "LineComment"

namespace Listing

open Scan

variable {src : Source} {p q r : Place} {e : Entry} {es es' : List Entry}

/-- Range, location and value of an entry are those of the text between two places on the way from a
place. -/
def EntryAt (src : Source) (p : Place) (e : Entry) : Prop :=
  ∃ q r, Walk src p q ∧ Walk src q r ∧ e.range = some ⟨q.index, r.index⟩ ∧
    e.location = some ⟨q.position, r.position⟩ ∧
    (e.isComment = false → e.value = src.slice q.index r.index)

theorem EntryAt.of_walk (hw : Walk src p q) (h : EntryAt src q e) : EntryAt src p e := by
  obtain ⟨r, u, hr, hu⟩ := h
  exact ⟨r, u, hw.trans hr, hu⟩

section

variable {o : Options} {st : Settings} {c d : Cursor} (hr : o.range = true) (hl : o.location = true)
include hr hl

theorem entryAt_comments {ms : List Comment} (hs : Skips st c ms d) :
    ∀ e ∈ ms.map (ofComment o st.source), EntryAt st.source c.toPlace e := by
  intro e he
  obtain ⟨m, hm, rfl⟩ := List.mem_map.mp he
  obtain ⟨q, r, hq, hr', hrange, hloc⟩ := hs.comments m hm
  refine ⟨q, r, hq, hr', by simp [ofComment, hr, hrange], by simp [ofComment, hl, hloc], fun hc => ?_⟩
  cases hk : m.multiLine <;> simp [ofComment, Entry.isComment, hk] at hc

theorem entryAt_token {t : Token} (ht : Takes st c t d) :
    EntryAt st.source c.toPlace (ofToken o st.source t c.toPlace.position d.toPlace.position) :=
  ⟨c.toPlace, d.toPlace, .here, ht.walk, by simp [ofToken, hr, ht.start, ht.stop], by simp [ofToken, hl],
    fun _ => by simp [ofToken, ht.start, ht.stop]⟩

/-- Whatever is listed stands in the source that the cursor has passed. -/
theorem Reaches.entryAt (hc : st.comments = true) {ls : List Lexeme} (h : Reaches o st ls es c) :
    Walk st.source (Scan.start st.source).toPlace c.toPlace ∧
      ∀ e ∈ es, EntryAt st.source (Scan.start st.source).toPlace e := by
  induction h with
  | start => exact ⟨.here, nofun⟩
  | token _ hms hlt hk ih =>
    obtain ⟨hw, hes⟩ := ih
    have hs := comments_collected hc hms
    have ht := tokenAfter_takes hlt hk
    have hw' := hw.trans hs.walk
    refine ⟨hw'.trans ht.walk, fun e he => ?_⟩
    rcases List.mem_append.mp he with he | he
    · exact hes e he
    rcases List.mem_append.mp he with he | he
    · exact (entryAt_comments hr hl hs e he).of_walk hw
    · rw [List.mem_singleton.mp he]
      exact (entryAt_token hr hl ht).of_walk hw'

end

/-- Entries that say what a text is: none is empty, they do not overlap and come in the order of the text,
tokens have the text of their range, lines and columns are those of the offsets, and outside all entries
there are only blanks. -/
structure Faithful (t : Text) (es : List Entry) : Prop where
  entries : ∀ e ∈ es, ∃ r, e.range = some r ∧ r.start < r.stop ∧ r.stop ≤ t.length ∧
    (e.isComment = false → e.value = t.slice r.start r.stop) ∧
    e.location = some ⟨t.positionOf r.start, t.positionOf r.stop⟩
  order : es.Pairwise fun e e' => ∀ r ∈ e.range, ∀ r' ∈ e'.range, r.stop ≤ r'.start
  blank : ∀ i x, t[i]? = some x → (∀ e ∈ es, ∀ r ∈ e.range, ¬ (r.start ≤ i ∧ i < r.stop)) →
    Text.isWhiteSpace x = true ∨ Text.isLineTerminator x = true

/-- A list from the start to the end of a program is faithful. -/
theorem faithful {t : Text} {rs : List Range} (hrs : es.map Entry.range = rs.map some)
    (ht : Tiles (.ofText t) 0 rs t.length) (hes : ∀ e ∈ es, EntryAt (.ofText t) (start (.ofText t)).toPlace e) :
    Faithful t es := by
  have hpos {p} : t ≠ [] → Walk (.ofText t) (start (.ofText t)).toPlace p → p.position = t.positionOf p.index := by
    intro hne hw
    have : (start (.ofText t)).toPlace = ⟨0, 1, 0⟩ := by
      simp [start, Source.length_ofText, List.length_pos_iff.mpr hne]
    rw [this] at hw
    exact hw.position
  refine ⟨fun e he => ?_, pairwise_of_ranges (g := id) hrs ht.pairwise, fun i x hx hout => ?_⟩
  · obtain ⟨r, hr, hre⟩ := exists_of_mem_left (g := id) hrs he
    obtain ⟨-, hlt, hle⟩ := ht.bounds r hr
    obtain ⟨u, v, hu, hv, hrange, hloc, hval⟩ := hes e he
    obtain rfl : r = ⟨u.index, v.index⟩ := Option.some.inj (hre.symm.trans hrange)
    have hne : t ≠ [] := List.ne_nil_of_length_pos (Nat.lt_of_lt_of_le (Nat.zero_lt_of_lt hlt) hle)
    refine ⟨_, hrange, hlt, hle, fun hc => ?_, ?_⟩
    · rw [hval hc, Source.slice_ofText hle]
    · rw [hloc, hpos hne hu, hpos hne (hu.trans hv)]
  · rcases ht.covers (Nat.zero_le i) (List.getElem?_eq_some_iff.mp hx).1 with ⟨r, hr, hin⟩ | ⟨y, hy, hg⟩
    · obtain ⟨e, he, hre⟩ := exists_of_mem_right (g := id) hrs hr
      exact absurd hin (hout e he r hre)
    · rw [Source.getElem?_ofText, hx] at hy
      exact Option.some.inj hy ▸ hg

end Listing

/-- The list of all tokens and comments of a program loses and invents nothing. -/
theorem tokenize_faithful {t : Text} {es : List Entry} {errors : List SyntaxError}
    (h : tokenize t { comments := true, range := true, location := true } = .ok (es, errors)) :
    Listing.Faithful t es := by
  obtain ⟨ls, es', c, ms, d, hr, hms, hend, rfl, -⟩ := Listing.tokenize_reaches rfl h
  obtain ⟨rs, hrs, ht⟩ := hr.tiles rfl rfl
  obtain ⟨hms', ht'⟩ := Listing.tiles_comments (o := { comments := true, range := true, location := true }) rfl rfl hms
  obtain ⟨hw, hes⟩ := hr.entryAt rfl rfl rfl
  have hs := Scan.comments_collected rfl hms
  have hd : d.index = t.length := by
    have hle := (hw.trans hs.walk).index_le_length (Nat.zero_le _)
    rw [Listing.Options.settings, Source.length_ofText] at hle hend
    exact Nat.le_antisymm hle hend
  have hall := hd ▸ ht.append ht'
  refine Listing.faithful ?_ hall fun e he => ?_
  · rw [List.map_append, List.map_append, hrs, ← hms']
    rfl
  · rcases List.mem_append.mp he with he | he
    · exact hes e he
    · exact (Listing.entryAt_comments rfl rfl hs e he).of_walk hw

/-- A regular expression, comments of two kinds, line ends of one and of two characters, and a template. -/
theorem tokenize_faithful_template :
    let t := Text.ofString "a=/[/]/g/*b*/\r\n//c\n`d$\x7be\x7d\r`"
    ∃ es errors, tokenize t { comments := true, range := true, location := true } = .ok (es, errors) ∧
      es.length = 8 ∧ Listing.Faithful t es := by
  intro t
  have hlen : (tokenize t { comments := true, range := true, location := true }).toOption.map
      (fun r => r.1.length) = some 8 := by decide
  cases h : tokenize t { comments := true, range := true, location := true } with
  | error e => rw [h] at hlen; cases hlen
  | ok r =>
    rw [h] at hlen
    exact ⟨r.1, r.2, rfl, Option.some.inj hlen, tokenize_faithful h⟩

end ScriptTree
