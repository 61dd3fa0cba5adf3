import ScriptTree.Proofs.Scan.Walk

/-! # White space and comments

`comments_skip` is the contract of the scan between two tokens: the comments lie one after the other from
where the cursor was to where it stops, only blanks are between them, each has the lines and columns of
its ends, and the cursor stops where a token may start. -/

namespace ScriptTree

variable {m : Comment} {ms : List Comment}

def Text.IsGap (x : Nat) : Prop := Text.isWhiteSpace x = true ∨ Text.isLineTerminator x = true

instance (x : Nat) : Decidable (Text.IsGap x) := inferInstanceAs (Decidable (_ ∨ _))

/-- Ranges that lie one after the other from one offset to another. None is empty, and outside them there
are only white space and line terminators. -/
inductive Tiles (src : Source) : Nat → List Range → Nat → Prop
  | done {i : Nat} : Tiles src i [] i
  | gap {i k x : Nat} {rs : List Range} : src.chars[i]? = some x → Text.IsGap x →
      Tiles src (i + 1) rs k → Tiles src i rs k
  | range {i j k : Nat} {rs : List Range} : i < j → Tiles src j rs k → Tiles src i (⟨i, j⟩ :: rs) k

namespace Tiles

variable {src : Source} {i j k x : Nat} {rs rs' : List Range}

theorem append (h : Tiles src i rs j) (h' : Tiles src j rs' k) : Tiles src i (rs ++ rs') k := by
  induction h with
  | done => exact h'
  | gap hx hg _ ih => exact .gap hx hg (ih h')
  | range hlt _ ih => exact .range hlt (ih h')

/-- A range at the end. -/
theorem snoc (h : Tiles src i rs j) (hlt : j < k) : Tiles src i (rs ++ [⟨j, k⟩]) k :=
  h.append (.range hlt .done)

/-- One blank. -/
theorem blank (hx : src.chars[i]? = some x) (hg : Text.IsGap x) : Tiles src i [] (i + 1) :=
  .gap hx hg .done

/-- Both halves of a line end are blank. -/
theorem lineEnd (hx : src.chars[i]? = some x) (ht : Text.isLineTerminator x = true) :
    Tiles src i [] (src.lineEnd i) := by
  unfold Source.lineEnd
  split
  · rename_i hp
    exact .gap hx (.inr ht) (.blank hp.2 (by decide))
  · exact .blank hx (.inr ht)

theorem le (h : Tiles src i rs j) : i ≤ j := by
  induction h with
  | done => exact Nat.le_refl _
  | gap _ _ _ ih => omega
  | range hlt _ ih => omega

/-- Every range lies between the two offsets and is not empty. -/
theorem bounds (h : Tiles src i rs j) : ∀ r ∈ rs, i ≤ r.start ∧ r.start < r.stop ∧ r.stop ≤ j := by
  induction h with
  | done => nofun
  | gap _ _ _ ih =>
    intro r hr
    have := ih r hr
    omega
  | range hlt hrest ih =>
    intro r hr
    rcases List.mem_cons.mp hr with rfl | hr
    · exact ⟨Nat.le_refl _, hlt, hrest.le⟩
    · have := ih r hr
      omega

/-- Each range ends before the later ones start. -/
theorem pairwise (h : Tiles src i rs j) : rs.Pairwise fun r r' => r.stop ≤ r'.start := by
  induction h with
  | done => exact .nil
  | gap _ _ _ ih => exact ih
  | range hlt hrest ih => exact .cons (fun r hr => (hrest.bounds r hr).1) ih

/-- A code point between the two offsets is blank or lies in a range. -/
theorem covers (h : Tiles src i rs j) (hi : i ≤ k) (hj : k < j) :
    (∃ r ∈ rs, r.start ≤ k ∧ k < r.stop) ∨ ∃ x, src.chars[k]? = some x ∧ Text.IsGap x := by
  induction h with
  | done => omega
  | @gap i _ x _ hx hg _ ih =>
    rcases Nat.eq_or_lt_of_le hi with rfl | hlt
    · exact .inr ⟨x, hx, hg⟩
    · exact ih hlt hj
  | @range i m _ _ _ _ ih =>
    by_cases hk : k < m
    · exact .inl ⟨⟨i, m⟩, List.mem_cons_self, hi, hk⟩
    · rcases ih (by omega) hj with ⟨r, hr, h⟩ | h
      · exact .inl ⟨r, List.mem_cons_of_mem _ hr, h⟩
      · exact .inr h

end Tiles

/-! ## Lists of things with ranges

Two lists that have the same ranges, one thing at a time. -/

section

variable {α β : Type} {xs : List α} {ys : List β} {f : α → Option Range} {g : β → Range}

theorem exists_of_mem_left (h : xs.map f = ys.map fun y => some (g y)) {x : α} (hx : x ∈ xs) :
    ∃ y ∈ ys, f x = some (g y) := by
  have hmem := List.mem_map_of_mem (f := f) hx
  rw [h] at hmem
  obtain ⟨y, hy, hr⟩ := List.mem_map.mp hmem
  exact ⟨y, hy, hr.symm⟩

theorem exists_of_mem_right (h : xs.map f = ys.map fun y => some (g y)) {y : β} (hy : y ∈ ys) :
    ∃ x ∈ xs, f x = some (g y) := by
  have hmem := List.mem_map_of_mem (f := fun y => some (g y)) hy
  rw [← h] at hmem
  exact List.mem_map.mp hmem

theorem pairwise_of_ranges (h : xs.map f = ys.map fun y => some (g y))
    (hp : ys.Pairwise fun y y' => (g y).stop ≤ (g y').start) :
    xs.Pairwise fun x x' => ∀ r ∈ f x, ∀ r' ∈ f x', r.stop ≤ r'.start := by
  have hmap : (xs.map f).Pairwise fun a b => ∀ r ∈ a, ∀ r' ∈ b, r.stop ≤ r'.start := by
    rw [h, List.pairwise_map]
    exact hp.imp (by simp)
  exact List.pairwise_map.mp hmap

end

namespace Scan

variable {E : Failure → Prop} {st : Settings} {b c d : Cursor} {n : Nat}

/-- Range and location of a comment are those of two places on the way of the cursor. -/
def CommentAt (src : Source) (p : Place) (m : Comment) : Prop :=
  ∃ q r, Walk src p q ∧ Walk src q r ∧ m.range = ⟨q.index, r.index⟩ ∧ m.location = ⟨q.position, r.position⟩

/-- The cursor passes a comment that starts where it stands, and perhaps the line end after it. -/
structure Passes (st : Settings) (c : Cursor) (m : Comment) (d : Cursor) : Prop extends Glides st c d where
  comment : CommentAt st.source c.toPlace m
  start : m.range.start = c.index
  tiles : Tiles st.source c.index [m.range] d.index

/-- A token may start at the cursor: neither a blank nor a comment with a slash does. -/
def Clear (st : Settings) (c : Cursor) : Prop :=
  ∀ x, st.source.chars[c.index]? = some x → ¬ Text.IsGap x ∧
    (x = 0x2F → st.source.at? (c.index + 1) ≠ some 0x2F ∧ st.source.at? (c.index + 1) ≠ some 0x2A)

/-- Nothing is skipped at the cursor: neither a blank nor a comment stands there. -/
def Settled (st : Settings) (lineHead : Bool) (c : Cursor) : Prop :=
  ∀ x, st.source.chars[c.index]? = some x → ¬ Text.IsGap x ∧
    (x = 0x2F → st.source.at? (c.index + 1) ≠ some 0x2F ∧ st.source.at? (c.index + 1) ≠ some 0x2A) ∧
    (lineHead = true → x = 0x2D → st.source.hasAt (c.index + 1) "->" = false) ∧
    (st.isModule = false → x = 0x3C → st.source.hasAt (c.index + 1) "!--" = false)

theorem position_back (h : Slides st b c) (hn : c.index = b.index + n) :
    (⟨c.line, (c.index : Int) - c.lineStart - n⟩ : Position) = b.toPlace.position := by
  rw [h.line, h.lineStart, hn]
  congr 1
  omega

/-- A line is passed up to its end, and perhaps its end too. -/
def PassesLine (st : Settings) (c : Cursor) (r : Nat × Position) (d : Cursor) : Prop :=
  ∃ e, Slides st c e ∧ r = (e.index, e.toPlace.position) ∧ Glides st e d ∧ Tiles st.source e.index [] d.index

theorem restOfLine_passes : Gives E st c (restOfLine n) (PassesLine st c) := by
  have hstop {c : Cursor} : Gives E st c (do return (← index, ← positionBack 0)) (PassesLine st c) :=
    .index <| .first rfl <| .pure ⟨c, .refl st c, by simp [Place.position], .refl st c, .done⟩
  induction n generalizing c with
  | zero => exact hstop
  | succ n ih =>
    refine .atEnd (fun _ => hstop) fun hlt => .take (Nat.le_of_lt hlt) fun x hx => ?_
    have hget := Source.getElem?_of_at? hx hlt
    refine .ite (fun ht => .index <| .first rfl <| .bind (newLine_gives hget) fun hd => .pure ?_) fun ht => ih.mono ?_
    · subst hd
      refine ⟨c, .refl st c, ?_, ⟨.line .here hget ht, rfl⟩, .lineEnd hget ht⟩
      simp only [Place.position, Nat.add_sub_cancel, Prod.mk.injEq, true_and]
      congr 1
      omega
    · rintro r d ⟨e, he, hr⟩
      exact ⟨e, (Slides.char hget (by simpa using ht)).trans he, hr⟩

/-- The mark of the comment is before the cursor. -/
theorem lineComment_passes {mark : Nat} (hb : Slides st b c) (hi : c.index = b.index + mark) (hm : 0 < mark) :
    Gives E st c (lineComment mark) (Passes st b) := by
  refine .index <| .first rfl <| .ahead <| .bind restOfLine_passes ?_
  rintro _ d ⟨e, he, rfl, hd, ht⟩
  have hstart : c.index - mark = b.index := by omega
  have hle := he.index_le
  refine .pure ⟨(hb.trans he).toGlides.trans hd, ?_, hstart, ?_⟩
  · refine ⟨b.toPlace, e.toPlace, .here, (hb.trans he).walk, by simp [hstart], ?_⟩
    rw [← position_back hb hi]
  · simp only [hstart]
    exact .range (by omega) ht

theorem restOfBlock_glides (hb : Glides st b c) : Gives E st c (restOfBlock n) fun _ => Glides st b := by
  induction n generalizing c with
  | zero => exact .pure hb
  | succ n ih =>
    refine .atEnd (fun _ => .pure hb) fun hlt => .take (Nat.le_of_lt hlt) fun x hx => ?_
    have hget := Source.getElem?_of_at? hx hlt
    refine .ite (fun ht => .bind (Glides.newLine hget ht) fun h => ih (hb.trans h)) fun ht => ?_
    have hs := hb.slide (.char hget (by simpa using ht))
    refine .fork (.here hlt fun y hy => .ite (fun hy' => .advance <| .pure ?_) fun _ => ih hs) (ih hs)
    exact hs.slide (.inner hy (eq_of_beq hy' ▸ by decide))

variable [Admits E]

theorem blockComment_passes (hb : Slides st b c) (hi : c.index = b.index + 2) :
    Gives E st c blockComment (Passes st b) := by
  refine .index <| .first rfl <| .ahead <| .bind (restOfBlock_glides (.refl st c)) fun {closed e} he =>
    .index <| .first rfl ?_
  extract_lets rest
  have hle := he.index_le
  have hstart : c.index - 2 = b.index := by omega
  have hend {errors} : Gives E st { e with errors := errors } (rest ()) (Passes st b) := by
    refine .pure ⟨⟨hb.walk.trans he.walk, he.openers.trans hb.openers⟩, ?_, hstart, ?_⟩
    · refine ⟨b.toPlace, e.toPlace, .here, hb.walk.trans he.walk, by simp [hstart], ?_⟩
      rw [← position_back hb hi]
      simp [Place.position]
    · simp only [hstart]
      exact .range (by omega) .done
  exact .fork hend (.complain fun _ _ => hend)

/-! ## All blanks -/

/-- A comment may start with the character at an offset: not with a blank, nor like markup in a module. -/
def MayStart (st : Settings) (i : Nat) : Prop :=
  ∃ x, st.source.at? i = some x ∧ ¬ Text.IsGap x ∧ (st.isModule = true → x ≠ 0x3C)

/-- Comments between tokens are passed one after the other. -/
structure Skips (st : Settings) (c : Cursor) (ms : List Comment) (d : Cursor) : Prop
    extends Glides st c d where
  comments : ∀ m ∈ ms, CommentAt st.source c.toPlace m
  starts : ∀ m ∈ ms, MayStart st m.range.start
  tiles : Tiles st.source c.index (ms.map Comment.range) d.index

theorem CommentAt.of_walk {src : Source} {p q : Place} (hw : Walk src p q)
    (h : CommentAt src q m) : CommentAt src p m := by
  obtain ⟨r, u, hr, hu⟩ := h
  exact ⟨r, u, hw.trans hr, hu⟩

namespace Skips

variable {e : Cursor} {lineHead : Bool}

theorem refl (st : Settings) (c : Cursor) : Skips st c [] c := ⟨.refl st c, nofun, nofun, .done⟩

theorem gap (hg : Glides st c d) (ht : Tiles st.source c.index [] d.index) (h : Skips st d ms e) : Skips st c ms e :=
  ⟨hg.trans h.toGlides, fun m hm => (h.comments m hm).of_walk hg.walk, h.starts, ht.append h.tiles⟩

theorem cons (hp : Passes st c m d) (hx : MayStart st c.index)
    (h : Skips st d ms e) : Skips st c (m :: ms) e :=
  ⟨hp.toGlides.trans h.toGlides,
    List.forall_mem_cons.mpr ⟨hp.comment, fun m' hm => (h.comments m' hm).of_walk hp.walk⟩,
    List.forall_mem_cons.mpr ⟨hp.start ▸ hx, h.starts⟩, hp.tiles.append h.tiles⟩

end Skips

theorem settled_of_end (h : st.source.length ≤ c.index) : Settled st lineHead c := by
  intro x hx
  have := Source.lt_length_of_getElem? hx
  omega

theorem Settled.clear (h : Settled st lineHead c) : Clear st c := fun x hx => ⟨(h x hx).1, (h x hx).2.1⟩

theorem blanks_settled (h : Settled st lineHead c) : Returns (blanks n lineHead) st c [] c := by
  cases n with
  | zero => rfl
  | succ n =>
    have hstay : Gives (fun _ => False) st c (blanks (n + 1) lineHead) fun ms d => ms = [] ∧ d = c := by
      refine .atEnd (fun _ => .pure ⟨rfl, rfl⟩) fun hlt => .here (Nat.le_of_lt hlt) fun x hx => .index ?_
      obtain ⟨hgap, hslash, hdash, hangle⟩ := h x (Source.getElem?_of_at? hx hlt)
      refine .neg (fun hw => hgap (.inl hw)) (.neg (fun ht => hgap (.inr ht)) (.ite (fun hs => ?_) fun _ => ?_))
      · obtain ⟨hl, hb⟩ := hslash (eq_of_beq hs)
        refine .charAt hlt fun y hy => ?_
        rw [hy] at hl hb
        exact .neg (by simpa using hl) (.neg (by simpa using hb) (.pure ⟨rfl, rfl⟩))
      · refine .ite (fun hd => .first rfl (.neg ?_ (.pure ⟨rfl, rfl⟩))) fun _ =>
          .first rfl <| .ite (fun ha => .first rfl (.neg ?_ (.pure ⟨rfl, rfl⟩))) fun _ => .pure ⟨rfl, rfl⟩
        · simp only [Bool.and_eq_true, beq_iff_eq] at hd
          simp [hdash hd.1 hd.2]
        · simp only [Bool.and_eq_true, beq_iff_eq, Bool.not_eq_true'] at ha
          simp [hangle ha.2 ha.1]
    obtain ⟨_, _, hr, rfl, rfl⟩ := hstay.total
    exact hr

/-- The mark of a comment that has come from markup. -/
theorem Slides.mark {x : Nat} {w : String} (hx : st.source.at? c.index = some x) (hi : Text.Inner x)
    (hw : ∀ y ∈ Text.ofString w, Text.Inner y) (hs : st.source.hasAt (c.index + 1) w = true) :
    Slides st c { c with index := c.index + (1 + w.length) } := by
  have hrest := Slides.along (c := { c with index := c.index + 1 }) hs hw w.length (Nat.le_refl _)
  rw [← Nat.add_assoc]
  exact (Slides.inner hx hi).trans hrest

/-- Comments are passed, and nothing is left to skip if there is fuel for every code point ahead. Before the first one a
line starts. -/
structure SkipsAll (n : Nat) (lineHead : Bool) (st : Settings) (c : Cursor) (ms : List Comment) (d : Cursor) : Prop
    extends Skips st c ms d where
  stops : (c.index = 0 → lineHead = true) → st.source.length - c.index ≤ n → Settled st (d.index == 0) d

theorem blanks_gives : Gives E st c (blanks n lineHead) (SkipsAll n lineHead st c) := by
  induction n generalizing c lineHead with
  | zero => exact .pure ⟨.refl st c, fun _ hf => settled_of_end (by omega)⟩
  | succ n ih =>
    have hstop (hc : (c.index = 0 → lineHead = true) → Settled st (c.index == 0) c) : Gives E st c (pure []) (SkipsAll (n + 1) lineHead st c) :=
      .pure ⟨.refl st c, fun hb _ => hc hb⟩
    have hcomment {p : Scan Comment} {e : Cursor} {lineHead lineHead' : Bool} (hp : Gives E st e p (Passes st c))
        (hx : MayStart st c.index) : Gives E st e (do let m ← p; return m :: (← blanks n lineHead)) (SkipsAll (n + 1) lineHead' st c) := by
      refine .bind hp fun {m u} hp => .bind ih fun ⟨hs, hc⟩ => .pure ⟨.cons hp hx hs, fun _ hf => ?_⟩
      have := hp.tiles.bounds m.range (by simp)
      exact hc (by omega) (by omega)
    refine .atEnd (fun he => hstop fun _ => settled_of_end he) fun hlt => .here (Nat.le_of_lt hlt) fun x hx => .index ?_
    have hget := Source.getElem?_of_at? hx hlt
    have hblank {e : Cursor} (hg : Glides st c e) (ht : Tiles st.source c.index [] e.index) (hi : c.index < e.index)
        {lineHead lineHead' : Bool} : Gives E st e (blanks n lineHead) (SkipsAll (n + 1) lineHead' st c) :=
      ih.mono fun ⟨hs, hc⟩ => ⟨hs.gap hg ht, fun _ hf => hc (by omega) (by omega)⟩
    refine .ite (fun hw => .advance ?_) fun hw => .ite (fun ht => .advance ?_) fun ht => ?_
    · exact hblank (Slides.inner hx (Text.inner_of _ hw)).toGlides (.blank hget (.inl hw)) (Nat.lt_succ_self _)
    · refine .bind (newLine_gives hget) fun hd => hblank ?_ ?_ ?_ <;> subst hd
      · exact ⟨.line .here hget ht, rfl⟩
      · exact .lineEnd hget ht
      · exact st.source.lt_lineEnd c.index
    have hnone (hs : x = 0x2F → st.source.at? (c.index + 1) ≠ some 0x2F ∧ st.source.at? (c.index + 1) ≠ some 0x2A)
        (hd : lineHead = true → x = 0x2D → st.source.hasAt (c.index + 1) "->" = false)
        (ha : st.isModule = false → x = 0x3C → st.source.hasAt (c.index + 1) "!--" = false) :=
      hstop fun hb y hy => by
        obtain rfl : x = y := Option.some.inj (hget.symm.trans hy)
        exact ⟨fun hg => hg.elim hw ht, hs, fun h0 => hd (hb (by simpa using h0)), ha⟩
    refine .ite (fun hs => ?_) fun hs => ?_
    · -- two kinds of comments start with a slash
      obtain rfl : x = 0x2F := by simpa using hs
      have hne : MayStart st c.index := ⟨_, hx, by decide, fun _ => by decide⟩
      refine .charAt hlt fun y hy => ?_
      have hmark (hi : Text.Inner y) := (Slides.char hget rfl).trans (Slides.inner hy hi)
      refine .ite (fun hy' => .advance <| hcomment (lineComment_passes (hmark ?_) rfl (by decide)) hne) fun hl =>
        .ite (fun hy' => .advance <| hcomment (blockComment_passes (hmark ?_) rfl) hne) fun hb =>
          hnone (fun _ => ?_) (by simp) (by simp)
      · exact eq_of_beq hy' ▸ by decide
      · exact eq_of_beq hy' ▸ by decide
      · rw [hy]
        exact ⟨by simpa using hl, by simpa using hb⟩
    replace hnone := hnone fun hx => absurd (by simpa using hx) hs
    refine .ite (fun hd => .first rfl <| .ite (fun hrest => .advance ?_) fun hn => ?_) fun hd =>
      .first rfl <| .ite (fun ha => .first rfl <| .ite (fun hrest => .advance ?_) fun hn => ?_) fun ha => ?_
    · obtain rfl : x = 0x2D := by simpa using (Bool.and_eq_true_iff.mp hd).2
      exact hcomment (lineComment_passes (.mark hx (by decide) (by decide) hrest) rfl (by decide))
        ⟨_, hx, by decide, fun _ => by decide⟩
    · exact hnone (fun _ _ => by simpa using hn) fun _ hx => by simp [hx] at hd
    · simp only [Bool.and_eq_true, beq_iff_eq, Bool.not_eq_true'] at ha
      obtain rfl := ha.1
      exact hcomment (lineComment_passes (.mark hx (by decide) (by decide) hrest) rfl (by decide))
        ⟨_, hx, by decide, fun hm => absurd (hm.symm.trans ha.2) (by decide)⟩
    · exact hnone (fun hl hx => absurd (by simp [hl, hx]) hd) fun _ _ => by simpa using hn
    · exact hnone (fun hl hx => absurd (by simp [hl, hx]) hd) fun hm hx => absurd (by simp [hm, hx]) ha

theorem blanks_skips (h : Returns (blanks n lineHead) st c ms d) : Skips st c ms d :=
  ((blanks_gives (E := Failure.IsRejection)).returns h).toSkips

/-- Everything between two tokens is skipped, and the comments are returned on demand. -/
theorem comments_gives : Gives E st c comments fun ms d =>
    ∃ found, Skips st c found d ∧ Settled st (d.index == 0) d ∧ ms = if st.comments then found else [] :=
  .ahead <| .index <| .bind blanks_gives fun h =>
    .first rfl <| .pure ⟨_, h.toSkips, h.stops (by simp) (Nat.le_refl _), rfl⟩

theorem comments_skip (h : Returns comments st c ms d) :
    ∃ found, Skips st c found d ∧ Clear st d ∧ ms = if st.comments then found else [] := by
  obtain ⟨found, hs, hsettled, hms⟩ := (comments_gives (E := Failure.IsRejection)).returns h
  exact ⟨found, hs, hsettled.clear, hms⟩

theorem returns_comments : Returns comments st c ms d ↔
    ∃ found, Returns (blanks (st.source.length - c.index) (c.index == 0)) st c found d ∧
      ms = if st.comments then found else [] := by
  simp [comments, and_left_comm, and_assoc]

theorem comments_settled (h : Settled st (c.index == 0) c) : Returns comments st c [] c :=
  returns_comments.mpr ⟨[], blanks_settled h, (ite_self []).symm⟩

/-- Once blanks and comments are skipped there are none left: a second scan for them returns nothing, complains of
nothing and stays where it is, although it does not know whether a line starts there. -/
theorem comments_idempotent (st : Settings) (c : Cursor) (h : Returns comments st c ms d) : Returns comments st d [] d := by
  obtain ⟨_, -, hsettled, -⟩ := (comments_gives (E := Failure.IsRejection)).returns h
  exact comments_settled hsettled

/-- A comment after `-->`, which is one since its line starts with another comment. -/
theorem comments_idempotent_markup : let st : Settings := { source := .ofText (Text.ofString "/**/-->a\n+"), comments := true }
    ∃ ms d, Returns comments st { line := 1 } ms d ∧ ms.length = 2 ∧ d.index = 9 ∧ Returns comments st d [] d := by
  intro st
  obtain ⟨ms, d, h, hq⟩ := exists_returns (p := comments) (r := st) (s := { line := 1 })
    (q := fun ms d => ms.length == 2 && d.index == 9) (by decide)
  simp only [Bool.and_eq_true, beq_iff_eq] at hq
  exact ⟨ms, d, h, hq.1, hq.2, comments_idempotent st _ h⟩

/-- All comments that are skipped are returned. -/
theorem comments_collected (hc : st.comments = true) (h : Returns comments st c ms d) : Skips st c ms d := by
  obtain ⟨found, hs, -, rfl⟩ := comments_skip h
  rwa [if_pos hc]

theorem comments_raises {e : Failure} (h : Raises comments st c e) : e.IsRejection := comments_gives.raises h

/-- Before a slash that starts no comment there is nothing to skip. -/
theorem comments_slash (hx : st.source.chars[c.index]? = some 0x2F)
    (hl : st.source.at? (c.index + 1) ≠ some 0x2F) (hb : st.source.at? (c.index + 1) ≠ some 0x2A)
    (h : Returns comments st c ms d) : ms = [] ∧ d = c := by
  have hsettled : Settled st (c.index == 0) c := by
    intro x hx'
    obtain rfl := Option.some.inj (hx.symm.trans hx')
    exact ⟨by decide, fun _ => ⟨hl, hb⟩, by simp, by simp⟩
  cases (comments_settled hsettled).symm.trans h
  exact ⟨rfl, rfl⟩

end Scan

end ScriptTree
