import ScriptTree.Proofs.Message
import ScriptTree.Proofs.Parse.Coverage
import ScriptTree.Proofs.Parse.Ends.Basic

/-! # How single steps end

Questions, complaints and finished nodes leave the place as it is. A token that is taken brings the next
one in sight, from wherever the scan stands inside the source (`Moves.poised`), and a failure on the way is
a rejection. -/

namespace ScriptTree

variable {t : Token}

namespace Parse

variable {c : Scan.Cursor} {ms : List Comment} {α β : Type} {env : Env} {n k lo : Nat} {s s' : State} {e : Failure}
  {B P : State → Prop} (m : Option Message) (parts : List Text) (mark word : String) (marks words : List String)

/-- There are so many parts at least. -/
class Enough (n : Nat) (parts : List Text) : Prop where
  le : n ≤ parts.length

instance : Enough 0 parts := ⟨Nat.zero_le _⟩

instance (n : Nat) (t : Text) [h : Enough n parts] : Enough (n + 1) (t :: parts) :=
  ⟨Nat.succ_le_succ h.le⟩

theorem raises_scan {p : Scan α} : Raises (scan p) env s e ↔ Raises p (settings env s) s.cursor e := by
  unfold Raises
  rw [scan_eq]
  cases h : p (settings env s) s.cursor with
  | ok b c => simp [scanned]
  | error e c => simp [scanned]

theorem known_cursorMark (h : env.source.OneLine → Scan.OnLine env.source c) : Known env (cursorMark c) where
  holds hs := by
    obtain ⟨hle, hline, hstart, -⟩ := h hs
    exact ⟨hle, hline, by simp [cursorMark, hstart]⟩

namespace Stays

variable {p : Parse α}

/-- A step that always returns. -/
theorem of_level [Knowable α] (hr : ∀ {s e}, ¬ Raises p env s e)
    (hl : ∀ {s a s'}, Returns p env s a s' → Level env s s' ∧ Known env a) : Stays env B p :=
  ⟨fun _ => ⟨fun _ _ h => hl h, fun _ h => absurd h hr⟩⟩

/-- A look at the state. -/
theorem reads [Knowable α] (q : State → α) (hq : ∀ {s}, B s → Known env (q s))
    (hp : ∀ s, p env s = .ok (q s) s := by intro; rfl) : Stays env B p where
  stays {s} hs := by
    refine ⟨fun a s' h => ?_, fun e h => ?_⟩
    · unfold Returns at h
      rw [hp] at h
      cases h
      exact ⟨.refl env _, hq hs⟩
    · obtain ⟨u, h⟩ := h
      rw [hp] at h
      cases h

instance : Stays env B (get : Parse State) := reads id fun _ => inferInstance
instance : Stays env B (read : Parse Env) := reads (fun _ => env) fun _ => inferInstance

/-- A change of the state that leaves the place as it is. -/
theorem modifies {f : State → State} (h : ∀ s, Level env s (f s)) : Stays env B (modify f : Parse Unit) :=
  of_level raises_modify fun {s _ s'} hs => by
    rw [returns_modify.mp hs]
    exact ⟨h s, inferInstance⟩

theorem sets {f : Context → Context} (h : ∀ c, Known env c → Known env (f c))
    (ha : ∀ c, (f c).allowIn = c.allowIn := by intro; rfl) : Stays env B (setContext f) :=
  modifies fun _ => ⟨rfl, rfl, rfl, id, h _, ha _, fun h => { h with }⟩

instance : Stays env B onlyValue := sets fun _ h => ⟨h.holds⟩
instance : Stays env B onlyTarget := sets fun _ h => ⟨h.holds⟩
instance : Stays env B freshCover := sets fun _ _ => ⟨inferInstanceAs (Known env (none : Option Token))⟩

section

variable [Ground env B]

instance : Stays env B options := .bind
instance : Stays env B startMark := reads State.startMark fun h => (Ground.flush h).start
instance : Stays env B scanMark := reads (fun s => cursorMark s.cursor) fun h =>
  known_cursorMark (Ground.flush h).cursor
instance : Stays env B (rawText t) := .bind

instance (t : Text) : Stays env B (complaintAt t) :=
  reads (fun s => ⟨s.lastMark.index, s.lastMark.line, s.lastMark.column + 1, t⟩) fun {s} h => ⟨fun hs => by
    have hm := (Ground.flush h).last.holds hs
    exact ⟨Int.natCast_nonneg _, Int.ofNat_le.mpr hm.le, congrArg Int.ofNat hm.line, congrArg (· + 1) hm.column⟩⟩

instance : Stays env B context := reads State.context Ground.cover
instance : Stays env B unlistToken := modifies fun _ => ⟨rfl, rfl, rfl, id, id, rfl, fun h => { h with }⟩

end

instance : Stays env (Poised env) lookahead := reads State.lookahead Poised.known
instance : Stays env (Poised env) peek := reads (·.lookahead.lexeme) fun h => ⟨h.evident.shown⟩

instance : Stays env (Poised env) (sees mark) := .bind
instance : Stays env (Poised env) (seesAny marks) := .bind
instance : Stays env (Poised env) (seesWord word) := .bind
instance : Stays env (Poised env) (seesAnyWord words) := .bind
instance (name : String) : Stays env (Poised env) (seesName name) := .bind
instance : Stays env (Poised env) seesEnd := .bind
instance : Stays env (Poised env) seesIdentifier := .bind

end Stays

theorem note_raises {className typeName : String} {start stop : Mark}
    (h : Raises (note className typeName start stop) env s e) : False := by
  replace h := Raises.first h rfl
  split at h
  · exact raises_modify h
  · exact raises_pure h

theorem visit_error {a : Attachment} {isEmptyBlock : Bool} {start stop : Nat}
    (h : a.visit isEmptyBlock start stop = .error e) : e = .unevenComments := by
  unfold Attachment.visit at h
  cases isEmptyBlock with
  | false => cases h
  | true =>
    unfold Attachment.takeInner at h
    simp only [if_true] at h
    split at h
    · cases h
      rfl
    · split at h <;> cases h

/-- Only comments beside nodes can get in the way of a finished node. -/
theorem finish_raises {start : Mark} {shape : Shape Node} (h : Raises (finish start shape) env s e) :
    env.options.attach = true ∧ e = .unevenComments := by
  rcases ((Raises.first h rfl).first rfl).bind with h | ⟨_, u, -, h⟩
  · exact (note_raises h).elim
  extract_lets n at h
  rcases h.ite with ⟨ha, h⟩ | ⟨_, h⟩
  · refine ⟨ha, ?_⟩
    replace h := h.first rfl
    extract_lets a rest at h
    have hrest {v : State} {visited : Attachment} (h : Raises (rest visited) env v e) : False := by
      replace h := Raises.modify h
      exact raises_pure h
    split at h
    · exact (hrest h.pure).elim
    · extract_lets _ at h
      split at h
      · exact (hrest h.pure).elim
      · rcases h.bind with h | ⟨_, _, h, _⟩
        · rw [raises_throw.mp h]
          exact visit_error ‹_›
        · exact absurd h returns_throw
  · exact absurd h raises_pure

instance (start : Mark) (shape : Shape Node) : Stays env B (finish start shape) := by
  refine ⟨fun _ => ⟨fun n s' h => ?_, fun e h => ?_⟩⟩
  · rw [(finish_returns h).1]
    exact ⟨⟨rfl, rfl, rfl, id, id, rfl, fun h => { h with }⟩, inferInstance⟩
  · obtain ⟨ha, rfl⟩ := finish_raises h
    exact .of_stray (.attach ha)

/-! ### Complaints -/

section

variable [Ground env B] (o : Offender)

instance (m : Message) [h : Enough m.places parts] : Stays env B (filled m parts) := by
  have hf := Message.fill_isSome (Nat.le_trans (Nat.le_of_eq (Message.placesIn_wording m)) h.le)
  unfold filled
  split
  · infer_instance
  · rename_i hn
    rw [hn] at hf
    cases hf

/-- The program is rejected. -/
instance (x : SyntaxError) [hx : Known env x] [Knowable α] : Stays env B (throw (.rejected x) : Parse α) := by
  refine ⟨fun _ => ⟨fun a s' h => absurd h returns_throw, fun e h => ?_⟩⟩
  rw [raises_throw.mp h]
  exact .rejects hx.holds

theorem tolerates {p : Parse Unit} {q : State → SyntaxError} (hq : ∀ {s}, B s → Known env (q s))
    (hp : ∀ s, p env s = scan (Scan.tolerate (q s)) env s := by intro; rfl) : Stays env B p where
  stays {s} hs := by
    have hneat : env.source.OneLine → Scan.Neat (settings env s) 1 (Scan.tolerate (q s)) := fun h =>
      .tolerates ((hq hs).holds h)
    refine ⟨fun _ s' h => ?_, fun e h => ?_⟩
    · obtain ⟨d, hd, rfl⟩ := returns_scan.mp ((hp s).symm.trans h)
      have hflush (hf : Flush env s) : Flush env { s with cursor := d } :=
        { hf with cursor := Scan.OnLine.returns hd hf.cursor hneat }
      obtain ⟨-, rfl⟩ := Scan.returns_tolerate.mp hd
      exact ⟨⟨rfl, rfl, rfl, id, id, rfl, hflush⟩, inferInstance⟩
    · obtain ⟨u, h⟩ := h
      have h := raises_scan.mp ⟨u, (hp s).symm.trans h⟩
      exact ⟨.inl ((Scan.Gives.tolerate (Q := fun _ _ => True) fun _ => trivial).raises h), Scan.OnLine.raises h (Ground.flush hs).cursor hneat⟩

instance (x : SyntaxError) [hx : Known env x] : Stays env B (scan (Scan.tolerate x)) := tolerates fun _ => hx

instance (m : Message) [Enough m.places parts] [Knowable α] :
    Stays env B (reject (α := α) m parts) := .bind fun _ _ => .bind fun _ _ => inferInstance

instance (l : Lexeme) [h : Known env l] : Stays env B (tokenText l) := by
  unfold tokenText
  split
  · infer_instance
  · rename_i hn
    refine ⟨fun _ => ⟨fun a s' h => absurd h returns_throw, fun e he => ?_⟩⟩
    rw [raises_throw.mp he]
    exact .of_stray (.longNumber (h.holds hn))

instance [ht : Known env t] : Stays env B (unexpectedToken t m) := by
  refine .bind fun c _ => .bind fun value _ => ?_
  refine Stays.reads (fun s => ⟨t.start, t.line, (t.start : Int) - (s.lastMark.index - s.lastMark.column) + 1, _⟩)
    fun {s} h => ⟨fun hs => ?_⟩
  have hm := (Ground.flush h).last.holds hs
  obtain ⟨hle, hline⟩ := ht.holds.2 hs
  refine ⟨Int.natCast_nonneg _, Int.ofNat_le.mpr hle, congrArg Int.ofNat hline, ?_⟩
  simp [hm.column]

instance [h : Known env o] : Stays env B (unexpected o m) := by
  unfold unexpected
  split
  · have := h.holds _ rfl
    infer_instance
  · infer_instance

instance [Known env t] [Knowable α] :
    Stays env B (rejectToken (α := α) t m) := .bind fun _ _ => inferInstance

instance [Known env o] [Knowable α] :
    Stays env B (rejectOffender (α := α) o m) := .bind fun _ _ => inferInstance

instance [Known env t] : Stays env B (complainToken t m) :=
  .bind fun _ _ => inferInstance

instance [Known env o] : Stays env B (complainOffender o m) :=
  .bind fun _ _ => inferInstance

instance (m : Message) [Enough m.places parts] : Stays env B (complain m parts) := by
  refine .bind fun description _ => .bind fun x hx => ?_
  refine tolerates (q := fun s => { x with line := s.cursor.line }) fun h => ⟨fun hs => ?_⟩
  have hline := ((Ground.flush h).cursor hs).line
  exact { hx.holds hs with line := congrArg Int.ofNat hline }

end

instance [Knowable α] : Stays env (Poised env) (rejectAhead (α := α) m) :=
  .bind fun _ => inferInstance

instance [Knowable α] : Stays env (Poised env) (rejectMissingFrom (α := α)) := by
  refine .bind fun l _ => ?_
  infer_instance

instance : Stays env (Poised env) peekNext where
  stays {s} hs := by
    refine ⟨fun t s' h => ?_, fun e h => ⟨.inl ?_, Scan.OnLine.raises (raises_scan.mp h) hs.flush.cursor
      fun _ => .peeks fun t => t⟩⟩
    · have hs' := peekNext_returns h
      obtain ⟨d, hd, rfl⟩ := returns_scan.mp h
      have hflush := Scan.OnLine.returns hd hs.flush.cursor fun _ => .peeks fun t => t
      obtain ⟨ms, c, h₁, hd⟩ := (Returns.first hd rfl).bind
      obtain ⟨t', u, h₂, hd⟩ := hd.bind
      obtain ⟨rfl, -⟩ := returns_pure.mp (hd.first rfl)
      have ho : Scan.Opened env.source c.openers := by
        rw [Scan.comments_openers h₁]
        exact hs.opened
      have ho' := Scan.next_opened h₂ ho
      have hc := Scan.OnLine.returns h₁ hs.flush.cursor
      have ht := Scan.OnLine.token hc (Scan.OnLine.returns h₂ hc) (Scan.next_spot h₂)
      refine ⟨⟨rfl, rfl, ?_, fun _ => ?_, id, rfl, fun hf => { hf with cursor := hflush }⟩,
        ⟨(Scan.next_evident h₂ ho).shown, ht⟩⟩
      · rw [hs']
      · rw [Scan.next_openers h₂, Scan.comments_openers h₁] at ho'
        rw [hs']
        exact ho'
    · replace h := raises_scan.mp h
      rcases (Raises.first h rfl).bind with h | ⟨ms, c, h₁, h⟩
      · exact Scan.comments_raises h
      rcases h.bind with h | ⟨t, u, -, h⟩
      · exact Scan.next_raises h
      · exact absurd (h.first rfl) raises_pure

instance : Stays env (Poised env) seesAsyncFunction := .bind
instance : Stays env (Poised env) seesImportCall := .bind
instance : Stays env (Poised env) seesLexicalDeclaration := by
  refine .bind fun t _ => ?_
  split <;> infer_instance

/-! ## Steps that take a token -/

theorem takeComment_raises {m : Comment} (h : Raises (takeComment m) env s e) : False := by
  rcases ((Raises.first h rfl).first rfl).bind with h | ⟨_, u, -, h⟩
  · exact note_raises h
  · rcases h.modify.ite with ⟨_, h⟩ | ⟨_, h⟩
    · exact raises_modify h
    · exact raises_pure h

theorem takeEach_raises
    (h : Raises (forIn ms PUnit.unit fun m _ => do takeComment m; pure (ForInStep.yield PUnit.unit)) env s e) :
    False := by
  induction ms generalizing s with
  | nil => exact raises_pure h
  | cons m ms ih =>
    rw [List.forIn_cons] at h
    rcases h.bind with h | ⟨step, u, h₁, h⟩
    · rcases h.bind with h | ⟨_, v, -, h⟩
      · exact takeComment_raises h
      · exact raises_pure h
    · obtain ⟨_, v, -, h₁⟩ := h₁.bind
      obtain ⟨rfl, rfl⟩ := h₁.ended
      exact ih h

theorem takeComments_raises (h : Raises takeComments env s e) : e.IsRejection := by
  rcases Raises.bind h with h | ⟨ms, u, -, h⟩
  · exact Scan.comments_raises (raises_scan.mp h)
  rcases h.bind with h | ⟨_, v, -, h⟩
  · exact (takeEach_raises h).elim
  · exact absurd h raises_pure

theorem listToken_raises (h : Raises (listToken t) env s e) : False := by
  replace h := Raises.first h rfl
  rcases h.ite with ⟨_, h⟩ | ⟨_, h⟩
  · exact raises_modify (h.first rfl)
  · exact raises_pure h

variable {l : Lexeme}

theorem shown_reserve {strict : Bool} (h : Scan.Evident env.source l) : Scan.Evident env.source (reserve strict l) := by
  unfold reserve
  split
  · split
    · exact ⟨.of_value rfl, by simp⟩
    · exact h
  · exact h

/-- The next token is in sight, and it starts where the scan stood or later. -/
theorem Moves.poised (h : Moves env s ms c t s')
    (hb : s.cursor.index ≤ env.source.length) (ho : Scan.Opened env.source s.cursor.openers)
    (hc : Known env s.context) (hf : Flush env s) : Poised env s' ∧ s.cursor.index ≤ s'.lookahead.start := by
  obtain ⟨found, hskip, -, -⟩ := Scan.comments_skip h.skipped
  have hbound : c.index ≤ env.source.length := hskip.index_le_length hb
  have ho' : Scan.Opened env.source c.openers := by
    rw [hskip.openers]
    exact ho
  have hopened := Scan.next_opened h.scanned ho'
  have hevident : Scan.Evident env.source s'.lookahead.lexeme := by
    rw [h.lookahead]
    exact shown_reserve (Scan.next_evident h.scanned ho')
  have hcover : Known env s'.context := by
    rw [h.context]
    exact hc
  have hskipped := Scan.OnLine.returns h.skipped hf.cursor
  have hscanned := Scan.OnLine.returns h.scanned hskipped
  have hline (hs : env.source.OneLine) : s'.lookahead.line = 1 := by
    rw [h.lookahead]
    exact (Scan.OnLine.token hskipped hscanned (Scan.next_spot h.scanned) hs).line
  have hflush : Flush env s' := by
    refine ⟨hscanned, ?_, ?_⟩
    · rcases h.marks.1 with hm | hm <;> rw [hm]
      · exact hf.start
      · exact known_cursorMark hskipped
    · rw [h.marks.2]
      exact known_cursorMark hf.cursor
  have hk := Scan.next_spans h.scanned
  have hstart : s'.lookahead.start = c.index := by
    rw [h.lookahead]
    exact hk.start
  refine ⟨⟨by rw [hstart, h.start], ?_, hk.walk.index_le_length hbound, fun hn => ?_, h.slash, hopened, hevident, hcover,
    hline, hflush⟩, by rw [hstart]; exact hskip.index_le⟩
  · rw [h.start]
    exact hk.walk.index_le
  · rw [h.start]
    exact (h.sights.resolve_left fun he => hn he.1).2.2.1.lt

theorem takeComments_justified (h : Raises takeComments env s e)
    (hf : env.source.OneLine → Scan.OnLine env.source s.cursor) : Justified env e := by
  refine ⟨.inl (takeComments_raises h), ?_⟩
  rcases Raises.bind h with h | ⟨ms, u, -, h⟩
  · exact Scan.OnLine.raises (raises_scan.mp h) hf
  rcases h.bind with h | ⟨_, v, -, h⟩
  · exact (takeEach_raises h).elim
  · exact absurd h raises_pure

theorem next_justified (h : Raises next env s e)
    (hf : env.source.OneLine → Scan.OnLine env.source s.cursor) : Justified env e := by
  rcases ((Raises.first h rfl).first rfl).modify.bind with h | ⟨_, u, h₁, h⟩
  · exact takeComments_justified h hf
  obtain ⟨ms, hskip, hu, -⟩ := takeComments_returns h₁
  have hskipped := Scan.OnLine.returns hskip hf
  replace h := (h.first rfl).modify
  obtain ⟨m, -, -, hw⟩ := startMark_replaced u (cursorMark u.cursor)
  rw [← cursorMark, hw] at h
  rcases h.bind with h | ⟨t, v, -, h⟩
  · have h := raises_scan.mp h
    exact ⟨.inl (Scan.next_raises h), Scan.OnLine.raises h hskipped⟩
  replace h := (h.first rfl).modify
  rcases h.ite with ⟨_, h⟩ | ⟨_, h⟩
  · exact absurd h raises_pure
  · rcases h.bind with h | ⟨_, w, -, h⟩
    · exact (listToken_raises h).elim
    · exact absurd h raises_pure

/-- What is known after a token was taken. -/
theorem Front.taken (hs : Front env n k lo s) (h : Returns next env s t s') : Taken env n k lo t s' ∧ Known env t := by
  obtain ⟨rfl, ms, c, t, hm⟩ := next_moves h
  obtain ⟨hp, hle⟩ := hm.poised hs.bound hs.opened hs.cover hs.flush
  have hlower := hs.lower
  have hroom := hs.room
  have hstart := hs.start
  have hstart' := hs.le
  have hend := hp.start_le
  refine ⟨⟨⟨hp, by omega, hroom⟩, fun hn => ⟨hp, ?_, ?_⟩⟩, hs.known⟩
  · have := hs.lt hn
    omega
  · have := hs.lt hn
    omega

namespace Ends

variable {f f' : Token → Parse β} {R : β → State → Prop}

theorem next [Fronted env (Poised env) (Front env n) k lo P] :
    Ends env P Parse.next Parse.next fun t s => Taken env n k lo t s ∧ Known env t := by
  intro s hs
  have hs' : Front env n k lo s := Fronted.front env hs
  exact ⟨rfl, fun t s' h => hs'.taken h, fun e h => next_justified h hs'.flush.cursor⟩

theorem take [Fronted env (Poised env) (Front env n) k lo P]
    (hf : ∀ t [Known env t], Ends env (Taken env n k lo t) (f t) (f' t) R) :
    Ends env P (Parse.next >>= f) (Parse.next >>= f') R :=
  .bind .next fun t => .fact fun _ => hf t

end Ends

instance : Trails env n Parse.next Parse.next where
  runs _ := .conclude .next fun _ _ h => ⟨h.1.toFront, h.2⟩

instance : Trails env n skip skip := by unfold skip; infer_instance

/-! ### Questions about the token ahead -/

/-- The step is a question about the token ahead. -/
class Asks (p : Parse α) (q : outParam (Token → α)) : Prop where
  asks : ∀ env s, p env s = .ok (q s.lookahead) s

instance : Asks lookahead (fun t => t) := ⟨fun _ _ => rfl⟩
instance : Asks peek Token.lexeme := ⟨fun _ _ => rfl⟩
instance : Asks (sees mark) (·.lexeme.isMark mark) := ⟨fun _ _ => rfl⟩
instance : Asks (seesAny marks) (fun t => marks.any t.lexeme.isMark) := ⟨fun _ _ => rfl⟩
instance : Asks (seesWord word) (·.lexeme.isWord word) := ⟨fun _ _ => rfl⟩
instance : Asks (seesAnyWord words) (fun t => words.any t.lexeme.isWord) :=
  ⟨fun _ _ => rfl⟩
instance (name : String) : Asks (seesName name) (·.lexeme.isName name) := ⟨fun _ _ => rfl⟩

namespace Ends

variable {p p' : Parse α} {q : Token → α} {f f' : α → Parse β} {R : β → State → Prop}

theorem ask [h : Asks p q] [Seen t P] (hf : Ends env P (f (q t)) (f' (q t)) R) : Ends env P (p >>= f) (p >>= f') R := by
  refine .bind (Q := fun a s => P s ∧ a = q t) (fun s hs => ⟨rfl, fun a s' ha => ?_, fun e he => ?_⟩) fun a =>
    .fact fun ha => ha ▸ hf
  · unfold Returns at ha
    rw [h.asks] at ha
    cases ha
    exact ⟨hs, by rw [Seen.ahead hs]⟩
  · obtain ⟨u, he⟩ := he
    rw [h.asks] at he
    cases he

/-- The token ahead is taken, and it is not the end. -/
theorem takes {f f' : Token → Parse β} (ht : t.lexeme ≠ .endOfInput)
    (hf : Ends env (Front env n 8 (lo + 1)) (f t) (f' t) R) :
    Ends env (Sights env n k lo t) (Parse.next >>= f) (Parse.next >>= f') R := by
  refine .bind (Q := fun a s => Front env n 8 (lo + 1) s ∧ a = t) (fun s hs => ⟨rfl, fun a s' ha => ?_, fun e he =>
    next_justified he hs.flush.cursor⟩) fun a => .fact fun ha => ha ▸ hf
  obtain ⟨hs', -⟩ := hs.toFront.taken ha
  have hat : a = t := (next_moves ha).1.trans hs.ahead
  exact ⟨hs'.behind (hat ▸ ht), hat⟩

theorem skips {f f' : Unit → Parse β} (ht : t.lexeme ≠ .endOfInput)
    (hf : Ends env (Front env n 8 (lo + 1)) (f ()) (f' ()) R) :
    Ends env (Sights env n k lo t) (skip >>= f) (skip >>= f') R :=
  .bind (Q := fun _ => Front env n 8 (lo + 1)) (.takes ht .pure) fun _ => hf

end Ends

theorem ne_end_of_isMark {mark : String} (h : l.isMark mark = true) : l ≠ .endOfInput := by
  rintro rfl
  cases h

theorem ne_end_of_isWord {word : String} (h : l.isWord word = true) : l ≠ .endOfInput := by
  rintro rfl
  cases h

theorem ne_end_of_isAny {marks : List String} (h : marks.any l.isMark = true) : l ≠ .endOfInput := by
  obtain ⟨mark, -, h⟩ := List.any_eq_true.mp h
  exact ne_end_of_isMark h

theorem ne_end_of_isAnyWord {words : List String} (h : words.any l.isWord = true) : l ≠ .endOfInput := by
  obtain ⟨word, -, h⟩ := List.any_eq_true.mp h
  exact ne_end_of_isWord h

theorem ne_end_of_isName {name : String} (h : l.isName name = true) : l ≠ .endOfInput := by
  rintro rfl
  cases h

instance : Fronts env n 0 (expect mark) (expect mark) where
  advances _ := .take fun _ => .ite (fun h => .taken (ne_end_of_isMark h) .result) fun _ => .fails

instance : Fronts env n 0 (expectWord word) (expectWord word) where
  advances _ := .take fun _ => .ite (fun h => .taken (ne_end_of_isWord h) .result) fun _ => .fails

instance : Trails env n expectComma expectComma where
  runs _ := .past <| .fork (.past .last) .last

instance (m : Mark) [hm : Known env m] : Stays env B (modify fun s => { s with lastMark := m } : Parse Unit) :=
  .modifies fun _ => ⟨rfl, rfl, rfl, id, id, rfl, fun h => { h with last := hm }⟩

instance : Stays env B (modify fun s => { s with lastMark := s.startMark } : Parse Unit) :=
  .modifies fun _ => ⟨rfl, rfl, rfl, id, id, rfl, fun h => { h with last := h.start }⟩

instance : Trails env n semicolon semicolon where
  runs _ := .past <| .fork .last <| .past <| .fork (.past <| .past <| .stayUnless .last) .last

instance : Trails env n expectArrow expectArrow := by unfold expectArrow; infer_instance

/-! ### Regular expressions -/

theorem regex_shown {st : Scan.Settings} {d : Scan.Cursor} (h : Returns Scan.regex st c t d) :
    t.lexeme.Shown env.source := by
  obtain ⟨pattern, e, -, h⟩ := (Returns.index h).bind
  obtain ⟨flags, u, -, h⟩ := h.ahead.bind
  obtain ⟨compiled, v, -, h⟩ := h.bind
  rw [(Scan.returns_token.mp h).1]
  exact .of_value rfl

theorem nextRegex_justified (hs : Poised env s)
    (hl : s.lookahead.lexeme.IsSlash)
    (h : Raises nextRegex env s e) : Justified env e := by
  obtain ⟨hx, hn₁, hn₂⟩ := hs.slash hl
  rcases (Raises.get h).bind with h | ⟨_, u, h₁, h⟩
  · exact absurd (raises_scan.mp h) raises_modify
  obtain ⟨d, hd, rfl⟩ := returns_scan.mp h₁
  obtain rfl := Scan.returns_seek.mp hd
  have hseek (h : env.source.OneLine) : Scan.OnLine env.source { s.cursor with index := s.startMark.index } :=
    { hs.flush.cursor h with le := (hs.flush.start.holds h).le }
  rcases h.bind with h | ⟨_, u, h₂, h⟩
  · exact takeComments_justified h hseek
  obtain ⟨ms, hskip, hu, -⟩ := takeComments_returns h₂
  have hskipped := Scan.OnLine.returns hskip hseek
  obtain ⟨-, hc⟩ := Scan.comments_slash hx hn₁ hn₂ hskip
  have hi : u.cursor.index = s.startMark.index := by rw [hc]
  have hlt := Source.lt_length_of_getElem? hx
  rcases h.bind with h | ⟨t, v, h₃, h⟩
  · have h := raises_scan.mp h
    refine ⟨.inl (Scan.regex_raises h ?_), Scan.OnLine.raises h hskipped⟩
    rw [hi]
    exact (Source.at?_of_lt hlt).trans hx
  obtain ⟨d, ht, rfl⟩ := returns_scan.mp h₃
  replace h := h.first rfl
  extract_lets rest at h
  have hrest {v : State} (hv : v.cursor = d) (h : Raises (rest ()) env v e) : Justified env e := by
    rcases (Raises.modify h).bind with h | ⟨_, w, -, h⟩
    · rcases Raises.bind h with h | ⟨_, w, -, h⟩
      · exact next_justified h (by rw [hv]; exact Scan.OnLine.returns ht hskipped)
      · exact absurd h raises_pure
    · exact absurd h raises_pure
  rcases h.ite with ⟨_, h⟩ | ⟨_, h⟩
  · rcases (h.first rfl).bind with h | ⟨_, w, h₄, h⟩
    · exact (listToken_raises h).elim
    · refine hrest ?_ h
      rw [listToken_returns h₄]
  · exact hrest rfl h

theorem Ends.regex (ht : t.lexeme.IsSlash) :
    Ends env (Sights env n k lo t) nextRegex nextRegex (Onwards env n lo) := by
  intro s hs
  have hl : s.lookahead.lexeme.IsSlash := by
    rw [hs.ahead]
    exact ht
  refine ⟨rfl, fun r s' h => ?_, fun e h => nextRegex_justified hs.toPoised hl h⟩
  obtain ⟨ms, c, u, hr, h⟩ := nextRegex_rescans h
  obtain ⟨hx, hn₁, hn₂⟩ := hs.slash hl
  obtain ⟨-, hc⟩ := Scan.comments_slash hx hn₁ hn₂ hr.skipped
  obtain ⟨-, hk⟩ := Scan.regex_takes hr.scanned
  obtain ⟨-, ms', c', t', hm⟩ := next_moves h
  have hi : c.index = s.startMark.index := by rw [hc]
  have hlt := hk.lt
  have hb : u.cursor.index ≤ env.source.length :=
    hk.walk.index_le_length (hi ▸ Nat.le_trans hs.le hs.bound)
  have ho : Scan.Opened env.source u.cursor.openers := by
    rw [hk.openers, hk.plain, hc]
    exact hs.opened
  have hseek (h : env.source.OneLine) : Scan.OnLine env.source { s.cursor with index := s.startMark.index } :=
    { hs.flush.cursor h with le := (hs.flush.start.holds h).le }
  have hskipped := Scan.OnLine.returns hr.skipped hseek
  have hscanned := Scan.OnLine.returns hr.scanned hskipped
  have hflush : Flush env u := ⟨hscanned, by rw [hr.start]; exact hs.flush.start, by rw [hr.last]; exact hs.flush.last⟩
  obtain ⟨hp, hle⟩ := hm.poised hb ho (by rw [hr.context]; exact hs.cover) hflush
  have hlower := hs.lower
  have hroom := hs.room
  have hstart := hs.start
  exact ⟨⟨hp, by omega, by omega⟩, ⟨regex_shown hr.scanned,
    Scan.OnLine.token hskipped hscanned (Scan.regex_spot hr.scanned)⟩⟩

theorem Front.set {c : Context} (hs : Front env n k lo s) (hc : Known env c) :
    Front env n k lo { s with context := c } := by
  obtain ⟨⟨hstart, hle, hbound, hlt, hslash, hopened, hevident, -, hline, hflush⟩, hlower, hroom⟩ := hs
  exact ⟨⟨hstart, hle, hbound, hlt, hslash, hopened, hevident, hc, hline, { hflush with }⟩, hlower, hroom⟩

/-- The context is changed, and no token comes into it. -/
theorem Ends.sets {change : Context → Context} {f f' : Unit → Parse β} {R : β → State → Prop}
    (hf : Ends env (Front env n k lo) (f ()) (f' ()) R)
    (hc : ∀ c, (change c).coverError = c.coverError ∨ (change c).coverError = none := by
      first | exact fun _ => .inl rfl | exact fun _ => .inr rfl) :
    Ends env (Front env n k lo) (setContext change >>= f) (setContext change >>= f') R := by
  refine .bind (Q := fun _ => Front env n k lo) (fun s hs => ⟨rfl, fun _ s' h => ?_, fun e h =>
    absurd h raises_modify⟩) fun _ => hf
  rw [returns_modify.mp h]
  refine hs.set ⟨?_⟩
  show Known env (change s.context).coverError
  rcases hc s.context with hc | hc
  · rw [hc]
    exact hs.cover.holds
  · rw [hc]
    infer_instance

section

variable [Knowable α] {p p' : Parse α}

theorem Ends.isolates [Placed env (Poised env) P] (h : Ends env P p p' (Read env (Front env n) lo)) :
    Ends env P (isolate p) (isolate p') (Read env (Front env n) lo) := by
  refine .stay fun before hb => .past <| .bind h fun a => .fact fun _ => .stay fun c hc => ?_
  split
  next t ht =>
    have : Known env t := hc.coverError t ht
    exact .fails_bind
  · have : Stays env (Poised env) (setContext fun c =>
        { c with
          isTarget := before.isTarget, isBinding := before.isBinding, coverError := before.coverError }) :=
      .sets fun _ _ => ⟨hb.holds⟩
    exact .past .result

theorem Ends.inherits [Placed env (Poised env) P] (h : Ends env P p p' (Read env (Front env n) lo)) :
    Ends env P (inherit p) (inherit p') (Read env (Front env n) lo) := by
  refine .stay fun before hb => .past <| .bind h fun a => .fact fun _ => ?_
  have : Stays env (Poised env) (setContext fun c =>
      { c with
        isTarget := c.isTarget && before.isTarget
        isBinding := c.isBinding && before.isBinding
        coverError := before.coverError.or c.coverError }) :=
    .sets fun c hc => ⟨⟨fun t ht => by
      rcases Option.or_eq_some_iff.mp ht with ht | ⟨-, ht⟩
      · exact hb.coverError t ht
      · exact hc.coverError t ht⟩⟩
  exact .past .result

instance [h : Fronts env n k p p'] : Fronts env n k (isolate p) (isolate p') where
  le := h.le
  advances lo := .isolates (h.advances lo)

instance [h : Fronts env n k p p'] : Fronts env n k (inherit p) (inherit p') where
  le := h.le
  advances lo := .inherits (h.advances lo)

end

section

variable [Knowable α] {F : Nat → Nat → State → Prop} {p p' : Parse α} {Q : α → State → Prop}

omit [Knowable α] in
/-- Rules that are put together from others in the usual ways. -/
theorem Ends.routine (h : Ends env P p p' Q := by
    repeat' first
      | with_reducible refine Known.pairs fun _ _ => ?_
      | with_reducible intro _
      | with_reducible exact .result
      | with_reducible exact .again
      | with_reducible exact .done
      | with_reducible exact .halt
      | with_reducible exact .last
      | with_reducible exact .only
      | with_reducible exact .fails
      | with_reducible exact .fails_bind
      | with_reducible refine .stayIf ?_
      | with_reducible refine .fork ?_ ?_
      | with_reducible refine .pure_bind ?_
      | with_reducible refine .stay ?_
      | with_reducible refine .sets ?_
      | with_reducible refine .go ?_
      | with_reducible refine .first ?_
      | with_reducible refine .loops ?_ ?_
      | dsimp only
      | split <;> first | (rename_i h; refine .opens h ?_) | skip
      | refine .stay ?_
      | refine .sets ?_
      | refine .go ?_
      | refine .first ?_) : Ends env P p p' Q := h

theorem Runs.routine (h : ∀ lo, Ends env (F 8 lo) p p' (Read env F lo) := by exact fun _ => .routine) :
    Runs env F p p' := ⟨h⟩

theorem Advances.routine (h : ∀ lo, Ends env (F k lo) p p' (Read env F (lo + 1)) := by exact fun _ => .routine)
    (hk : k ≤ 8 := by decide) : Advances env F k p p' := ⟨hk, h⟩

end

end Parse

end ScriptTree
