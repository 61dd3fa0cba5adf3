import ScriptTree.Proofs.Parse.Mirror.Basic
import ScriptTree.Proofs.Parse.Reads

/-! # Tokens and complaints on both sides

The steps that all rules are made of look at nothing that differs, but for two: a comma may be missing, and
a complaint be passed over, on a tolerant side. -/

namespace ScriptTree.Parse

variable {env : Env} {α β : Type} [Relabels α] [Relabels β] {K : Comparison} (m : Option Message) (t : Token)
  (parts : List Text) (o : Offender)

instance : Mirrored K context := .get fun _ _ => .pure

instance (f : Context → Context) : Mirrored K (setContext f) :=
  .modifies {}

instance : Mirrored K lookahead := .get fun _ _ => .pure
instance : Mirrored K peek := .get fun _ _ => .pure
instance : Mirrored K scanMark := .get fun _ _ => .pure
instance : Mirrored K startMark := .get fun _ _ => .pure

instance [K.Fair] : Mirrored K (rawText t) :=
  .ofEnv (by rw [Comparison.Fair.source]; exact .pure)

variable [K.Lawful]

instance (mark : String) : Mirrored K (sees mark) := .routine
instance (marks : List String) : Mirrored K (seesAny marks) := .routine
instance (word : String) : Mirrored K (seesWord word) := .routine
instance (words : List String) : Mirrored K (seesAnyWord words) := .routine
instance (name : String) : Mirrored K (seesName name) := .routine
instance : Mirrored K seesEnd := .routine
instance : Mirrored K peekNext := by unfold peekNext; infer_instance

/-! ## Complaints -/

instance (description : Text) : Mirrored K (complaintAt description) :=
  .get fun _ _ => .pure

instance (m : Message) : Mirrored K (filled m parts) := by
  unfold filled
  split
  · exact .pure
  · infer_instance

instance (m : Message) : Mirrored K (reject m parts : Parse α) := .routine

instance (e : SyntaxError) : Mirrored K (scan (Scan.tolerate e)) := .routine

instance (m : Message) : Mirrored K (complain m parts) := .routine

instance (l : Lexeme) : Mirrored K (tokenText l) := by
  unfold tokenText
  split
  · exact .pure
  · infer_instance

instance : Mirrored K (unexpectedToken t m) := .routine

instance : Mirrored K (unexpected o m) := by
  cases o with
  | token t => exact inferInstanceAs (Mirrored K (unexpectedToken t m))
  | node => exact inferInstanceAs (Mirrored K (complaintAt _))

instance : Mirrored K (rejectToken t m : Parse α) := .routine

instance : Mirrored K (rejectAhead m : Parse α) := .routine

instance : Mirrored K (rejectOffender o m : Parse α) := .routine

instance : Mirrored K (complainToken t m) := .routine

instance : Mirrored K (complainOffender o m) := .routine

instance : Mirrored K takeComments := Comparison.Lawful.takeComments
instance : Mirrored K (listToken t) := Comparison.Lawful.listToken t

/-- The mark of the start is replaced only if it is at another place. -/
theorem aloof_startMark (m : Mark) :
    Aloof fun s => if m.index == s.startMark.index then s else { s with startMark := m } where
  beside s c := by
    split <;> rfl
  collected s := by split <;> rfl
  errors s := by split <;> rfl

instance : Mirrored K next := by
  refine .step fun taken => .step fun last => .changes {} fun _ => ?_
  refine .past <| .step fun start => .changes (aloof_startMark start) fun _ => ?_
  refine .step fun t => .step fun c => .changes {} fun _ => ?_
  exact .guardNot fun _ => .pure

instance : Mirrored K skip := .routine
theorem Mirrors.unlist {f f' : Unit → Parse β} (hf : ∀ u, Mirrors K (f u) (f' u)) :
    Mirrors K (options >>= fun o => if o.tokens then unlistToken >>= f else f ())
      (options >>= fun o => if o.tokens then unlistToken >>= f' else f' ()) := by
  have heq (f : Unit → Parse β) : (options >>= fun o => if o.tokens then unlistToken >>= f else f ()) =
      (options >>= fun o => if o.tokens then unlistToken else Pure.pure ()) >>= f := by
    funext env s
    obtain ⟨source, ⟨_, _, _, tokens, _, _, _, _, _, _, _⟩⟩ := env
    cases tokens <;> rfl
  rw [heq, heq]
  exact andThen Comparison.Lawful.unlist hf

/-- What lists a token does nothing if none are listed. -/
theorem relist_eq {α : Type} (t : Token) (f : Unit → Parse α) :
    (options >>= fun o => if o.tokens then unlistToken >>= fun _ => listToken t >>= f else f ()) = (options >>= fun o =>
        if o.tokens then unlistToken >>= fun _ => listToken t >>= f else listToken t >>= f) := by
  funext env s
  obtain ⟨source, ⟨_, _, _, tokens, _, _, _, _, _, _, _⟩⟩ := env
  cases tokens <;> rfl

/-- A token is listed in place of another one. -/
theorem Mirrors.relist {t : Token} {f f' : Unit → Parse β} (hf : ∀ u, Mirrors K (f u) (f' u)) : Mirrors K
      (options >>= fun o => if o.tokens then unlistToken >>= fun _ => listToken t >>= f else f ())
      (options >>= fun o => if o.tokens then unlistToken >>= fun _ => listToken t >>= f' else f' ()) := by
  rw [relist_eq, relist_eq]
  exact unlist fun _ => step hf

instance : Mirrored K nextRegex := by
  refine .get fun s c => .past <| .past <| .step fun t => .relist fun _ => ?_
  refine .changes {} fun _ => ?_
  exact .past <| .pure

instance (mark : String) : Mirrored K (expect mark) := .routine

instance (word : String) : Mirrored K (expectWord word) := .routine
theorem expect_eq (mark : String) : expect mark = (do if ← sees mark then skip else rejectToken (← next)) := by
  funext env s
  change _ = (if s.lookahead.lexeme.isMark mark then skip else do rejectToken (← next)) env s
  cases h : next env s with
  | error e u =>
    have herror : expect mark env s = .error e u := bind_error _ h
    rw [herror]
    split
    · exact (bind_error _ h).symm
    · exact (bind_error _ h).symm
  | ok t u =>
    obtain rfl := (next_moves h).1
    have hok : expect mark env s = _ := bind_ok _ h
    rw [hok]
    split
    · exact (bind_ok (fun _ => pure ()) h).symm
    · exact (bind_ok (fun t => rejectToken t) h).symm

theorem complainToken_complains {t : Token} {m : Option Message} {s u : State} {a : Unit}
    (h : Returns (complainToken t m) env s a u) : u.cursor.errors ≠ [] := by
  obtain ⟨e, v, -, h⟩ := Returns.bind h
  obtain ⟨d, hd, rfl⟩ := returns_scan.mp h
  rw [(Scan.returns_tolerate.mp hd).2]
  simp

theorem rejectNext_fails {α : Type} {s u : State} {a : α} : ¬ Returns (do rejectToken (← next)) env s a u := by
  intro h
  obtain ⟨t, v, -, h⟩ := Returns.bind h
  exact Fails.fails h

instance : Mirrored K expectComma := by
  have htolerant (t : Token) : Mirrored K (if t.lexeme.isMark "," then skip
        else if t.lexeme.isMark ";" then (do skip; complainToken t)
        else complainToken t (some .unexpectedToken)) :=
    .ite inferInstance (.ite (.past inferInstance) inferInstance)
  refine .ofOptions ?_
  cases hl : K.left.options.tolerant with
  | true =>
    rw [Comparison.Fair.tolerant hl]
    exact .step htolerant
  | false =>
    cases hr : K.right.options.tolerant with
    | false => exact inferInstanceAs (Mirrored K (expect ","))
    | true =>
      show Mirrors K (expect ",") _
      rw [expect_eq]
      refine .get fun s c => .ite inferInstance (.forgiven ⟨hl, hr⟩ (fun _ _ _ => rejectNext_fails) ?_)
      intro s a u h
      rcases h.ite with ⟨-, h⟩ | ⟨-, h⟩
      · obtain ⟨_, _, -, h⟩ := h.bind
        exact complainToken_complains h
      · exact complainToken_complains h

instance : Mirrored K semicolon := by
  have hlast : Mirrored K (modify fun s => { s with lastMark := s.startMark }) := .modifies {}
  refine .past <| .ite inferInstance (.get fun s c => .ite ?_ (.pure))
  exact .past <| .past <| .guardNot fun _ => hlast

instance : Mirrored K onlyValue := by unfold onlyValue; infer_instance
instance : Mirrored K onlyTarget := by unfold onlyTarget; infer_instance
instance : Mirrored K freshCover := by unfold freshCover; infer_instance

instance (p p' : Parse α) [Mirrors K p p'] : Mirrors K (isolate p) (isolate p') := .routine

instance (p p' : Parse α) [Mirrors K p p'] : Mirrors K (inherit p) (inherit p') := .routine

end ScriptTree.Parse
