import ScriptTree.Proofs.Parse.Cover.Basic
import ScriptTree.Proofs.Parse.Nest.Function

/-! # Names, patterns and functions

The patterns of declarations and of parameters in parentheses after a name are read as patterns from the start,
so that all their leaves are names. -/

namespace ScriptTree.Parse

variable {n : Node} {view : Node → List Node} {K : Node → Prop} {P : Prop} {l : Lexeme} {name : String} {t' : Token}

open Parts

variable {α β : Type} {env : Env} {T B F : Prop} {t : Token} {R : β → State → Prop} {f : Node → Parse β}
  {p : Parse Node} (kind : Option DeclarationKind)

/-! ## Names -/

structure NameFrom (i : Nat) (n : Node) : Prop where
  isName : n.shape.isName = true
  start : ∀ r ∈ n.info.range, r.start = i

/-- The rule returns the name ahead and raises no flag. -/
class Names (env : Env) (p : Parse Node) : Prop where
  leads : ∀ T B F t, Faces env T B F t p fun n s => F ∧ NameFrom t.start n ∧ Reached env T B True s

/-- A first step that reads the name ahead. -/
theorem Leads.namedFrom [Names env p] (hf : F → ∀ n, NameFrom t.start n → ∀ t', Faces env T B True t' (f n) R) :
    Faces env T B F t (p >>= f) R := by
  intro s b s' hs h
  obtain ⟨n, u, h₁, h₂⟩ := h.bind
  obtain ⟨hF, hn, t', hu⟩ := Names.leads T B F t s n u hs h₁
  exact hf hF n hn t' u b s' hu h₂

theorem Leads.named [Names env p] (hf : F → ∀ n : Node, n.shape.isName = true → ∀ t', Faces env T B True t' (f n) R) :
    Faces env T B F t (p >>= f) R :=
  .namedFrom fun hF n hn => hf hF n hn.isName

/-- A name at the end of a rule. -/
theorem Leads.nameEnds {m : Mark} {name : Text} {i : Nat} (hF : F) (hm : m.index = i) :
    Faces env T B True t (Parse.finish m (.identifier name)) fun n s => F ∧ NameFrom i n ∧ Reached env T B True s := by
  rw [← bind_pure (Parse.finish m _)]
  exact .names fun n hn hr => .pure fun _ hs => ⟨hF, ⟨hn, hm ▸ hr⟩, hs.reached⟩

/-- A name as an expression at the end of a rule. -/
theorem Leads.nameGraded {m : Mark} {name : Text} (hF : F) :
    Faces env T B P t (Parse.finish m (.identifier name)) (Graded env F) := by
  rw [← bind_pure (Parse.finish m _)]
  exact .names fun n hn _ => .name hF hn

instance (priority := low) [Names env p] : Grades env p where
  leads F := by
    rw [← bind_pure p]
    exact .facing fun t => .named fun hF n hn t' => .name hF hn

instance : Names env anyName := by
  refine ⟨fun T B F t => .marks fun start hstart => ?_⟩
  by_cases hn : isNameToken t.lexeme = true
  · have ha : ¬ Arrow t := fun ha => by rw [ha] at hn; cases hn
    refine .nexts ha fun hF t' => ?_
    rw [if_pos hn]
    exact .nameEnds hF hstart
  · refine .nextFails ?_
    rw [if_neg hn]
    exact .fails_bind

/-- A proper part of a pattern. All that it binds is names, and a rest has been read as one. -/
structure BindsNames (view : Node → List Node) (src : Source) (n : Node) : Prop where
  proper : Proper src n
  names : ∀ l ∈ view n, l.shape.isName = true
  rest : isRest n = n.shape.isRest

/-- The rule returns a part of a pattern. -/
class Patterns (env : Env) (view : outParam (Node → List Node)) (p : Parse (Node × List Token)) : Prop where
  leads : ∀ F, Leads env (Reached env True True F) p fun x =>
    Onward env True True F (BindsNames view env.source x.1)

namespace Leads

variable {names : List Token} {R : β → State → Prop}

/-- A first step that reads a part of a pattern. -/
theorem pattern {p : Parse (Node × List Token)} [Patterns env view p] {f : Node × List Token → Parse β}
    (hf : F → ∀ n names t', Faces env True True (BindsNames view env.source n) t' (f (n, names)) R) :
    Faces env T B F t (p >>= f) R :=
  .bind (.freely (Patterns.leads F)) fun x => .onward fun hF => hf hF x.1 x.2

/-- A first step that reads a part of a pattern, of which only the node matters. -/
theorem boundPart {p : Parse (Node × List Token)} [Patterns env view p] {f : Node × List Token → Parse β}
    (hf : F → ∀ n names t', Faces env True True (Proper env.source n) t' (f (n, names)) R) :
    Faces env T B F t (p >>= f) R :=
  .pattern fun hF n names t' => .knowing (fun _ => id) (fun _ => id) BindsNames.proper (hf hF n names t')

/-- A part of a pattern at the end of a rule. -/
theorem patterned (hF : F) (h : P → BindsNames view env.source n) :
    Faces env T B P t (Pure.pure (n, names)) fun x => Onward env T B F (BindsNames view env.source x.1) :=
  .pure fun _ hs => ⟨hF, hs.known h⟩

/-- The rest of a pattern at the end of a rule. -/
theorem restEnds {m : Mark} (hF : F) (h : P → Proper env.source n ∧ (∀ l ∈ n.leaves, l.shape.isSettled = true) ∧
      ∀ info, ∀ l ∈ view ⟨info, .restElement n⟩, l.shape.isName = true) :
    Faces env T B P t (Parse.finish m (.restElement n) >>= fun n => Pure.pure (n, names))
      fun x => Onward env T B F (BindsNames view env.source x.1) := by
  refine .made fun info hc _ => .patterned hF fun hP => ⟨.plain ?_ (h hP).2.1, (h hP).2.2 info, ?_⟩
  · simpa using (h hP).1
  · rw [isRest, hc]
    rfl

end Leads

theorem isName_of_isNamed {n : Node} (h : n.isNamed name = true) : n.shape.isName = true := by
  obtain ⟨info, shape⟩ := n
  cases shape with
  | identifier => rfl
  | _ => cases h

namespace BindsNames

variable {info : Node.Info} {src : Source} {key : Node}

theorem of_isName (h : n.shape.isName = true) : BindsNames Node.leaves src n := by
  obtain ⟨info, shape⟩ := n
  cases shape with
  | identifier => exact ⟨.of_isName h, List.forall_mem_singleton.mpr rfl, rfl⟩
  | _ => cases h

theorem settled (h : BindsNames view src n) : ∀ l ∈ view n, l.shape.isSettled = true := by
  intro l hl
  have hn := h.names l hl
  cases hs : l.shape with
  | identifier => rfl
  | _ => rw [hs] at hn; cases hn

theorem asPattern_eq (h : BindsNames Node.leaves src n) : n.asPattern = n := by
  obtain ⟨info, shape⟩ := n
  cases shape with
  | spreadElement | arrayExpression | objectExpression | assignmentExpression =>
    cases h.names _ (List.mem_singleton_self _)
  | _ => rfl

/-- What a name passes for, each leaf of the pattern passes for. -/
theorem allTargets {p : Shape Node → Bool} (h : BindsNames Node.leaves src n)
    (hp : ∀ s : Shape Node, s.isName = true → p s = true) : n.AllTargets p := by
  rw [Node.AllTargets, h.asPattern_eq]
  exact fun l hl => hp _ (h.names l hl)

/-- A pattern with an initial value. -/
theorem default {right : Node} (h : BindsNames Node.leaves src n) (hr : Proper src right) :
    BindsNames Node.leaves src ⟨info, .assignmentPattern n right⟩ :=
  ⟨.plain (by simpa [h.proper] using hr) h.settled, h.names, rfl⟩

/-- A property whose value is a pattern. -/
theorem property {computed shorthand : Bool} {i : Nat} (h : BindsNames Node.leaves src n)
    (hk : Proper src key) (hkey : src.HasKey key computed i) (hi : ∀ q ∈ info.range, q.start = i) :
    BindsNames Node.leavesOfProperty src ⟨info, .property .init key computed n false shorthand⟩ :=
  ⟨.plain (by simpa [h.proper] using hk) .neither fun q hq => ⟨_, .none, hi q hq ▸ hkey⟩, h.names, rfl⟩

end BindsNames

variable [Intolerant env]

instance : Names env (bindingName kind) := by
  refine ⟨fun T B F t => .marks fun start hstart => ?_⟩
  by_cases ha : Arrow t
  · refine .nextFails (.bind (Q := fun _ _ => True) (fun _ _ _ _ _ => trivial) fun c => ?_)
    rw [show t.lexeme = .punctuator "=>" from ha]
    have hreject : (c.strict || !(Lexeme.punctuator "=>").valueIs "let" || kind != some .var) = true := by
      have hl : (Lexeme.punctuator "=>").valueIs "let" = false := by decide
      simp [hl]
    refine .ite (fun hs => ?_) fun _ => ?_
    · exact .fails_bind
    · rw [if_pos hreject]
      exact .fails_bind
  · refine .nexts ha fun hF t' => .keeps fun c => ?_
    extract_lets rest
    have hrest : Faces env T B True t' (rest ())
        fun n s => F ∧ NameFrom t.start n ∧ Reached env T B True s := .nameEnds hF hstart
    split
    · exact .fork .fails_bind <| .when hrest
    · exact .when hrest
    · exact .fork .fails_bind <| .when hrest

/-- After a gap behind the last token, the token ahead was scanned. -/
structure Landed (env : Env) (s : State) : Prop where
  gap : env.source.Gap s.lastMark.index s.lookahead.start
  runsOver : (s.lookahead.lexeme.isWord "in" || s.lookahead.lexeme.isName "of") = true →
    env.source.RunsOver s.lookahead.start

/-- The rule ends with a token that is taken. -/
class Lands (env : Env) (p : Parse α) : Prop where
  leads : Leads env (fun _ => True) p fun _ => Landed env

section

omit [Intolerant env]

instance (p : Parse α) [Inspects p] : Keeps env (Landed env) p := ⟨fun _ _ _ hs h => Inspects.eq h ▸ hs⟩

instance (m : Mark) (shape : Shape Node) : Keeps env (Landed env) (finish m shape) where
  leads s n s' hs h := by
    rw [(finish_makes h).1]
    exact ⟨hs.gap, hs.runsOver⟩

instance : Lands env next := by
  refine ⟨fun s t s' _ h => ?_⟩
  obtain ⟨-, ms, c, k, hm⟩ := next_moves h
  obtain ⟨-, -, -, hgap⟩ := next_sight h
  refine ⟨hm.last ▸ hgap, fun hl => ⟨settings env s, c, s'.cursor, k, rfl, ?_, ?_, hm.scanned⟩⟩
  · rw [hm.lookahead]
    exact (Scan.next_start hm.scanned).symm
  · rw [hm.lookahead] at hl
    rcases reserve_cases s.context.strict k.lexeme with hk | ⟨name, -, word, hword, hk⟩
    · rwa [hk] at hl
    · rw [hk, Bool.or_eq_true_iff] at hl
      rcases hl with hl | hl
      · exact absurd (beq_iff_eq.mp hl ▸ hword) (by decide)
      · cases hl

instance (m : String) : Lands env (expect m) where
  leads := .bind Lands.leads fun _ => .ite (fun _ => .pure) fun _ => .fails

end

instance : Lands env (bindingName kind) := by
  refine ⟨.past <| .bind Lands.leads fun t => .keeps fun c => ?_⟩
  extract_lets rest
  have hrest : Leads env (Landed env) (rest ()) fun _ => Landed env := Keeps.leads
  split
  · exact .fork .fails_bind <| .when hrest
  · exact .when hrest
  · exact .fork .fails_bind <| .when hrest

instance (g : Grammar) : Lands env (pattern g kind) := by
  refine ⟨.keeps fun _ => .fork ?_ <| .keeps fun _ => .fork ?_ <| .keeps fun t => ?_⟩
  · exact .past <| .past <| .keeps fun (_, _) => .bind Lands.leads fun _ => .past .pure
  · exact .past <| .past <| .past <| .bind Lands.leads fun _ => .past .pure
  · exact .when <| .bind Lands.leads fun _ => .pure

/-- The members of the grammar return proper nodes. -/
class Covering (env : Env) (g : Grammar) : Prop where
  assignment : Grades env g.assignment
  unary : Grades env g.unary
  power : Grades env g.power
  call : Grades env g.call
  callee : Grades env g.callee
  statement : Builds env g.statement
  item : Builds env g.item
  pattern : ∀ kind, Patterns env Node.leaves (g.pattern kind)
  lands : ∀ kind, Lands env (g.pattern kind)
  element : Tags env (Proper env.source) g.element

attribute [instance] Covering.assignment Covering.unary Covering.power Covering.call Covering.callee
  Covering.statement Covering.item Covering.pattern Covering.lands Covering.element

variable {g : Grammar} [Covering env g]

/-! ## Keys -/

/-- A rule has been read up to a token, of which something holds unless it is an arrow. -/
def Upto (env : Env) (T B F : Prop) (P : Token → Prop) (s : State) : Prop := F ∧ ∃ t, Ahead env T B (P t) t s

omit [Intolerant env] in
theorem Leads.upto {p : Parse α} {P : Token → Prop} {Q : α → State → Prop}
    (h : F → ∀ t, Faces env T B (P t) t p Q) : Leads env (Upto env T B F P) p Q := by
  rintro s a s' ⟨hF, t, hs⟩
  exact h hF t s a s' hs

omit [Intolerant env] in
/-- The end of what has been read. -/
theorem Leads.readTo {a : α} {P : α → Token → Prop} {F' : Prop} (hF : F) (h : F' → P a t) :
    Faces env T B F' t (Pure.pure a) fun a => Upto env T B F (P a) :=
  .pure fun _ hs => ⟨hF, t, hs.imp (fun _ => id) (fun _ => id) h⟩

/-- A key was read from one token to another. If it is a name, it may be one of several words. -/
structure KeyRead (src : Source) (t t' : Token) (key : Node) : Prop where
  proper : Proper src key
  hasKey : src.HasKey key (t.lexeme.isMark "[") t.start
  name : t.lexeme.isMark "[" = false → key.shape.isName = true → isNameToken t.lexeme = true
  past : isNameToken t.lexeme = true → ∀ {i}, src.Words t'.start i → src.Words t.start i

theorem KeyRead.plain {src : Source} {key : Node} (h : KeyRead src t t' key)
    (hb : t.lexeme.isMark "[" = false) : src.HasKey key false t.start := hb ▸ h.hasKey

theorem KeyRead.not_bracket {src : Source} {key : Node} (h : KeyRead src t t' key)
    (hb : src.hasAt t.start "[" = false) : t.lexeme.isMark "[" = false := by
  refine Bool.eq_false_iff.mpr fun ht => ?_
  have hkey := h.hasKey
  rw [ht] at hkey
  cases hb.symm.trans (hkey : src.hasAt t.start "[" = true)

theorem isNameToken_of_isName (h : l.isName name = true) : isNameToken l = true := by
  cases l <;> first | rfl | cases h

theorem not_isMark_of_isNameToken {m : String} (h : isNameToken l = true) : l.isMark m = false := by
  cases l <;> first | rfl | cases h

theorem propertyKey_read :
    Faces env T B F t (propertyKey g) fun key => Upto env T B F fun t' => KeyRead env.source t t' key := by
  refine .marks fun start hstart => ?_
  by_cases ha : Arrow t
  · refine .nextFails ?_
    rw [show t.lexeme = .punctuator "=>" from ha]
    exact (.fails : Leads env _ (rejectToken t) _)
  · refine .nextsFrom ha fun hF t' stop hstop hgap => ?_
    have hliteral {value raw} (hl : t.lexeme.isMark "[" = false) (hn : isNameToken t.lexeme = false) : Faces env T B True t'
        (finish start (.literal value raw)) fun key => Upto env T B F fun t' => KeyRead env.source t t' key := by
      rw [← bind_pure (finish start _)]
      refine .made fun info _ hr => .readTo hF fun _ => ?_
      exact ⟨.plain nofun, by rw [hl]; exact hstart ▸ hr, by rintro - ⟨⟩, by simp [hn]⟩
    have hname {name} (hl : isNameToken t.lexeme = true) : Faces env T B True t'
        (finish start (.identifier name)) fun key => Upto env T B F fun t' => KeyRead env.source t t' key := by
      rw [← bind_pure (finish start _)]
      refine .names fun key hn hr => .readTo hF fun _ => ?_
      refine ⟨.of_isName hn, ?_, fun _ _ => hl, fun _ _ => .word (hstop.word (by rw [hl]; rfl)) hgap⟩
      rw [not_isMark_of_isNameToken hl]
      exact hstart ▸ hr
    split
    next hl => exact .past <| .when <| .past <| hliteral (by rw [hl]; rfl) (by rw [hl]; rfl)
    next hl => exact .past <| .when <| .past <| hliteral (by rw [hl]; rfl) (by rw [hl]; rfl)
    next hl => exact hname (by rw [hl]; rfl)
    next hl => exact hname (by rw [hl]; rfl)
    next hl => exact hname (by rw [hl]; rfl)
    next hl => exact hname (by rw [hl]; rfl)
    next hl =>
      refine .inlays fun _ key t' => .expects fun hkey _ t'' => .readTo hF fun _ => ⟨hkey key (.head _), ?_, ?_, ?_⟩
      all_goals rw [hl]
      · exact (hstop.mark "[" (by decide) hl).1
      · rintro ⟨⟩
      · rintro ⟨⟩
    next => exact .fails

/-- A first step that reads a key. -/
theorem Leads.keyFrom (hf : F → ∀ key t', Faces env T B (KeyRead env.source t t' key) t' (f key) R) :
    Faces env T B F t (propertyKey g >>= f) R :=
  .bind propertyKey_read fun key => .upto fun hF => hf hF key

instance : Inlays env (expression g) := by
  refine ⟨fun T B F => .facing fun t => .answers <| .inlays fun hF first t' => .answers <| .fork ?_ <| .built hF id⟩
  let I (found : List Node) := Reached env T B (Propers env.source (first :: found))
  refine .loops (Q := I) I (fun _ hs => hs.reached) (fun found => ?_) fun found => ?_
  · refine .facing fun t => .answers ?_
    refine .ite (fun _ => .pure fun _ hs => hs.reached) fun hc => .skips ?_ fun hfound _ => ?_
    · exact not_arrow_of_isMark (by simpa using hc) (by decide)
    · refine .inlays fun _ n t' => .pure fun _ hs => hs.known fun hn => ?_
      simpa [and_comm, and_left_comm] using And.intro hfound hn
  · refine .facing fun t => .shaped hF fun h => ?_
    simpa using h

/-! ## Patterns -/

section

variable (kind : Option DeclarationKind)

instance : Patterns env Node.leaves (patternWithDefault g kind) where
  leads F := by
    refine .facing fun t => .answers <| .pattern fun hF n names t' => .answers <| .ite (fun hs => ?_) fun _ => ?_
    · refine .skips (not_arrow_of_isMark hs (by decide)) fun hn _ => .keeps fun before => .keepsFlags <|
        .inlays fun _ right _ => .keepsFlags <| .shapes fun info => .patterned hF fun hright => ?_
      exact hn.default (by simpa using hright)
    · exact .patterned hF id

instance : Patterns env Node.leaves (bindingRest g kind) := by
  refine ⟨fun F => .enters fun t => .expects fun hF _ _ => .pattern fun _ n names t' => ?_⟩
  exact .restEnds hF fun hn => ⟨hn.proper, hn.settled, fun _ => hn.names⟩

instance : Patterns env Node.leaves (arrayPattern g kind) := by
  refine ⟨fun F => .enters fun t => .expects fun hF _ _ => ?_⟩
  let I (x : List (Option Node) × List Token) :=
    Reached env True True (∀ n ∈ x.1.filterMap id, BindsNames Node.leaves env.source n)
  refine .loops (Q := I) I (fun _ hs => ?_) (fun (elements, names) => ?_) fun (elements, names) => ?_
  · exact hs.known fun _ => nofun
  · refine .facing fun t => .answers ?_
    refine .fork (.pure fun _ hs => hs.reached) <| .answers <| .ite (fun hc => ?_) fun _ =>
      .answers <| .fork ?_ ?_
    · refine .skips (not_arrow_of_isMark hc (by decide)) fun hall t' => .pure fun _ hs => ?_
      exact hs.known fun _ => hall
    · refine .pattern fun hall n more t' => .pure fun _ hs => hs.known fun hn => ?_
      exact List.forall_mem_cons.mpr ⟨hn, hall⟩
    · refine .pattern fun hall n more t' => .expectsUnless fun hn t'' => .pure fun _ hs => hs.known fun _ => ?_
      exact List.forall_mem_cons.mpr ⟨hn, hall⟩
  · refine .facing fun t => .expects fun hall _ t' => .shapes fun info => .patterned hF fun _ => ?_
    have hall' : ∀ n ∈ elements.reverse.filterMap id, BindsNames Node.leaves env.source n := by
      intro n hn
      exact hall n (by simpa using hn)
    refine ⟨.plain (fun n hn => (hall' n ?_).proper) fun n hn => (hall' n hn).settled, ?_, rfl⟩
    · simpa using hn
    · exact Node.allLeaves_array.mpr fun n hn => (hall' n hn).names

instance : Patterns env Node.leavesOfProperty (propertyPattern g kind) := by
  refine ⟨fun F => .facing fun t => .marks fun start hstart => .answers ?_⟩
  split
  next name =>
    refine .namedFrom fun hF key hkey _ => .names fun init hinit _ => .answers <| .ite (fun hs => ?_) fun _ =>
      .answers <| .fork ?_ ?_
    · refine .skips (not_arrow_of_isMark hs (by decide)) fun _ _ => .parts fun _ value t' => .shapes fun info =>
        .made fun info' _ hi => .patterned hF fun hvalue => ?_
      exact .property (.default (.of_isName hinit) (by simpa using hvalue)) (.of_isName hkey.1) (hstart ▸ hkey.2) hi
    · exact .made fun info _ hi => .patterned hF fun _ =>
        .property (.of_isName hinit) (.of_isName hkey.1) (hstart ▸ hkey.2) hi
    · refine .expects fun _ _ _ => .pattern fun _ value names t' => .made fun info _ hi =>
        .patterned hF fun hvalue => ?_
      exact .property hvalue (.of_isName hkey.1) (hstart ▸ hkey.2) hi
  next =>
    refine .answers <| .keyFrom fun hF key _ => .expects fun hkey _ _ => .pattern fun _ value names t' =>
      .made fun info _ hi => .patterned hF fun hvalue => ?_
    exact .property hvalue hkey.proper (hstart ▸ hkey.hasKey) hi

instance : Patterns env Node.leavesOfProperty (restProperty g) := by
  refine ⟨fun F => .enters fun t => .expects fun hF _ _ => .pattern fun _ n names t' => ?_⟩
  refine .answers <| .when <| .answers <| .guard <| .restEnds hF fun hn => ?_
  exact ⟨hn.proper, hn.settled, fun _ => hn.names⟩

instance : Patterns env Node.leaves (objectPattern g kind) := by
  refine ⟨fun F => .enters fun t => .expects fun hF _ _ => ?_⟩
  refine .everySuch (P := fun x => BindsNames Node.leavesOfProperty env.source x.1) (fun F => ?_) fun found t' => ?_
  · refine .facing fun t => .answers ?_
    extract_lets rest
    have hrest : F → ∀ n names t', Faces env True True (BindsNames Node.leavesOfProperty env.source n) t'
        (rest (n, names)) fun x => Onward env True True F (BindsNames Node.leavesOfProperty env.source x.1) :=
      fun hF n names t' => .expectsUnless fun hn t'' => .patterned hF fun _ => hn
    exact .fork (.pattern hrest) <| .pattern hrest
  · refine .expects fun hall _ _ => .shapes fun info => .patterned hF fun _ => ?_
    have hmembers : ∀ m ∈ found.map Prod.fst, BindsNames Node.leavesOfProperty env.source m :=
      List.forall_mem_map.mpr hall.2
    refine ⟨.plain (fun n hn => (hmembers n ?_).proper) fun m hm => (hmembers m hm).settled, ?_, rfl⟩
    · simpa using hn
    · exact Node.allLeaves_object.mpr fun m hm => (hmembers m hm).names

instance : Patterns env Node.leaves (pattern g kind) := by
  refine ⟨fun F => .facing fun t => .answers <| .fork ?_ <| .answers <| .fork ?_ <| .answers <| ?_⟩
  · exact .weaken (fun _ hs => hs.reached) (Patterns.leads F)
  · exact .weaken (fun _ hs => hs.reached) (Patterns.leads F)
  · exact .when <| .named fun hF n hn t' => .patterned hF fun _ => .of_isName hn

end

instance : Patterns env Node.leaves (restParameter g) := by
  refine ⟨fun F => .enters fun t => .expects fun hF _ _ => .pattern fun _ n names t' => ?_⟩
  refine .answers <| .when <| .answers <| .guard <| .restEnds hF fun hn => ?_
  exact ⟨hn.proper, hn.settled, fun _ => hn.names⟩

omit [Intolerant env] in
theorem parameter_names (p : Parameters) (F : Prop) : Leads env (Reached env True True F) (parameter g p) fun p' =>
      Onward env True True F (∃ n, p'.params = p.params ++ [n] ∧ BindsNames Node.leaves env.source n) := by
  refine .facing fun t => .answers ?_
  extract_lets rest
  have hrest : F → ∀ n names t', Faces env True True (BindsNames Node.leaves env.source n) t'
      (rest (n, names)) fun p' =>
        Onward env True True F (∃ n, p'.params = p.params ++ [n] ∧ BindsNames Node.leaves env.source n) := by
    intro hF n names t'
    refine .keeps fun c => .pure fun _ hs => ⟨hF, hs.known fun hn => ⟨n, ?_, hn⟩⟩
    simp [Parameters.push, Parameters.params_foldl_bind]
  exact .fork (.pattern hrest) <| .pattern hrest

instance (o : Option Offender) :
    Settles env (fun p => ∀ n ∈ p.params, BindsNames Node.leaves env.source n) (parameters g o) := by
  refine ⟨fun F => ?_⟩
  unfold parameters
  refine .facing fun t => .expects fun hF _ t' => .answers ?_
  extract_lets rest
  let P (p : Parameters) := ∀ n ∈ p.params, BindsNames Node.leaves env.source n
  let I (p : Parameters) := Reached env True True (P p)
  have hrest : ∀ p, Leads env (I p) (rest p) fun p s => F ∧ P p ∧ Reached env True True True s := fun p =>
    .facing fun t => .expects fun hall _ t' => .pure fun _ hs => ⟨hF, hall, hs.reached⟩
  have hnil : P { restricted := o } := nofun
  refine .fork (.pure_bind (.weaken (fun _ hs => hs.known fun _ => hnil) (hrest _))) ?_
  refine .loops (Q := I) I (fun _ hs => hs.known fun _ => hnil) (fun p => .facing fun t => .answers ?_) hrest
  refine .fork (.pure fun _ hs => hs.reached) <| .bind (.weaken (fun _ hs => hs.reached)
    (parameter_names p _)) fun p' => .onward fun hall t => ?_
  have hadd : (∃ n, p'.params = p.params ++ [n] ∧ BindsNames Node.leaves env.source n) → P p' := by
    rintro ⟨n, hp', hn⟩
    unfold P
    rw [hp']
    exact List.forall_mem_append.mpr ⟨hall, List.forall_mem_singleton.mpr hn⟩
  refine .answers <| .fork (.pure fun _ hs => hs.known hadd) <| .expects fun h _ t' => .answers ?_
  exact .fork (.pure fun _ hs => hs.known fun _ => hadd h) <| .pure fun _ hs => hs.known fun _ => hadd h

instance : Builds env (directive g) where
  leads F := .facing fun t => by
    refine .answers <| .past <| .parts fun hF e t' => ?_
    dsimp only
    split
    all_goals
      -- The text is neither here nor there.
      repeat with_reducible refine .past ?_
      refine .semicolon fun _ => ?_
      split <;> exact .shaped hF id

theorem prologue_proper (F : Prop) : Leads env (Reached env True True F) (prologue g) fun ns =>
      Reached env True True (F ∧ Propers env.source ns) := by
  let I (found : List Node) := Reached env True True (F ∧ Propers env.source found)
  refine .loops (Q := I) (fun x => I x.1) (fun _ hs => hs.known fun h => ⟨h, .nil⟩) ?_ fun found => .pure fun _ hs => ?_
  · rintro ⟨found, octal⟩
    refine .facing fun t => .answers ?_
    split
    · refine .parts fun hknown n t' => ?_
      obtain ⟨hF, hfound⟩ := hknown
      have hadd : ∀ s, Ahead env True True (Intact env n) t' s → I (n :: found) s :=
        fun _ hs => hs.known fun hn => ⟨hF, by simpa [hfound] using hn⟩
      split
      · refine .fork (.keepsFlags ?_) <| .pure hadd
        split
        · exact .fails_bind
        · exact .past <| .when <| .pure hadd
      · exact .pure hadd
    · exact .pure fun _ hs => hs.reached
  · exact hs.known fun h => h.imp id Propers.reverse_iff.mpr

structure ProperBlock (src : Source) (n : Node) : Prop where
  proper : Proper src n
  isBlock : ∃ items, n.shape = .blockStatement items

instance : Settles env (ProperBlock env.source) (functionBody g) := by
  refine ⟨fun F => .facing fun t => .keeps fun start => .expects fun hF _ _ => ?_⟩
  refine .bind (.weaken (fun _ hs => hs.reached) (prologue_proper _)) fun directives => ?_
  refine .facing fun t' => .keeps fun before => .keepsFlags <| .everyItem fun items t' => ?_
  refine .expects fun ⟨⟨_, hd⟩, hi⟩ _ _ => .keepsFlags ?_
  rw [← bind_pure (finish start _)]
  refine .shapes fun info => .pure fun _ hs => ⟨hF, ⟨.plain ?_, _, rfl⟩, hs.reached⟩
  simpa [hd, flatMap_nodes] using hi

instance : Builds env (functionBody g) where
  leads F := by
    rw [← bind_pure (functionBody g)]
    exact .facing fun t => .settles fun hF n hn t' => .built hF fun _ => Propers.cons_iff.mpr ⟨hn.proper, .nil⟩

/-! ## Functions -/

theorem checkFunctionName_names {id : Node} (hid : id.shape.isName = true) (t' : Token) :
    Faces env T B F t (checkFunctionName id t') fun name s =>
      Ahead env T B F t s ∧ Intact env name := by
  have hn : Propers env.source [id] := by simpa using Proper.of_isName hid
  refine .keeps fun c => .fork (.when <| .pure fun _ hs => ⟨hs, hn⟩) ?_
  refine .fork (.pure fun _ hs => ⟨hs, hn⟩) ?_
  exact .fork (.pure fun _ hs => ⟨hs, hn⟩) <| .pure fun _ hs => ⟨hs, hn⟩

/-- A function whose parameters and body are known. -/
theorem propers_function {src : Source} {kind : FunctionKind} {id : Option Node} {params : List Node} {body : Node}
    (hid : Propers src id.toList) (hparams : ∀ n ∈ params, BindsNames Node.leaves src n) (hbody : Proper src body) :
    Propers src (Shape.functionExpression kind id params body).children := by
  have hparams : Propers src params := fun n hn => (hparams n hn).proper
  cases kind <;> simp [Shape.functionParts, hid, hparams, hbody]

instance (name : FunctionName) :
    Settles env (fun x => (∀ n ∈ x.1, BindsNames Node.leaves env.source n) ∧ Proper env.source x.2)
      (functionTail g name) := by
  refine ⟨fun F => .facing fun t => .settles fun hF p hp t' => .keeps fun before => .keepsFlags <|
    .settles fun _ body hbody t' => .keeps fun c => ?_⟩
  extract_lets rest stricted
  have hrest : Faces env True True True t' (rest ()) fun x s =>
      F ∧ ((∀ n ∈ x.1, BindsNames Node.leaves env.source n) ∧ Proper env.source x.2) ∧ Reached env True True True s :=
    .keepsFlags <| .pure fun _ hs => ⟨hF, ⟨hp, hbody.proper⟩, hs.reached⟩
  refine .fork ?_ hrest
  split
  · exact .fails_bind
  · dsimp only [stricted]
    split
    · exact .fails_bind
    · exact hrest

/-- The first words of a function. -/
instance : Settles env (fun _ => True) functionHead := by
  refine ⟨fun F => .facing fun t => .answers ?_⟩
  extract_lets rest
  have hrest : ∀ {P : Prop}, (P → F) → ∀ t, Faces env True True P t (rest ()) fun _ s =>
      F ∧ True ∧ Reached env True True True s := by
    refine fun h t => .expectsWord fun hP _ t' => ?_
    have hF := h hP
    refine .fork (.pure fun _ hs => ⟨hF, trivial, hs.reached⟩) <| .answers <|
      .ite (fun hl => ?_) fun _ => .pure fun _ hs => ⟨hF, trivial, hs.reached⟩
    exact .skips (not_arrow_of_isMark hl (by decide)) fun _ t' => .pure fun _ hs => ⟨hF, trivial, hs.reached⟩
  exact .ite (fun hl => .skips (not_arrow_of_isName hl) fun hF => hrest fun _ => hF) fun _ => hrest id t

instance (nameIsOptional : Bool) : Settles env (Proper env.source) (functionDeclaration g nameIsOptional) := by
  refine ⟨fun F => .enters fun t => .settles fun hF kind _ t' => .answers ?_⟩
  extract_lets rest
  have hrest name t : Intact env name → Faces env True True True t (rest name)
        fun n s => F ∧ Proper env.source n ∧ Reached env True True True s := by
    intro hname
    refine .keeps fun before => .keepsFlags <| .settles fun _ (params, body) ⟨hparams, hbody⟩ t' => .keepsFlags <| ?_
    exact .shapedSurely hF (propers_function hname hparams hbody) fun p hp => (hparams p hp).names
  refine .fork (.pure_bind (hrest {} t' .nil)) <| .answers <| .named fun _ id hid t' => ?_
  exact .bind (checkFunctionName_names hid _) fun name => .fact fun h => hrest name t' h

instance : Settles env (ProperLoose env.source) (functionExpression g) := by
  refine ⟨fun F => .enters fun t => .settles fun hF kind _ t' => .keeps fun before => .keepsFlags <| .answers ?_⟩
  extract_lets rest
  have hrest name t : Intact env name → Faces env True True True t (rest name)
        fun n s => F ∧ ProperLoose env.source n ∧ Reached env True True True s := by
    intro hname
    refine .settles fun _ (params, body) ⟨hparams, hbody⟩ t' => .keepsFlags <| ?_
    exact .looseSurely hF (propers_function hname hparams hbody) fun p hp => (hparams p hp).names
  refine .fork (.pure_bind (hrest {} t' .nil)) <| .answers <| .keeps fun c => .fork ?_ ?_
  · exact .named fun _ id hid t' => .bind (checkFunctionName_names hid _) fun name => .fact fun h => hrest name t' h
  · exact .named fun _ id hid t' => .bind (checkFunctionName_names hid _) fun name => .fact fun h => hrest name t' h

/-! ## Methods -/

/-- The rule returns a method or its body, of which something is known, and no flag is up after it. -/
class Methods (env : Env) (K : outParam (Node → Prop)) (p : Parse Node) : Prop where
  leads : ∀ F, Leads env (Reached env True True F) p fun n =>
    Onward env False False F (Proper env.source n ∧ K n)

omit [Intolerant env] in
/-- A first step that reads a method. -/
theorem Leads.method [Methods env K p] (hf : F → ∀ n t', Faces env False False (Proper env.source n ∧ K n) t' (f n) R) :
    Faces env T B F t (p >>= f) R :=
  .bind (.freely (Methods.leads F)) fun n => .onward fun hF => hf hF n

instance (p : Parameters) : Methods env (fun _ => True) (methodBody g p) := by
  refine ⟨fun F => .facing fun t => .onlyValue <| .keeps fun before => .keepsFlags <| .inlays fun hF body t' =>
    .keeps fun c => ?_⟩
  extract_lets rest stricted
  have hrest : Faces env False False (Intact env body) t' (rest ())
      fun n => Onward env False False F (Proper env.source n ∧ True) :=
    .keepsFlags <| .pure fun _ hs => ⟨hF, hs.known fun h => ⟨h body (.head _), trivial⟩⟩
  refine .fork ?_ hrest
  split
  · exact .fails_bind
  · dsimp only [stricted]
    split
    · exact .fails_bind
    · exact hrest

section

variable {p : Parameters} {kind : FunctionKind} {m : Mark}

/-- What comes after the parameters of a method. -/
theorem Leads.methodTail {change : Context → Context} (hF : F)
    (hp : ∀ n ∈ p.params, BindsNames Node.leaves env.source n)
    (hK : ∀ info body, K ⟨info, .functionExpression kind none p.params body⟩)
    (hT : ∀ c, (change c).isTarget = c.isTarget := by exact fun _ => rfl)
    (hB : ∀ c, (change c).isBinding = c.isBinding := by exact fun _ => rfl) :
    Faces env T B True t (do
      let body ← methodBody g p
      setContext change
      Parse.finish m (.functionExpression kind none p.params body))
      fun n => Onward env False False F (Proper env.source n ∧ K n) := by
  refine .method fun _ body t' => .keepsFlags ?_ hT hB
  rw [← bind_pure (Parse.finish m _)]
  refine .shapes fun info => .pure fun _ hs => ⟨hF, hs.known fun hbody => ⟨.plain ?_ ?_, hK info body⟩⟩
  · exact propers_function .nil hp hbody.1
  · exact fun n hn => (hp n hn).names

/-- A method that may read or write a property, or be asynchronous. -/
def IsMethod (reads writes isAsync : Bool) (n : Node) : Prop := n.isAsync = isAsync ∧ Shape.Accesses reads writes n

instance : Methods env (IsMethod false false false) (plainMethod g) := by
  refine ⟨fun F => .enters fun t => .keeps fun before => .keepsFlags <| .settles fun hF p hp t' => ?_⟩
  exact .methodTail hF hp fun _ _ => ⟨rfl, .neither⟩

instance : Methods env (IsMethod false false true) (asyncMethod g) := by
  refine ⟨fun F => .enters fun t => .keeps fun before => .keepsFlags <| .settles fun hF p hp t' => ?_⟩
  exact .methodTail hF hp fun _ _ => ⟨rfl, .neither⟩

instance : Methods env (IsMethod true false false) (getter g) := by
  refine ⟨fun F => .enters fun t => .keeps fun before => .keepsFlags <| .settles fun hF p hp t' => ?_⟩
  refine .ite (fun he => .methodTail hF hp fun _ _ => ⟨rfl, fun _ => ?_, nofun⟩) fun _ => .fails_bind
  rw [Node.functionParams?, List.isEmpty_iff.mp he]

instance : Methods env (IsMethod false true false) (setter g) := by
  refine ⟨fun F => .enters fun t => .keeps fun before => .keepsFlags <| .settles fun hF p hp t' => ?_⟩
  extract_lets rest
  split
  next n hn =>
    refine .ite (fun _ => .fails_bind) fun hr => .methodTail hF hp fun _ _ => ⟨rfl, nofun, fun _ => ⟨n, ?_, ?_⟩⟩
    · rw [Node.functionParams?, hn]
    · rw [← (hp n (by simp [hn])).rest]
      exact Bool.eq_false_iff.mpr hr
  · exact .fails_bind

instance : Methods env (IsMethod false false false) (generatorMethod g) := by
  refine ⟨fun F => .enters fun t => .keeps fun before => .keepsFlags <| .settles fun hF p hp t' => ?_⟩
  exact .keepsFlags <| .methodTail hF hp fun _ _ => ⟨rfl, .neither⟩

end

end ScriptTree.Parse
