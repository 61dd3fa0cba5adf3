import ScriptTree.Proofs.Parse.Cover.Function
import ScriptTree.Proofs.Parse.Nest.Object

/-! # Arrays, objects and classes

An array or an object may turn out to be a pattern. The flags after it are up only if they were up after each of
its parts, so that they tell of all of them. A method takes them down. -/

namespace ScriptTree.Parse

variable {head : MemberHead} {key : Node} {m start : Mark} {t' : Token}

open Parts

variable {β : Type} {env : Env} [Intolerant env] {g : Grammar} [Covering env g] {T B F : Prop} {t : Token}

omit [Intolerant env] in
/-- A first step that reads a spread argument, element or property. -/
theorem Leads.spreads {f : Node → Parse β} {R : β → State → Prop}
    (hf : F → ∀ info e t', Faces env (T ∧ e.AllTargets Shape.passesAsTarget)
      (B ∧ e.AllTargets Shape.passesAsName) (Proper env.source e) t' (f ⟨info, .spreadElement e⟩) R) :
    Faces env T B F t (spread g >>= f) R := by
  unfold spread
  simp only [bind_assoc]
  refine .keeps fun start => .expects fun hF _ _ => .inherits fun _ e t' _ => .shapes fun info => ?_
  exact .knowing (fun _ => id) (fun _ => id) Expr.proper (hf hF info e t')

instance : Grades env (arrayLiteral g) := by
  refine ⟨fun F => ?_⟩
  let All (p : Shape Node → Bool) (es : List (Option Node)) := ∀ n ∈ es.filterMap id, n.AllTargets p
  refine .enters fun t => .expects fun hF _ _ => ?_
  refine .accrues (U := All Shape.passesAsTarget) (V := All Shape.passesAsName)
    (P := fun n => Propers env.source n.toList) (fun _ => nofun) (fun _ => nofun) (fun es F => ?_) fun es t' => ?_
  · refine .facing fun t => .answers <| .ite (fun hc => ?_) fun _ => .answers <| .fork ?_ ?_
    · -- a hole
      exact .skips (not_arrow_of_isMark hc (by decide)) fun hF _ => .pure fun _ hs => ⟨hF, hs.known fun _ => .nil⟩
    · refine .spreads fun hF info e t' => .knowing (fun _ h => ?_) (fun _ h => ?_) (fun he => ?_) <| .answers <|
        .fork (.pure fun _ hs => ⟨hF, hs.reached⟩) <| .onlyValue <| .expects fun he _ t'' =>
        .pure fun _ hs => ⟨hF, (hs.imp (fun _ => False.elim) (fun _ => False.elim) fun _ => he).reached⟩
      · exact List.forall_mem_cons.mpr ⟨Node.allTargets_spread.mpr h.2, h.1⟩
      · exact List.forall_mem_cons.mpr ⟨Node.allTargets_spread.mpr h.2, h.1⟩
      · exact Propers.cons_iff.mpr ⟨.plain (by simpa using he), .nil⟩
    · refine .inherits fun hF e t' _ => .knowing (fun _ h => ?_) (fun _ h => ?_) (fun he => ?_) <|
        .expectsUnless fun he t'' => .pure fun _ hs => ⟨hF, hs.known fun _ => he⟩
      · exact List.forall_mem_cons.mpr h.symm
      · exact List.forall_mem_cons.mpr h.symm
      · exact Propers.cons_iff.mpr ⟨he.proper, .nil⟩
  · refine .expects fun hall _ t'' => .graded hF (fun _ => ?_) (fun _ hT _ => ?_) fun _ hB _ => ?_
    · intro n hn
      have hn : some n ∈ es := by simpa using hn
      exact hall.2 (some n) hn n (by simp)
    · simpa [All] using hT
    · simpa [All] using hB

/-! ## Objects -/

/-- A member of an object was read. The flags that are up after it tell of it too. If a bracket is ahead, the member
may have been taken for one with a computed key, but then the object does not go on. -/
def Joins (env : Env) (T B F : Prop) (n : Node) : State → Prop :=
  Upto env (T ∧ n.AllMemberTargets Shape.passesAsTarget) (B ∧ n.AllMemberTargets Shape.passesAsName) F
    fun t => t.lexeme.isMark "[" = false → Proper env.source n ∧ n.shape.isMember = true

omit [Intolerant env] in
/-- A property at the end of a rule. -/
theorem Leads.member {value : Node} {kind : PropertyKind} {computed method shorthand has : Bool}
    {P U V : Prop} (hF : F) (hk : P → Proper env.source key)
    (hkey : P → t.lexeme.isMark "[" = false → env.source.Keyed key computed m.index) (hv : P → Proper env.source value)
    (hT : P → U → T ∧ ∀ info, Node.AllMemberTargets Shape.passesAsTarget
      ⟨info, .property kind key computed value method shorthand⟩)
    (hB : P → V → B ∧ ∀ info, Node.AllMemberTargets Shape.passesAsName
      ⟨info, .property kind key computed value method shorthand⟩)
    (ha : P → Shape.Accesses (kind == .get) (kind == .set) value := by exact fun _ => .neither) :
    Faces env U V P t
      (Parse.finish m (.property kind key computed value method shorthand) >>= fun n => Pure.pure (n, has))
      fun x => Joins env T B F x.1 := by
  refine .made fun info _ hi => .pure fun _ hs =>
    ⟨hF, t, hs.imp (fun hP h => ?_) (fun hP h => ?_) fun hP hb => ⟨.plain ?_ (ha hP) fun q hq => ?_, rfl⟩⟩
  · exact ⟨(hT hP h).1, (hT hP h).2 info⟩
  · exact ⟨(hB hP h).1, (hB hP h).2 info⟩
  · simpa [hk hP] using hv hP
  · exact hi q hq ▸ hkey hP hb

/-- The start of a property was read from one token to another. A name before a bracket has been taken for a key. -/
structure HeadRead (src : Source) (t t' : Token) (head : PropertyHead) : Prop where
  proper : ∀ key ∈ head.key, Proper src key
  keyed : t'.lexeme.isMark "[" = false → ∀ key ∈ head.key, src.Keyed key head.computed t.start
  past : (isNameToken t.lexeme && !head.isAsync || t.lexeme.isMark "*") = true → src.Words t.start t'.start

theorem propertyHead_read (hstart : start.index = t.start) : Faces env T B F t (propertyHead g start t) fun head =>
      Upto env T B F fun t' => HeadRead env.source t t' head := by
  unfold propertyHead
  split
  next name ht =>
    have ha : ¬ Arrow t := by
      intro ha
      cases ha.symm.trans ht
    refine .skipsFrom ha fun hF t' stop hstop hgap => .answers <| .past <| .answers <| .ite (fun hasync => ?_) fun _ => ?_
    all_goals have hword : env.source.Words t.start t'.start := .word (hstop.word (by rw [ht]; rfl)) hgap .none
    · refine .keyFrom fun _ key t'' => .readTo hF fun hkey => ⟨by simpa using hkey.proper, ?_, fun h => ?_⟩
      · rintro - _ ⟨⟩
        exact ⟨t'.start, hword, hkey.hasKey⟩
      · rw [ht, hasync] at h
        cases h
    · refine .names fun key hkey hr => .readTo hF fun _ => ⟨by simpa using .of_isName hkey, ?_, fun _ => hword⟩
      rintro hb _ ⟨⟩
      exact ⟨t.start, .none, by rw [hb]; exact hstart ▸ hr⟩
  next hname =>
    refine .answers <| .ite (fun hm => ?_) fun hm => .answers <| .keyFrom fun hF key t' => .readTo hF fun hkey =>
      ⟨by simpa using hkey.proper, ?_, fun hw => ?_⟩
    · refine .skipsFrom (not_arrow_of_isMark hm (by decide)) fun hF t' stop hstop hgap => .readTo hF fun _ =>
        ⟨by simp, by simp, fun _ => ?_⟩
      exact .word (hstop.word (by simp [hm])) hgap .none
    · rintro - _ ⟨⟩
      exact ⟨t.start, .none, hkey.hasKey⟩
    · exact hkey.past (by simpa [hm] using hw) .none

theorem propertyValue_joins {hasProto : Bool} {t : Token} {head : PropertyHead}
    (hF : F) (hstart : start.index = t.start) (hmem : key ∈ head.key) :
    Faces env T B (HeadRead env.source t t' head) t' (propertyValue g hasProto start t key head)
      fun x => Joins env T B F x.1 := by
  have hkeyed (h : HeadRead env.source t t' head) {m : String} (hm : t'.lexeme.isMark m = true)
      (hne : m ≠ "[" := by decide) : env.source.Keyed key head.computed start.index := by
    refine hstart ▸ h.keyed ?_ key hmem
    rw [eq_of_isMark hm]
    exact beq_false_of_ne hne
  refine .answers <| .ite (fun hc => ?_) fun _ => .answers <| .ite (fun hm => ?_) fun _ => ?_
  · have hm := (Bool.and_eq_true_iff.mp hc).2
    refine .when <| .skips (not_arrow_of_isMark hm (by decide)) fun h _ => .inherits fun _ value _ _ => ?_
    exact .member hF (fun _ => h.proper key hmem) (fun _ _ => hkeyed h hm) Expr.proper (fun _ h => ⟨h.1, fun _ => h.2⟩)
      fun _ h => ⟨h.1, fun _ => h.2⟩
  · refine .fork (.method fun h value _ => ?_) <| .method fun h value _ => ?_
    all_goals
      exact .member hF (fun _ => h.proper key hmem) (fun _ _ => hkeyed h hm) And.left (fun _ => False.elim)
        fun _ => False.elim
  · split
    · refine .names fun name hname _ => .answers <| .ite (fun hm => ?_) fun _ => ?_
      · refine .answers <| .keepsFlags <| .skips (not_arrow_of_isMark hm (by decide)) fun h _ => .inlays
          fun _ init _ => .shapes fun info => ?_
        have hv : Propers env.source [init] →
            BindsNames Node.leaves env.source ⟨info, .assignmentPattern name init⟩ := fun hinit =>
          .default (.of_isName hname) (hinit init (by simp))
        exact .member hF (fun _ => h.proper key hmem) (fun _ _ => hkeyed h hm) (fun h => (hv h).proper)
          (fun h hT => ⟨hT, fun _ => (hv h).allTargets fun _ => Shape.passesAsTarget_of_isName⟩)
          fun h hB => ⟨hB, fun _ => (hv h).allTargets fun _ => Shape.passesAsName_of_isName⟩
      · have hv : BindsNames Node.leaves env.source name := .of_isName hname
        exact .member hF (·.proper key hmem) (fun h hb => hstart ▸ h.keyed hb key hmem) (fun _ => hv.proper)
          (fun _ hT => ⟨hT, fun _ => hv.allTargets fun _ => Shape.passesAsTarget_of_isName⟩)
          fun _ hB => ⟨hB, fun _ => hv.allTargets fun _ => Shape.passesAsName_of_isName⟩
    · exact .nextFails .fails

theorem property_joins (hasProto : Bool) : Faces env T B F t (property g hasProto) fun x => Joins env T B F x.1 := by
  refine .marks fun start hstart => .answers <| .bind (propertyHead_read hstart) fun head => .upto fun hF t' => .answers ?_
  have hkeyed (h : HeadRead env.source t t' head) {key : Node} {t'' : Token} (hkey : KeyRead env.source t' t'' key)
      (hw : (isNameToken t.lexeme && !head.isAsync || t.lexeme.isMark "*") = true) :
      env.source.Keyed key (t'.lexeme.isMark "[") start.index :=
    ⟨t'.start, hstart ▸ h.past hw, hkey.hasKey⟩
  have hword {b : Bool} {name : String} (h : (b && !head.isAsync) = true ∧ t.lexeme.isName name = true) :
      (isNameToken t.lexeme && !head.isAsync || t.lexeme.isMark "*") = true := by
    rw [(Bool.and_eq_true_iff.mp h.1).2, isNameToken_of_isName h.2]
    rfl
  have hstar (h : t.lexeme.isMark "*" = true) :
      (isNameToken t.lexeme && !head.isAsync || t.lexeme.isMark "*") = true := by
    rw [h, Bool.or_true]
  refine .ite (fun hc => ?_) fun _ => .ite (fun hc => ?_) fun _ => .ite (fun hc => ?_) fun _ => ?_
  all_goals try rw [Bool.and_eq_true_iff] at hc
  · refine .answers <| .keyFrom fun h key _ => .keepsFlags <| .method fun hkey value _ => ?_
    exact .member hF (fun _ => hkey.proper) (fun _ _ => hkeyed h hkey (hword hc)) And.left (fun _ => False.elim) (fun _ => False.elim) (·.2.2)
  · refine .answers <| .keyFrom fun h key _ => .method fun hkey value _ => ?_
    exact .member hF (fun _ => hkey.proper) (fun _ _ => hkeyed h hkey (hword hc)) And.left (fun _ => False.elim) (fun _ => False.elim) (·.2.2)
  · refine .answers <| .keyFrom fun h key _ => .method fun hkey value _ => ?_
    exact .member hF (fun _ => hkey.proper) (fun _ _ => hkeyed h hkey (hstar hc.2)) And.left (fun _ => False.elim)
      fun _ => False.elim
  · cases hk : head.key with
    | none => exact .fails
    | some key => exact propertyValue_joins hF hstart hk

instance : Grades env (objectLiteral g) := by
  refine ⟨fun F => ?_⟩
  let All (p : Shape Node → Bool) (ms : List Node) := ∀ m ∈ ms, m.AllMemberTargets p
  let I (found : List Node) := Reached env (All Shape.passesAsTarget found) (All Shape.passesAsName found)
    (∀ m ∈ found, Proper env.source m ∧ m.shape.isMember = true)
  refine .enters fun t => .expects fun hF _ _ => ?_
  refine .loops (Q := I) (fun x => I x.1) (fun _ hs => ?_) (fun (found, hasProto) => ?_) fun found => ?_
  · exact (hs.imp (fun _ _ => nofun) (fun _ _ => nofun) fun _ => nofun).reached
  · refine .facing fun t => .answers <| .fork (.pure fun _ hs => hs.reached) <| .answers ?_
    extract_lets rest
    have hrest n hasProto : Leads env (Joins env (All Shape.passesAsTarget found) (All Shape.passesAsName found)
        (∀ m ∈ found, Proper env.source m ∧ m.shape.isMember = true) n) (rest (n, hasProto))
        fun r s => r.Satisfies (fun x => I x.1 s) (I · s) := by
      have hbracket {l : Lexeme} {m : String} (hm : l.isMark m = true) (hne : m ≠ "[" := by decide) :
          l.isMark "[" = false := by
        rw [eq_of_isMark hm]
        exact beq_false_of_ne hne
      have hadd {t' : Token} hall (h : t'.lexeme.isMark "[" = false → Proper env.source n ∧ n.shape.isMember = true) hb :
          ∀ m ∈ n :: found, Proper env.source m ∧ m.shape.isMember = true :=
        List.forall_mem_cons.mpr ⟨h hb, hall⟩
      refine .upto fun hall t' => .knowing (fun _ h => ?_) (fun _ h => ?_) (hadd hall) <| .answers <|
        .ite (fun hm => .pure fun _ hs => hs.known fun h => h (hbracket hm)) fun _ =>
        .comma fun hall hm t'' => .pure fun _ hs => hs.known fun _ => hall (hbracket hm)
      · exact List.forall_mem_cons.mpr h.symm
      · exact List.forall_mem_cons.mpr h.symm
    refine .fork (.spreads fun hall info e t' => .pure_bind ?_) <|
      .bind (property_joins hasProto) fun (n, hasProto) => hrest n hasProto
    refine .weaken (fun _ hs => ⟨hall, t', ?_⟩) (hrest ⟨info, .spreadElement e⟩ hasProto)
    exact hs.imp (fun _ => id) (fun _ => id) fun he _ => ⟨.plain (by simpa using he), rfl⟩
  · refine .facing fun t => .expects fun hall _ t' => ?_
    refine .graded hF (fun _ => ?_) (fun _ hT _ => ?_) (fun _ hB _ => ?_) fun _ => ?_
    · intro m hm
      exact (hall m (by simpa using hm)).1
    · simpa [All] using hT
    · simpa [All] using hB
    · exact fun m hm => (hall m (List.mem_reverse.mp hm)).2

/-! ## Classes -/

/-- The start of a member was read from one token to another. Nothing is known of a bracket before a static member. -/
structure MemberRead (src : Source) (t t' : Token) (head : MemberHead) : Prop where
  proper : ∀ key ∈ head.key, Proper src key
  computed : head.computed = true → head.isAsync = false ∧ head.token.lexeme.isMark "[" = true
  keyed : (head.isStatic && src.hasAt t.start "[") = false →
    (head.isAsync = false ∨ isNameToken head.token.lexeme = true) →
    ∀ key ∈ head.key, src.Keyed key head.computed t.start
  past : (head.isStatic && src.hasAt t.start "[") = false →
    (isNameToken head.token.lexeme || head.token.lexeme.isMark "*") = true →
    ∀ {i}, src.Words t'.start i → src.Words t.start i

theorem staticHead_read (hF : F) (hm : ¬ t.lexeme.isMark "*" = true) :
    Faces env T B (KeyRead env.source t t' key) t'
      (staticHead g { token := t, computed := t.lexeme.isMark "[" } key) fun head =>
      Upto env T B F fun t'' => MemberRead env.source t t'' head := by
  refine .answers <| .answers <| .ite (fun hc => ?_) fun _ => .readTo hF fun hkey => ⟨?_, fun h => ⟨rfl, h⟩, ?_, ?_⟩
  · -- the first word is no part of the key
    have hname : key.shape.isName = true := by
      have := (Bool.and_eq_true_iff.mp hc).1
      unfold Node.isNamed at this
      split at this
      next h => rw [h]; rfl
      next => cases this
    have hpast (hkey : KeyRead env.source t t' key) (h : env.source.hasAt t.start "[" = false) {i}
        (hw : env.source.Words t'.start i) : env.source.Words t.start i :=
      hkey.past (hkey.name (hkey.not_bracket h) hname) hw
    refine .answers <| .answers <| .answers <| .ite (fun hs => ?_) fun hs => .keyFrom fun hkey key' t'' =>
      .readTo hF fun hkey' => ⟨?_, fun h => ⟨rfl, h⟩, ?_, fun h hw i => ?_⟩
    · refine .skipsFrom (not_arrow_of_isMark hs (by decide)) fun hkey t'' stop hstop hgap => .readTo hF fun _ =>
        ⟨?_, fun h => ⟨rfl, h⟩, ?_, fun h _ i hw => hpast hkey h (.word (hstop.word (by simp [hs])) hgap hw)⟩
      · rintro _ ⟨⟩
        exact hkey.proper
      · rintro h - _ ⟨⟩
        rw [eq_of_isMark hs]
        exact ⟨t.start, .none, hkey.plain (hkey.not_bracket h)⟩
    · rintro _ ⟨⟩
      exact hkey'.proper
    · rintro h - _ ⟨⟩
      exact ⟨t'.start, hpast hkey h .none, hkey'.hasKey⟩
    · exact fun hw' => hpast hkey h (hkey'.past (by simpa [hs] using hw) hw')
  · rintro _ ⟨⟩
    exact hkey.proper
  · rintro - - _ ⟨⟩
    exact ⟨t.start, .none, hkey.hasKey⟩
  · exact fun _ hw => hkey.past (by simpa [hm] using hw)

theorem asyncHead_read (hF : F) : Faces env T B (MemberRead env.source t t' head) t' (asyncHead g head) fun head =>
      Upto env T B F fun t'' => MemberRead env.source t t'' head := by
  refine .answers <| .past <| .ite (fun hc => ?_) fun _ => .readTo hF id
  simp only [Bool.and_eq_true, Bool.not_eq_true', Bool.or_eq_false_iff] at hc
  have hname := isNameToken_of_isName hc.1.1
  have hcomputed (hread : MemberRead env.source t t' head) : head.computed = false := by
    refine Bool.eq_false_iff.mpr fun h => ?_
    exact absurd (hread.computed h).2 (by rw [not_isMark_of_isNameToken hname]; decide)
  refine .answers <| .keyFrom fun hread key t'' => .when <| .readTo hF fun hkey => ⟨?_, ?_, ?_, fun h hw i hw' => ?_⟩
  · rintro _ ⟨⟩
    exact hkey.proper
  · exact fun h => absurd h (by simp [hcomputed hread])
  · rintro h (h' | h') _ ⟨⟩
    · cases h'
    · refine ⟨t'.start, hread.past h (by simp [hname]) .none, ?_⟩
      rw [hcomputed hread]
      exact hkey.plain (not_isMark_of_isNameToken h')
  · refine hread.past h (by simp [hname]) (hkey.past ?_ hw')
    rcases Bool.or_eq_true_iff.mp hw with hn | hs
    · exact hn
    · rw [show t'.lexeme = _ from eq_of_isMark hs] at hc
      exact absurd hc.2.2 (by decide)

theorem memberHead_read :
    Faces env T B F t (memberHead g) fun head => Upto env T B F fun t' => MemberRead env.source t t' head := by
  refine .answers <| .answers <| .ite (fun hs => ?_) fun hs => .answers <| .keyFrom fun hF key t' => ?_
  · refine .skipsFrom (not_arrow_of_isMark hs (by decide)) fun hF t' stop hstop hgap => .readTo hF fun _ => ?_
    exact ⟨nofun, nofun, fun _ _ => nofun, fun _ _ _ => .word (hstop.word (by simp [hs])) hgap⟩
  · exact .bind (staticHead_read hF hs) fun head => .upto fun _ _ => asyncHead_read hF

/-- What is known of the value of a member. Which method is the constructor is not told yet. -/
def MemberValue.Formed (computed : Bool) (keyed : Prop) : MemberValue → Prop
  | .method kind value => kind ≠ .constructor ∧ Shape.Accesses (kind == .get) (kind == .set) value ∧
    (value.isAsync = true → computed = false) ∧ (value.isAsync = false → keyed)
  | .field _ => computed = false ∧ keyed

/-- The value of a member that starts at an offset was read, if there is one. -/
def Valued (env : Env) (i : Nat) (isStatic : Bool) (F : Prop) (x : Option (Node × Bool × MemberValue)) :
    State → Prop :=
  Onward env True True F (Intact env x ∧ ∀ v ∈ x, v.2.2.Formed v.2.1
    ((isStatic && env.source.hasAt i "[") = false → env.source.Keyed v.1 v.2.1 i))

theorem memberValue_proper (hF : F) : Faces env True True (MemberRead env.source t t' head) t' (memberValue g m head)
      (Valued env t.start head.isStatic F) := by
  obtain ⟨key, token, computed, isStatic, isAsync⟩ := head
  refine .answers ?_
  extract_lets keyAhead method field
  have hnone {P : Prop} {t' : Token} : Faces env True True P t' (pure none) (Valued env t.start isStatic F) :=
    .pure fun _ hs => ⟨hF, hs.known fun _ => ⟨.nil, by simp⟩⟩
  have hvalue {key value : Node} {computed isAsync : Bool} {kind : MethodKind} {K : Prop} {t' : Token}
      (hk : Proper env.source key) (hkind : kind ≠ .constructor)
      (ha : K → IsMethod (kind == .get) (kind == .set) isAsync value) (hc : isAsync = true → computed = false)
      (hkey : isAsync = false → (isStatic && env.source.hasAt t.start "[") = false →
        env.source.Keyed key computed t.start) :
      Faces env False False (Proper env.source value ∧ K) t' (pure (some (key, computed, .method kind value))) (Valued env t.start isStatic F) := by
    refine .knowing (fun _ => False.elim) (fun _ => False.elim) id <| .pure fun _ hs => ⟨hF, hs.known fun hv => ?_⟩
    refine ⟨List.forall_mem_cons.mpr ⟨hk, Propers.cons_iff.mpr ⟨hv.1, .nil⟩⟩, ?_⟩
    rintro _ ⟨⟩
    obtain ⟨hasync, haccess⟩ := ha hv.2
    exact ⟨hkind, haccess, fun h => hc (hasync ▸ h), fun h => hkey (hasync ▸ h)⟩
  have hmethod : Faces env True True (MemberRead env.source t t' ⟨key, token, computed, isStatic, isAsync⟩) t'
      method (Valued env t.start isStatic F) := by
    cases key with
    | none => exact hnone
    | some key =>
      refine .answers <| .fork (.ite (fun hasync => .method fun h value _ => ?_) fun hasync => .method fun h value _ => ?_) hnone
      · refine hvalue (h.proper key rfl) (by simp) id (fun _ => Bool.eq_false_iff.mpr fun hc => ?_) (by simp)
        cases hasync.symm.trans (h.computed hc).1
      · exact hvalue (h.proper key rfl) (by simp) id (by simp) fun _ hs =>
          h.keyed hs (.inl (Bool.eq_false_iff.mpr hasync)) key rfl
  -- the words before the key that is read now
  have hkeyed (h : MemberRead env.source t t' ⟨key, token, computed, isStatic, isAsync⟩) {key' : Node} {t'' : Token}
      (hkey : KeyRead env.source t' t'' key') (hw : (isNameToken token.lexeme || token.lexeme.isMark "*") = true)
      (hs : (isStatic && env.source.hasAt t.start "[") = false) :
      env.source.Keyed key' (t'.lexeme.isMark "[") t.start :=
    ⟨t'.start, h.past hs hw .none, hkey.hasKey⟩
  split
  next name htoken =>
    have hname : isNameToken token.lexeme = true := by rw [show token.lexeme = _ from htoken]; rfl
    have hfield {value : Option Node} {t''} {P : Prop}
        (h : P → MemberRead env.source t t' ⟨key, token, computed, isStatic, isAsync⟩ ∧ Propers env.source value.toList) :
        Faces env True True P t'' (field value) (Valued env t.start isStatic F) := by
      cases key with
      | none => exact hnone
      | some key =>
        refine .pure fun _ hs => ⟨hF, hs.known fun hP => ?_⟩
        obtain ⟨hread, hvalue⟩ := h hP
        refine ⟨List.forall_mem_cons.mpr ⟨hread.proper key rfl, hvalue⟩, ?_⟩
        rintro _ ⟨⟩
        refine ⟨Bool.eq_false_iff.mpr fun hc => ?_, fun hs => hread.keyed hs (.inr hname) key rfl⟩
        have := (hread.computed hc).2
        rw [not_isMark_of_isNameToken hname] at this
        cases this
    have hw : (isNameToken token.lexeme || token.lexeme.isMark "*") = true := by rw [hname, Bool.true_or]
    refine .fork ?_ <| .fork ?_ <| .past <| .answers <| .fork (.names fun _ _ _ => .answers ?_) hmethod
    · -- what has been taken for the key is the word of the accessor
      exact .answers <| .keyFrom fun h key _ => .keepsFlags <| .method fun hkey value _ =>
        hvalue hkey.proper (by simp) id (by simp) fun _ => hkeyed h hkey hw
    · exact .answers <| .keyFrom fun h key _ => .method fun hkey value _ =>
        hvalue hkey.proper (by simp) id (by simp) fun _ => hkeyed h hkey hw
    · exact .ite (fun hs => .skips (not_arrow_of_isMark hs (by decide)) fun h _ => .parts fun _ value _ =>
        hfield fun hvalue => ⟨h, hvalue⟩) fun _ => .pure_bind (hfield fun h => ⟨h, .nil⟩)
  next htoken =>
    refine .fork ?_ hmethod
    exact .answers <| .keyFrom fun h key _ => .method fun hkey value _ =>
      hvalue hkey.proper (by simp) id (by simp) fun _ =>
        hkeyed h hkey (by rw [show token.lexeme = _ from htoken]; rfl)
  next => exact hmethod

/-- There is no second constructor, and the rule tells of the first. -/
theorem classMember_counts (has : Bool) : Leads env (Reached env True True F) (classMember g has) fun x =>
      Onward env True True F (Proper env.source x.1 ∧ x.2.toNat = has.toNat + (x.1.isConstructor).toNat) := by
  refine .facing fun t => .marks fun start hstart => .bind memberHead_read fun head => .upto fun hF _ =>
    .bind (memberValue_proper hF) fun value => .onward fun _ t' => ?_
  rcases value with _ | ⟨key, computed, ⟨kind, value⟩ | value⟩
  · exact .fails
  · refine .when ?_
    extract_lets isConstructor
    have hstatic : isConstructor = true → head.isStatic = false := fun hc => by
      simp only [isConstructor, Bool.and_eq_true, Bool.not_eq_true'] at hc
      exact hc.1.2
    clear_value isConstructor
    have hmethod (hc : isConstructor = true → has = false ∧ isGenerator value = false) :
        Faces env True True (Propers env.source [key, value] ∧
          ∀ v ∈ some (key, computed, MemberValue.method kind value), v.2.2.Formed v.2.1
            ((head.isStatic && env.source.hasAt t.start "[") = false → env.source.Keyed v.1 v.2.1 t.start)) t' (do
          let n ← finish start (.methodDefinition key computed value (if isConstructor then .constructor else kind)
            head.isStatic)
          return (n, has || isConstructor))
        fun x => Onward env True True F
          (Proper env.source x.1 ∧ x.2.toNat = has.toNat + (x.1.isConstructor).toNat) := by
      refine .made fun info _ hi => .pure fun _ hs => ⟨hF, hs.known fun h => ?_⟩
      obtain ⟨hparts, hformed⟩ := h
      obtain ⟨hkind, hvalue, hcomputed, hkey⟩ := hformed _ rfl
      have hkeyed (ha : value.isAsync = false) : ∀ q ∈ info.range,
          (head.isStatic && env.source.hasAt q.start "[") = false → env.source.Keyed key computed q.start :=
        fun q hq => (hi q hq).trans hstart ▸ hkey ha
      cases isConstructor with
      | false =>
        refine ⟨.plain (by simpa using hparts) ⟨fun h => absurd h hkind, hvalue⟩ ⟨hcomputed, hkeyed⟩, ?_⟩
        simp [Node.isConstructor, hkind]
      | true =>
        obtain ⟨rfl, hg⟩ := hc rfl
        exact ⟨.plain (by simpa using hparts) ⟨fun _ => ⟨hg, hstatic rfl⟩, .neither⟩ ⟨hcomputed, hkeyed⟩, rfl⟩
    refine .ite (fun hc => .ite (fun _ => .fails_bind) fun hk => .ite (fun _ => .fails_bind) fun hh => ?_) fun hc =>
      hmethod fun h => absurd h hc
    refine hmethod fun _ => ⟨Bool.eq_false_iff.mpr hh, ?_⟩
    exact Bool.eq_false_iff.mpr fun hg => hk (by rw [hg, Bool.or_true])
  · refine .when <| .when <| .made fun info _ hi => .pure fun _ hs => ⟨hF, hs.known fun h => ⟨.plain ?_ trivial ?_, rfl⟩⟩
    · have h : Propers env.source (key :: value.toList) := h.1
      simpa using h
    · obtain ⟨hc, hkey⟩ := h.2 _ rfl
      exact ⟨hc, fun q hq => (hi q hq).trans hstart ▸ hkey⟩

instance : Settles env (Proper env.source) (classBody g) := by
  refine ⟨fun F => ?_⟩
  let I (n : Nat) (found : List Node) :=
    Reached env True True (Propers env.source found ∧ found.countP Node.isConstructor ≤ n)
  refine .enters fun t => .expects fun hF _ _ => ?_
  refine .loops (Q := I 1) (fun x => I x.2.toNat x.1) (fun _ hs => hs.known fun _ => ⟨.nil, Nat.le_refl _⟩)
    (fun (found, has) => ?_) fun found => ?_
  · refine .facing fun t => .answers ?_
    refine .fork (.pure fun _ hs => hs.known fun hall => ?_) <| .answers <| .ite (fun hs => ?_) fun _ => ?_
    · exact ⟨hall.1, Nat.le_trans hall.2 (Bool.toNat_le has)⟩
    · exact .skips (not_arrow_of_isMark hs (by decide)) fun hall _ => .pure fun _ hs => hs.known fun _ => hall
    · refine .bind (.weaken (fun _ hs => hs.reached) (classMember_counts has)) fun (n, has') => .onward
        fun hall _ => .pure fun _ hs => hs.known fun hn => ⟨Propers.cons_iff.mpr ⟨hn.1, hall.1⟩, ?_⟩
      rw [hn.2]
      cases hc : n.isConstructor <;> simp [hc, hall.2]
  · refine .facing fun t => .expects fun hall _ _ => .shapedSurely hF ?_ ?_
    · simpa using hall.1
    · show found.reverse.countP _ ≤ 1
      rw [List.countP_reverse]
      exact hall.2

instance : Settles env (fun x => Propers env.source x.1.toList ∧ Proper env.source x.2) (classTail g) := by
  refine ⟨fun F => .facing fun t => .answers <| .ite (fun hs => ?_) fun _ => .pure_bind ?_⟩
  · refine .skips (not_arrow_of_isWord hs) fun hF _ => .parts fun _ parent _ => .settles fun hp body hbody _ =>
      .pure fun _ hs => ?_
    exact ⟨hF, ⟨hp, hbody⟩, hs.reached⟩
  · exact .settles fun hF body hbody _ => .pure fun _ hs => ⟨hF, ⟨.nil, hbody⟩, hs.reached⟩

/-- A class whose parts are known. -/
theorem propers_class {src : Source} {id parent : Option Node} {body : Node} (hid : Propers src id.toList)
    (hparent : Propers src parent.toList) (hbody : Proper src body) :
    Propers src (Shape.classExpression id parent body).children := by
  simp [Shape.classParts, hid, hparent, hbody]

instance (nameIsOptional : Bool) : Settles env (Proper env.source) (classDeclaration g nameIsOptional) := by
  refine ⟨fun F => .enters fun t => .keeps fun before => .keepsFlags <| .expectsWord fun hF _ t' =>
    .keeps fun _ => ?_⟩
  extract_lets rest
  have hrest {P : Prop} {t : Token} (id : Option Node) : (P → Propers env.source id.toList) →
      Faces env True True P t (rest id) fun n s => F ∧ Proper env.source n ∧ Reached env True True True s := by
    intro hid
    refine .settles fun hP (parent, body) ⟨hparent, hbody⟩ _ => .keepsFlags <| .shapedSurely hF ?_
    exact propers_class (hid hP) hparent hbody
  exact .fork (.pure_bind (hrest none fun _ => .nil)) <| .parts fun _ id _ => hrest id fun h => h

instance : Settles env (ProperLoose env.source) (classExpression g) := by
  refine ⟨fun F => .enters fun t => .keeps fun before => .keepsFlags <| .expectsWord fun hF _ t' =>
    .keeps fun _ => ?_⟩
  extract_lets rest
  have hrest {P : Prop} {t : Token} (id : Option Node) : (P → Propers env.source id.toList) →
      Faces env True True P t (rest id) fun n s => F ∧ ProperLoose env.source n ∧ Reached env True True True s := by
    intro hid
    refine .settles fun hP (parent, body) ⟨hparent, hbody⟩ _ => .keepsFlags <| .looseSurely hF ?_
    exact propers_class (hid hP) hparent hbody
  exact .fork (.parts fun _ id _ => hrest id fun h => h) <| .pure_bind (hrest none fun _ => .nil)

end ScriptTree.Parse
