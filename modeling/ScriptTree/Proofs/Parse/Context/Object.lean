import ScriptTree.Proofs.Parse.Context.Function

/-! # Arrays, objects and classes restore the context

All but one thing: before a getter the permission for yields is taken away, and the getter, which restores
what it finds, keeps it so. The setter and the generator beside it show that nothing else leaves a trace,
as the word in front of their key is a plain name. -/

namespace ScriptTree.Parse

variable {name : String} {start : Mark} {β : Type}

open Parts

attribute [local simp] Shape.classParts

variable {env : Env} {g : Grammar} [Restoring env g] {c : Context} {t : Token} {r : Residue} {head : MemberHead}

namespace Restores

instance : Restores env (spread g) := .routine

instance : Restores env (arrayLiteral g) := .routine

end Restores

/-! ## Objects -/

/-- What may stand before a key to tell what kind of property or member it is of. -/
def IsModifier (l : Lexeme) : Prop := (∃ name, l = .identifier name) ∨ l = .punctuator "*"

theorem isModifier_of_isName {l : Lexeme} (h : l.isName name = true) : IsModifier l := by
  cases l with
  | identifier t => exact .inl ⟨t, rfl⟩
  | _ => cases h

omit [Restoring env g] in
/-- A name is a plain key, and a mark is none. -/
theorem propertyKey_plain {s s' : State} {key : Node} (h : Returns (propertyKey g) env s key s')
    (hw : IsModifier s.lookahead.lexeme) : key.residue = ∅ := by
  replace h := Returns.first h rfl
  obtain ⟨t, u, ht, h⟩ := h.bind
  obtain ⟨rfl, -⟩ := next_moves ht
  dsimp only at h
  rcases hw with ⟨name, hw⟩ | hw
  · rw [hw] at h
    exact congrArg Node.Summary.own (finish_summary h)
  · rw [hw] at h
    change Returns (rejectToken s.lookahead : Parse Node) env u key s' at h
    exact absurd h Fails.fails

/-- A key that starts with the token `t`. -/
theorem Leads.key {f : Node → Parse β} {R : β → State → Prop}
    (hf : ∀ key : Node, (IsModifier t.lexeme → key.residue = ∅) → Leads env (After c (r ∪ key.residue)) (f key) R) :
    Leads env (fun s => After c r s ∧ s.lookahead = t) (propertyKey g >>= f) R := by
  rintro s b s' ⟨hs, rfl⟩ h
  obtain ⟨key, u, h₁, h₂⟩ := h.bind
  exact hf key (propertyKey_plain h₁) u b s' (Since.trans hs (Restores.since h₁)) h₂

/-- The token ahead is remembered. -/
theorem Leads.ahead {f : Token → Parse β} {R : β → State → Prop}
    (hf : ∀ t, Leads env (fun s => After c r s ∧ s.lookahead = t) (f t) R) :
    Leads env (After c r) (lookahead >>= f) R := by
  intro s b s' hs h
  exact hf s.lookahead s b s' ⟨hs, rfl⟩ (h.first rfl)

/-- A question about the token ahead. -/
theorem Leads.asks {mark : String} {f : Bool → Parse β} {R : β → State → Prop}
    (hf : Leads env (fun s => After c r s ∧ s.lookahead = t) (f (t.lexeme.isMark mark)) R) :
    Leads env (fun s => After c r s ∧ s.lookahead = t) (sees mark >>= f) R := by
  rintro s b s' ⟨hs, rfl⟩ h
  exact hf s b s' ⟨hs, rfl⟩ (h.first rfl)

theorem Leads.forget {α : Type} {p : Parse α} {Q : α → State → Prop}
    (h : Leads env (After c r) p Q) : Leads env (fun s => After c r s ∧ s.lookahead = t) p Q :=
  .weaken (fun _ hs => hs.1) h

instance : Leaves PropertyHead := ⟨fun head => residue head.key⟩

/-- After a word that tells the kind of the property nothing has been left behind. -/
theorem propertyHead_leaves :
    Leads env (fun s => After c ∅ s ∧ s.lookahead = t) (propertyHead g start t) fun head s => Leaving c head s ∧
        (head.isAsync = false ∨ t.lexeme = .punctuator "*" → IsModifier t.lexeme → residue head = ∅) := by
  unfold propertyHead
  split
  · refine .forget <| .past <| .past <| .past <| .keeps fun _ => ?_
    refine .ite (fun ha => ?_) fun ha => ?_
    · refine .leaves fun key => .pure fun _ h => ⟨h.of_eq ?_, fun hn => ?_⟩
      · exact residue_some key
      · simp_all
    · refine .makes fun key hkey => .pure fun _ h => ?_
      have hr : key.residue = ∅ := congrArg Node.Summary.own hkey
      have hhead : residue (some key) = ∅ := by simp [hr]
      exact ⟨h.of_eq hhead, fun _ _ => hhead⟩
  · refine .asks <| .ite (fun hs => ?_) fun hs => ?_
    · exact .forget <| .past <| .pure fun _ h => ⟨h, fun _ _ => rfl⟩
    · refine .asks <| .key fun key hkey => .pure fun _ h => ⟨h.of_eq ?_, fun _ hw => ?_⟩
      · exact residue_some key
      · exact (residue_some key).trans (hkey hw)

theorem propertyValue_leaves {hasProto : Bool} {key : Node} {head : PropertyHead} :
    Leads env (After c key.residue) (propertyValue g hasProto start t key head) (Leaving c) := by
  refine .past <| .fork ?_ <| .past <| .fork ?_ ?_
  · refine .pastIf <| .past <| .leaves fun value => .endsPairAs ?_
    simp
  · refine .fork (.plain fun value hvalue => .endsPairAs ?_) <| .plain fun value hvalue => .endsPairAs ?_
    · simp_all
    · simp_all
  · split
    · refine .makes fun id hid => .keeps fun _ => ?_
      have hr : id.residue = ∅ := congrArg Node.Summary.own hid
      refine .fork ?_ <| .endsPairAs ?_
      · -- the initial value is read as an expression, so that nothing is given back after it
        refine .past <| .past <| .past <| .leaves fun init => .makes fun value hvalue => ?_
        have hv : value.residue = id.residue := (congrArg Node.Summary.own hvalue).trans Node.residue_binding
        have hi : value.summary.initial = init.residue := congrArg Node.Summary.initial hvalue
        exact .endsPairAs (by simp [hv, hr, hi])
      · have hnone : id.summary.initial = ∅ := congrArg Node.Summary.initial hid
        simp [hr, hnone]
    · exact .past .fails

namespace Restores

instance (hasProto : Bool) : Restores env (property g hasProto) := by
  refine .of_leads fun c => .keeps fun start => .ahead fun t => .bind propertyHead_leaves fun head => ?_
  refine .fact fun hhead => .keeps fun l => .fork ?_ <| .ite (fun hset => ?_) fun _ =>
    .ite (fun hmark => ?_) fun _ => ?_
  · refine .past <| .leaves fun key => .resets c { getter := true } (fun _ h => ?_) ?_
    · exact { h with allowYield := .getter _ }
    · refine .plain fun value _ => .endsPairAs ?_
      simp
  · simp only [Bool.and_eq_true, Bool.not_eq_true'] at hset
    rw [Leaving, hhead (.inl hset.1.2) (isModifier_of_isName hset.2)]
    refine .past <| .leaves fun key => .plain fun value hvalue => .endsPairAs ?_
    simp_all
  · simp only [Bool.and_eq_true] at hmark
    have hstar := eq_of_isMark hmark.2
    rw [Leaving, hhead (.inr hstar) (.inr hstar)]
    refine .past <| .leaves fun key => .plain fun value hvalue => .endsPairAs ?_
    simp_all
  · split
    next key hkey =>
      refine .weaken (fun _ h => h.of_eq ?_) propertyValue_leaves
      show key.residue = residue head.key
      rw [hkey]
      simp
    next => exact .fails

instance : Restores env (objectLiteral g) := .routine

end Restores

/-! ## Classes -/

instance : Leaves MemberHead := ⟨fun head => residue head.key⟩

/-- The head of a member, of whose key nothing is left if its token may be a modifier. -/
def HeadAfter (c : Context) (head : MemberHead) (s : State) : Prop :=
  Leaving c head s ∧ (IsModifier head.token.lexeme → residue head = ∅)

theorem residue_of_isNamed {n : Node} (h : n.isNamed name = true) : n.residue = ∅ := by
  obtain ⟨info, shape⟩ := n
  cases shape with
  | identifier t => rfl
  | _ => cases h

theorem staticHead_leaves {key : Node} (hkey : IsModifier head.token.lexeme → key.residue = ∅) :
    Leads env (After c key.residue) (staticHead g head key) (HeadAfter c) := by
  refine .past <| .past <| .ite (fun hs => ?_) fun _ => ?_
  · -- the word that was read as a key is no part of the member
    simp only [Bool.and_eq_true] at hs
    have hplain := residue_of_isNamed hs.1
    rw [hplain]
    refine .ahead fun t => .asks <| .asks <| .fork ?_ ?_
    · refine .forget <| .past <| .pure fun _ h => ⟨h.of_eq ?_, fun _ => ?_⟩
      · exact (residue_some key).trans hplain
      · exact (residue_some key).trans hplain
    · refine .key fun key hkey => .pure fun _ h => ⟨h.of_eq ?_, fun hw => ?_⟩
      · exact residue_some key
      · exact (residue_some key).trans (hkey hw)
  · refine .pure fun _ h => ⟨h.of_eq ?_, fun hw => ?_⟩
    · exact residue_some key
    · exact (residue_some key).trans (hkey hw)

theorem asyncHead_leaves : Leads env (HeadAfter c head) (asyncHead g head) (HeadAfter c) := by
  refine .fact fun hhead => .past <| .past <| .ite (fun ha => ?_) fun _ => ?_
  · simp only [Bool.and_eq_true] at ha
    rw [Leaving, hhead (isModifier_of_isName ha.1.1)]
    refine .ahead fun t => .key fun key hkey => .pastIf <| .pure fun _ h => ⟨h.of_eq ?_, fun hw => ?_⟩
    · exact residue_some key
    · exact (residue_some key).trans (hkey hw)
  · exact .pure fun _ h => ⟨h, hhead⟩

theorem memberHead_leaves : Leads env (After c ∅) (memberHead g) (HeadAfter c) := by
  refine .ahead fun t => .asks <| .fork ?_ ?_
  · exact .forget <| .past <| .pure fun _ h => ⟨h, fun _ => rfl⟩
  · refine .asks <| .key fun key hkey => ?_
    exact .bind (staticHead_leaves hkey) fun _ => asyncHead_leaves

def memberResidue : Option (Node × Bool × MemberValue) → Residue
  | none => ∅
  | some (_, _, .method .get _) => { getter := true }
  | some (key, _, .method _ value) => key.residue ∪ value.residue
  | some (key, _, .field value) => key.residue ∪ residue value

theorem memberValue_leaves : Leads env (HeadAfter c head) (memberValue g start head)
      fun x s => x.isSome → After c (memberResidue x) s := by
  refine .fact fun hhead => .keeps fun l => ?_
  extract_lets keyAhead method field
  have hkeyed {key} : head.key = some key → residue head = key.residue := by
    intro hkey
    show residue head.key = _
    rw [hkey, residue_some]
  have hmethod : Leads env (Leaving c head) method fun x s => x.isSome → After c (memberResidue x) s := by
    dsimp only [method]
    split
    next key hkey =>
      rw [Leaving, hkeyed hkey]
      refine .past <| .fork ?_ <| .pure fun _ _ h => by cases h
      have hvalue (value : Node) : value.residue = ∅ →
          memberResidue (some (key, head.computed, .method .method value)) = key.residue := by
        intro hv
        show key.residue ∪ value.residue = key.residue
        rw [hv, Residue.union_empty]
      refine .fork (.plain fun value hv => ?_) <| .plain fun value hv => ?_
      · exact .pure fun _ h _ => h.of_eq (hvalue value hv)
      · exact .pure fun _ h _ => h.of_eq (hvalue value hv)
    next => exact .pure fun _ _ h => by cases h
  split
  next name hname =>
    have hnothing := hhead (.inl ⟨name, hname⟩)
    refine .fork ?_ <| .fork ?_ ?_
    · refine .past <| .leaves fun key => .resets c { getter := true } (fun _ h => ?_) ?_
      · exact { h with allowYield := .getter _ }
      · exact .plain fun value _ => .pure fun _ h _ => h
    · rw [Leaving, hnothing]
      refine .past <| .leaves fun key => .plain fun value hv => .pure fun _ h _ => h.of_eq ?_
      show key.residue ∪ value.residue = _
      rw [hv]
      simp
    · refine .past <| .past <| .fork (.makes fun _ _ => .keeps fun _ => ?_) hmethod
      have hfield value : Leads env (After c (residue head ∪ residue value)) (field value)
          fun x s => x.isSome → After c (memberResidue x) s := by
        dsimp only [field]
        split
        next key hkey =>
          rw [hkeyed hkey]
          exact .pure fun _ h _ => h
        next => exact .pure fun _ _ h => by cases h
      refine .fork (.past <| .leaves hfield) <| .pure_bind ?_
      exact .weaken (fun _ h => h.of_eq (Residue.union_empty _)) (hfield none)
  next hstar =>
    rw [Leaving, hhead (.inr hstar)]
    refine .fork ?_ <| .weaken (fun _ h => h.of_eq (hhead (.inr hstar))) hmethod
    refine .past <| .leaves fun key => .plain fun value hv => .pure fun _ h _ => h.of_eq ?_
    show key.residue ∪ value.residue = _
    rw [hv]
    simp
  · exact hmethod

namespace Restores

instance (hasConstructor : Bool) : Restores env (classMember g hasConstructor) := by
  refine .of_leads fun c => .keeps fun start => .bind memberHead_leaves fun head => ?_
  refine .bind memberValue_leaves fun x => ?_
  split
  · exact .fails
  next key computed value =>
    refine .weaken (fun _ h => h rfl) <| .pastIf ?_
    extract_lets isConstructor
    split
    next kind value =>
      -- the constructor is a method, so that its other name does not hide a getter
      have hkind : (isConstructor = true → kind = .method) → memberResidue (some (key, computed, .method kind value)) =
            (Node.bare (.methodDefinition key computed value
              (if isConstructor = true then .constructor else kind) head.isStatic)).residue := by
        intro hk
        rw [Node.residue_method]
        by_cases hc : isConstructor = true
        · rw [if_pos hc, hk hc]
          rfl
        · rw [if_neg hc]
          cases kind <;> rfl
      refine .ite (fun _ => .ite (fun _ => .fails_bind) fun hk => ?_) fun hc => ?_
      · simp only [Bool.or_eq_true, not_or, bne_iff_ne, ne_eq, Decidable.not_not] at hk
        exact .fork .fails_bind <| .endsPairAs (hkind fun _ => hk.1)
      · exact .endsPairAs (hkind fun h => absurd h hc)
    next value =>
      refine .pastIf <| .endsPair ?_
      show key.residue ∪ residue value = _
      simp

instance : Restores env (classBody g) := .routine

instance : Restores env (classTail g) := .routine

instance (nameIsOptional : Bool) : Restores env (classDeclaration g nameIsOptional) := .routine

instance : Restores env (classExpression g) := .routine

end Restores

end ScriptTree.Parse
