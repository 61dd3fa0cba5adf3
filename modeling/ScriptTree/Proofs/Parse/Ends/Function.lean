import ScriptTree.Proofs.Parse.Ends.Step

/-! # How functions end

The rules of a grammar are ranked: a member of rank `k` calls members of lower ranks only before it has
taken a token. -/

namespace ScriptTree.Parse

variable {strict : Bool} (p : Parameters) (kind : Option DeclarationKind) (name : FunctionName)

/-- There may be markup in the program. -/
class Marked (env : Env) : Prop where
  jsx : env.options.jsx = true

/-- The members of two grammars come to the same, each with depth enough for its rank. -/
class Serves (env : Env) (n : Nat) (g g' : Grammar) : Prop where
  call : ∀ lo, Ends env (Front env n 1 lo) g.call g'.call (Onwards env n lo)
  callee : ∀ lo, Ends env (FrontIn env n 1 lo) g.callee g'.callee (Onwards env n lo)
  pattern : ∀ kind lo, Ends env (Front env n 1 lo) (g.pattern kind) (g'.pattern kind)
    (Onwards env n lo)
  element : ∀ [Marked env] lo, Ends env (Tag env n 1 lo) g.element g'.element (Read env (Tag env n) (lo + 1))
  unary : ∀ lo, Ends env (Front env n 2 lo) g.unary g'.unary (Onwards env n lo)
  power : ∀ lo, Ends env (Front env n 3 lo) g.power g'.power (Onwards env n lo)
  assignment : ∀ lo, Ends env (Front env n 4 lo) g.assignment g'.assignment (Onwards env n lo)
  statement : ∀ lo, Ends env (Front env n 5 lo) g.statement g'.statement (Onwards env n lo)
  item : ∀ lo, Ends env (Front env n 6 lo) g.item g'.item (Onwards env n lo)

variable {env : Env} {n : Nat} {g g' : Grammar} [Serves env n g g']

instance : Fronts env n 1 g.call g'.call := ⟨by decide, Serves.call⟩
instance : Fronts env n 1 (g.pattern kind) (g'.pattern kind) :=
  ⟨by decide, Serves.pattern kind⟩
instance : Fronts env n 2 g.unary g'.unary := ⟨by decide, Serves.unary⟩
instance : Fronts env n 3 g.power g'.power := ⟨by decide, Serves.power⟩
instance : Fronts env n 4 g.assignment g'.assignment := ⟨by decide, Serves.assignment⟩
instance : Fronts env n 5 g.statement g'.statement := ⟨by decide, Serves.statement⟩
instance : Fronts env n 6 g.item g'.item := ⟨by decide, Serves.item⟩

instance : Fronts env n 4 (expression g) (expression g') := by
  refine .of fun _ => .past <| .first fun first => .past <| .fork ?_ .result
  refine .loops (fun _ found => ?_) fun _ => .last
  refine .look fun t => .ask <| .ite (fun _ => .front .done) fun h => .skips ?_ <| .on .again
  exact ne_end_of_isMark (by simpa using h)

theorem ne_end_of_isNameToken {l : Lexeme} (h : isNameToken l = true) : l ≠ .endOfInput := by
  rintro rfl
  cases h

instance : Fronts env n 0 anyName anyName where
  advances _ := .past <| .take fun _ =>
    .ite (fun h => .taken (ne_end_of_isNameToken h) .last) fun _ => .fails_bind

instance : Fronts env n 0 (bindingName kind) (bindingName kind) := by
  refine .of fun lo => .past <| .take fun t _ => .stay fun c _ => ?_
  extract_lets rest
  have hrest (hn : t.lexeme ≠ .endOfInput) : Ends env (Taken env n 0 lo t) (rest ()) (rest ()) (Onwards env n lo) :=
    .taken hn .last
  split
  next h =>
    have hn : t.lexeme ≠ .endOfInput := by rw [h]; nofun
    exact .fork (.past <| hrest hn) <| .stayIf (hrest hn)
  next h => exact .stayIf (hrest (by rw [h]; nofun))
  · extract_lets isStrictWord
    by_cases hn : t.lexeme = .endOfInput
    · have hw : isStrictWord = false := by
        unfold isStrictWord
        rw [hn]
      have hl : t.lexeme.valueIs "let" = false := by
        rw [hn]
        rfl
      simp only [hw, hl, Bool.and_false, Bool.false_eq_true, Bool.not_false, Bool.or_true, Bool.true_or,
        if_true, if_false]
      exact .fails_bind
    · exact .fork (.past <| hrest hn) <| .stayIf (hrest hn)

instance : Fronts env n 0 (propertyKey g) (propertyKey g') := by
  refine .of fun lo => .past <| .take fun t _ => ?_
  split
  next h => exact .taken (by rw [h]; nofun) <| .past <| .stayIf <| .past .last
  next h => exact .taken (by rw [h]; nofun) <| .past <| .stayIf <| .past .last
  next h => exact .taken (by rw [h]; nofun) .last
  next h => exact .taken (by rw [h]; nofun) .last
  next h => exact .taken (by rw [h]; nofun) .last
  next h => exact .taken (by rw [h]; nofun) .last
  next h => exact .taken (by rw [h]; nofun) <| .on <| .on .result
  · exact .fails

section

variable (kind : Option DeclarationKind)

instance : Fronts env n 1 (patternWithDefault g kind) (patternWithDefault g' kind) := .routine

instance : Fronts env n 0 (bindingRest g kind) (bindingRest g' kind) := .routine

instance : Fronts env n 0 (arrayPattern g kind) (arrayPattern g' kind) := by
  refine .of fun lo => ?_
  refine .past <| .first fun _ => .loops (fun lo (elements, names) hx => ?_) fun (elements, names) hx => ?_
  · have := hx.snd
    refine .look fun t => .ask <| .fork (.front .done) <| .ask <| .ite (fun h => ?_) fun _ => ?_
    · exact .skips (ne_end_of_isMark h) .again
    · refine .ask <| .fork (.first fun (n, more) h => ?_) <| .first fun (n, more) h => ?_
      · have := h.snd
        exact .halt
      · have := h.snd
        exact .past <| .goUnless .again
  · have := hx.snd
    exact .on <| .on .result

instance : Fronts env n 0 (propertyPattern g kind) (propertyPattern g' kind) := .routine

instance : Fronts env n 0 (restProperty g) (restProperty g') := .routine

instance : Fronts env n 0 (objectPattern g kind) (objectPattern g' kind) := by
  refine .of fun lo => .past <| .first fun _ => .gathers (fun lo => ?_) fun found h => .on <| .go fun n _ => ?_
  · refine .past <| .fork ?_ ?_
    · exact .first fun _ => .past <| .goUnless .result
    · exact .first fun _ => .past <| .goUnless .result
  · have : Known env (found.flatMap Prod.snd) := ⟨fun t ht => by
      obtain ⟨x, hx, ht⟩ := List.mem_flatMap.mp ht
      exact (h.holds x hx).snd.holds t ht⟩
    exact .result

instance : Fronts env n 0 (pattern g kind) (pattern g' kind) := .routine

end

instance : Knowable Parameters := ⟨fun env p => Known env p.stricted ∧ Known env p.restricted⟩
instance [h : Known env p] : Known env p.stricted := h.holds.1
instance [h : Known env p] : Known env p.restricted := h.holds.2

theorem Known.bind {p : Parameters} {o : Offender} {name : Text} (hp : Known env p)
    (ho : Known env o) : Known env (p.bind strict o name) := by
  obtain ⟨hs, hr⟩ := hp.holds
  have ho' : Known env (some o) := inferInstance
  unfold Parameters.bind
  dsimp only
  (repeat' split) <;> exact ⟨‹_›, ‹_›⟩

/-- Names that are bound by known tokens. -/
theorem Known.bindAll {p : Parameters} {names : List Token} (hp : Known env p) (hn : Known env names) :
    Known env (names.foldl (fun p t => p.bind strict (.token t) (nameText t.lexeme)) p) := by
  induction names generalizing p with
  | nil => exact hp
  | cons t names ih =>
    obtain ⟨ht, hn⟩ := List.forall_mem_cons.mp hn.holds
    exact ih (hp.bind inferInstance) ⟨hn⟩

instance : Fronts env n 0 (restParameter g) (restParameter g') := .routine

instance [hp : Known env p] : Fronts env n 1 (parameter g p) (parameter g' p) := by
  refine .of fun lo => .stay fun _ _ => ?_
  extract_lets rest
  have hrest (x : Node × List Token) [hx : Known env x] :
      Ends env (Front env n 8 (lo + 1)) (rest x) (rest x) (Onwards env n lo) := by
    obtain ⟨n, names⟩ := x
    refine .stay fun c _ => .pure fun _ hs => ⟨hs, ⟨?_⟩⟩
    exact (hp.bindAll hx.snd).holds
  exact .fork (.first fun x _ => hrest x) <| .first fun x _ => hrest x

instance (o : Option Offender) [ho : Known env o] : Fronts env n 0 (parameters g o) (parameters g' o) := by
  refine .of fun lo => ?_
  have : Known env ({ restricted := o } : Parameters) := ⟨inferInstance, ho⟩
  refine .first fun _ => .stay fun _ _ => ?_
  extract_lets rest
  have hrest (p : Parameters) [Known env p] :
      Ends env (Front env n 8 (lo + 1)) (rest p) (rest p) (Onwards env n lo) :=
    .on .result
  refine .fork (.pure_bind (hrest _)) <| .loops (fun lo p _ => .stay fun _ => ?_) hrest
  refine .fork .done <| .first fun p => .past <| .fork .halt ?_
  exact .on <| .past <| .fork .halt .again

instance : Fronts env n 4 (directive g) (directive g') := .routine

instance : Trails env n (prologue g) (prologue g') := by
  refine ⟨fun lo => .loops (fun lo (found, octal) hx => .stay fun t ht => ?_) fun _ => .result⟩
  have := hx.snd
  split
  · refine .first fun n _ => ?_
    split
    · refine .fork (.sets ?_) ?_
      · split
        next t =>
          have : Known env t := hx.snd.holds t rfl
          exact .past <| .past <| .stayIf .again
        · exact .past <| .stayIf .again
      · have : Known env (octal.or (if isOctal t.lexeme then some t else none)) := ⟨fun u hu => by
          rcases Option.or_eq_some_iff.mp hu with hu | ⟨-, hu⟩
          · exact hx.snd.holds u hu
          · split at hu <;> cases hu
            exact ht⟩
        exact .again
    · exact .halt
  · exact .done

instance : Fronts env n 0 (functionBody g) (functionBody g') := .routine

instance : Knowable FunctionName := ⟨fun env name => Known env name.restricted⟩
instance [h : Known env name] : Known env name.restricted := h.holds

instance : Inert FunctionKind := ⟨⟩

instance : Known env ({} : FunctionName) := ⟨inferInstanceAs (Known env (none : Option Offender))⟩

instance (id : Node) (t : Token) [Known env t] : Stays env (Poised env) (checkFunctionName id t) := by
  have h₁ : Known env ({ id := some id } : FunctionName) :=
    ⟨inferInstanceAs (Known env (none : Option Offender))⟩
  have h₂ (m : Option Message) : Known env (⟨some id, some (.token t), m⟩ : FunctionName) :=
    ⟨inferInstanceAs (Known env (some (Offender.token t)))⟩
  refine .bind fun _ _ => ?_
  infer_instance

instance [h : Known env name] : Fronts env n 0 (functionTail g name) (functionTail g' name) := .routine

instance : Fronts env n 0 functionHead functionHead where
  advances lo := .look fun t => .ask <| .ite (fun h => .skips (ne_end_of_isName h) <| .on .last)
    fun _ =>
    .first fun _ => .last

instance (kind : FunctionKind) : Stays env (Poised env) (enterFunction kind) := .sets fun _ h => ⟨h.holds⟩

instance (c : Context) : Stays env (Poised env) (leaveFunction c) := .sets fun _ h => ⟨h.holds⟩

instance (nameIsOptional : Bool) : Fronts env n 0 (functionDeclaration g nameIsOptional)
      (functionDeclaration g' nameIsOptional) := .routine

instance : Fronts env n 0 (functionExpression g) (functionExpression g') := .routine

instance [hp : Known env p] : Fronts env n 0 (methodBody g p) (methodBody g' p) := .routine

instance : Fronts env n 0 (plainMethod g) (plainMethod g') := .routine

instance : Fronts env n 0 (asyncMethod g) (asyncMethod g') := .routine

instance : Fronts env n 0 (getter g) (getter g') := .routine

instance : Fronts env n 0 (setter g) (setter g') := .routine

instance : Fronts env n 0 (generatorMethod g) (generatorMethod g') := .routine

end ScriptTree.Parse
