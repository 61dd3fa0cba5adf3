import ScriptTree.Proofs.Parse.Cover.Function

/-! # Markup

In a tag and between tags other tokens are read, so that nothing is known of the token ahead. An expression in
markup starts with a new token. It ends with a brace where its last token was, which is no arrow then. -/

namespace ScriptTree.Parse

variable {children : List Node} {e outer : OpenElement} {m : Mark} {n tag : Node} {shape : Shape Node} {src : Source}

open Parts

variable {α β : Type} {env : Env} {g : Grammar} {T B F : Prop} {t : Token} {s s' : State}

namespace Leads

variable {p : Parse α} {f : α → Parse β} {R : β → State → Prop} {R : β → State → Prop}

/-- Something is known besides. -/
theorem given {P : Prop} {Q : α → State → Prop} (h : P → Leads env (fun _ => True) p Q) : Leads env (fun _ => P) p Q :=
  fun s a s' hP => h hP s a s' trivial

/-- A first step in markup. -/
theorem tags {P : α → Prop} [Tags env P p] (hf : ∀ a, P a → Leads env (fun _ => True) (f a) R) :
    Leads env (fun _ => True) (p >>= f) R :=
  .bind Tags.leads fun a s b s' ha h => hf a ha s b s' trivial h

/-- A node of markup. -/
theorem taggedAs (h : Propers env.source shape.children)
    (hp : shape.Proper env.source := by trivial) (hs : shape.isSimple = true := by rfl) :
    Leads env (fun _ => True) (Parse.finish m shape) fun n _ => Proper env.source n ∧ n.shape = shape := by
  rintro s ⟨info, shape'⟩ s' - h₁
  obtain ⟨-, rfl | ⟨name, _, rfl, -⟩⟩ := finish_shape h₁
  · exact ⟨.simple h hp hs, rfl⟩
  · cases hs

theorem tagged (h : Propers env.source shape.children)
    (hp : shape.Proper env.source := by trivial) (hs : shape.isSimple = true := by rfl) :
    Leads env (fun _ => True) (Parse.finish m shape) fun n _ => Proper env.source n :=
  fun s n s' hs' hn => (taggedAs h hp hs s n s' hs' hn).1

end Leads

instance {p : Parse Node} [Tags env (Proper env.source) p] :
    Tags env (fun n => Propers env.source n.toList) (some <$> p) := by
  refine ⟨?_⟩
  intro s a s' hs h
  obtain ⟨n, hn, rfl⟩ := returns_map.mp h
  exact Propers.cons_iff.mpr ⟨Tags.leads (p := p) s n s' hs hn, .nil⟩

instance {stop : Parse Bool} {p : Parse Node} [Tags env (Proper env.source) p] :
    Tags env (Propers env.source) (until' stop p) := by
  refine ⟨?_⟩
  let I (found : List Node) (_ : State) := Propers env.source found
  refine .loops (Q := I) I (fun _ _ => .nil) (fun found => .given fun hfound => .keeps fun _ => ?_) fun found =>
    .given fun hfound => .pure fun _ _ => Propers.reverse_iff.mpr hfound
  refine .fork (.pure fun _ _ => hfound) <| .tags fun n hn => .pure fun _ _ => ?_
  exact Propers.cons_iff.mpr ⟨hn, hfound⟩

/-- The next token of a tag is read after comments. -/
theorem nextMarkup_scans (h : Returns nextMarkup env s t s') :
    ∃ ms u, Returns Scan.comments (settings env s) s.cursor ms u.cursor ∧
      Returns Scan.markup (settings env u) u.cursor t s'.cursor := by
  obtain ⟨_, u, h₁, h⟩ := Returns.bind h
  obtain ⟨ms, hskip, -⟩ := takeComments_returns h₁
  obtain ⟨t', v, h₂, h⟩ := (h.first rfl).modify.bind
  obtain ⟨d, hd, rfl⟩ := returns_scan.mp h₂
  obtain ⟨_, w, h₃, h⟩ := (h.first rfl).modify.bind
  obtain ⟨rfl, rfl⟩ := h.ended
  refine ⟨ms, u, hskip, ?_⟩
  rw [listToken_returns h₃]
  exact hd

/-- At an equals sign the next token of a tag is that sign. -/
theorem nextMarkup_equals (hx : env.source.at? s.cursor.index = some 0x3D) (h : Returns nextMarkup env s t s') :
    t.lexeme = .punctuator "=" := by
  obtain ⟨ms, u, hskip, hd⟩ := nextMarkup_scans h
  rw [← Scan.comments_equals hx hskip] at hx
  exact Scan.markup_equals hx hd

def BehindTag (env : Env) (s : State) : Prop := ∃ i, s.cursor.index = i + 1 ∧ env.source.at? i = some 0x3E

/-- A tag ends. -/
theorem Leads.closesTag {f : Unit → Parse β} (hf : Leads env (BehindTag env) (f ()) R) :
    Leads env (fun _ => True) (expectMarkup ">" >>= f) R := by
  rintro s b s' - h
  obtain ⟨_, u, h₁, h₂⟩ := h.bind
  refine hf u b s' ?_ h₂
  obtain ⟨t, v, h₁, hv⟩ := Returns.bind h₁
  rcases hv.ite with ⟨hmark, hv⟩ | ⟨-, hv⟩
  · obtain ⟨-, rfl⟩ := hv.ended
    obtain ⟨ms, w, -, hd⟩ := nextMarkup_scans h₁
    obtain ⟨hat, hd⟩ := Scan.markup_closes hd (eq_of_isMark hmark)
    exact ⟨_, hd, hat⟩
  · exact absurd hv Fails.fails

theorem Leads.behind {p : Parse α} {Q : α → Prop} [Idle env p] (h : Leads env (fun _ => True) p fun a _ => Q a) :
    Leads env (BehindTag env) p fun a s => BehindTag env s ∧ Q a := by
  rintro s a s' ⟨i, hi, hat⟩ hr
  exact ⟨⟨i, (Idle.rests hr).index.trans hi, hat⟩, h s a s' trivial hr⟩

/-- Behind a tag the program may end. -/
theorem Leads.atEnd {f : Bool → Parse β}
    (hf : ∀ b, (b = true → Shape.EndsInTag env.source) → Leads env (BehindTag env) (f b) R) :
    Leads env (BehindTag env) (scan Scan.atEnd >>= f) R := by
  rintro s b s' ⟨i, hi, hat⟩ h
  obtain ⟨e, u, h₁, h₂⟩ := h.bind
  obtain ⟨d, hd, rfl⟩ := returns_scan.mp h₁
  obtain ⟨rfl, rfl⟩ := Scan.returns_atEnd.mp hd
  refine hf _ (fun he => ⟨i, ?_, hat⟩) _ b s' ⟨i, hi, hat⟩ h₂
  have hlt := Source.lt_length_of_at? hat (by decide)
  have hle : env.source.length ≤ s.cursor.index := of_decide_eq_true he
  omega

/-- Where an expression in markup ends, no arrow is ahead. -/
theorem Leads.leavesExpression {f : Unit → Parse β} (hf : F → Leads env (fun _ => True) (f ()) R) :
    Faces env T B F t (leaveExpression >>= f) R := by
  intro s b s' hs h
  obtain ⟨_, u, h₁, h₂⟩ := h.bind
  refine hf (hs.fact fun ha => ?_) u b s' trivial h₂
  obtain ⟨_, v, h₁, -⟩ := (Returns.modify h₁).bind
  obtain ⟨t', w, h₁, hw⟩ := Returns.bind h₁
  obtain ⟨hat, -⟩ := hs.stands.mark "=>" (by decide) ha
  have hl : t'.lexeme = .punctuator "=" := by
    refine nextMarkup_equals ?_ h₁
    exact Source.at?_of_hasAt (k := 0) (hs.start ▸ hat) (by decide)
  rw [hl, if_neg (by decide)] at hw
  exact absurd hw Fails.fails

variable [Intolerant env]

instance : Tags env (Proper env.source) markupName := by
  refine ⟨.past <| .keeps fun t => ?_⟩
  split
  · exact .tagged nofun
  · exact .fails

instance : Tags env (Proper env.source) elementName := by
  refine ⟨.past <| .tags fun first hfirst => .past <| .fork ?_ <| .past <| .fork ?_ <| .pure fun _ _ => hfirst⟩
  · refine .past <| .tags fun name hname => .tagged ?_
    simp [hfirst, hname]
  · refine .loop (fun n _ => Proper env.source n) (fun _ _ => hfirst) fun object => .given fun hobject =>
      .past <| .fork ?_ <| .pure fun _ _ => hobject
    refine .past <| .tags fun name hname => .bind (.tagged ?_) fun n => .given fun hn => .pure fun _ _ => hn
    simp [hobject, hname]

instance : Tags env (Proper env.source) attributeName := by
  refine ⟨.past <| .tags fun first hfirst => .past <| .fork ?_ <| .pure fun _ _ => hfirst⟩
  refine .past <| .tags fun name hname => .tagged ?_
  simp [hfirst, hname]

instance : Tags env (Proper env.source) stringAttribute := by
  refine ⟨.past <| .keeps fun t => ?_⟩
  split
  · exact .past <| .tagged nofun
  · exact .fails

variable [Covering env g]

omit [Intolerant env] in
/-- An expression in markup. -/
theorem Leads.embeds {f : Node → Parse β} (hf : ∀ e, Proper env.source e → Leads env (fun _ => True) (f e) R) :
    Faces env T B F t (do
      let e ← g.assignment
      leaveExpression
      f e) R :=
  .parts fun _ e _ => .leavesExpression fun he => hf e (he e (.head _))

instance : Tags env (Proper env.source) (expressionAttribute g) := by
  refine ⟨.past <| .past <| .looksAnew fun t => .answers <| .when <| .embeds fun e he => .tagged ?_⟩
  simp [he]

instance : Tags env (Proper env.source) (attributeValue g) := by
  refine ⟨.past <| .fork (Tags.leads) <| .keeps fun _ => ?_⟩
  exact .fork (Tags.leads) <| Tags.leads

instance : Tags env (Proper env.source) (namedAttribute g) := by
  refine ⟨.past <| .tags fun name hname => .past <| .fork (.keeps fun _ => ?_) <| .pure_bind <| .tagged ?_⟩
  · refine .tags fun value hvalue => .tagged ?_
    simpa [hname] using hvalue
  · simp [hname]

instance : Tags env (Proper env.source) (spreadAttribute g) := by
  refine ⟨.past <| .past <| .past <| .looksAnew fun t => .embeds fun e he => .tagged ?_⟩
  simp [he]

instance : Tags env (Propers env.source) (attributes g) := by
  have hitem : Tags env (Proper env.source) (do
      if ← seesMarkup "\x7b" then spreadAttribute g else namedAttribute g) :=
    ⟨.past <| .fork (Tags.leads) <| Tags.leads⟩
  unfold attributes
  infer_instance

/-! ## Elements -/

def OpensTag (n : Node) : Prop := ∃ name selfClosing attributes, n.shape = .jsxOpeningElement name selfClosing attributes

theorem openingTail_opens (start : Mark) :
    Leads env (fun _ => True) (openingTail g start) fun n s => BehindTag env s ∧ Proper env.source n ∧ OpensTag n := by
  refine .tags fun name hname => .tags fun attributes hattributes => .keeps fun selfClosing => .pastIf <|
    .closesTag <| .behind fun s n s' hs h => ?_
  obtain ⟨hn, hshape⟩ := Leads.taggedAs (by simpa [hname] using hattributes) (by trivial) rfl s n s' hs h
  exact ⟨hn, name, selfClosing, attributes, hshape⟩

theorem boundaryElement_bounds : Leads env (fun _ => True) (boundaryElement g) fun n s =>
      BehindTag env s ∧ Proper env.source n ∧ ((∃ name, n.shape = .jsxClosingElement name) ∨ OpensTag n) := by
  refine .keeps fun start => .past <| .past <| .fork ?_ ?_
  · refine .past <| .tags fun name hname => .closesTag <| .behind fun s n s' hs h => ?_
    obtain ⟨hn, hshape⟩ := Leads.taggedAs (by simp [hname]) (by trivial) rfl s n s' hs h
    exact ⟨hn, .inl ⟨name, hshape⟩⟩
  · exact .conclude (openingTail_opens start) fun _ _ h => ⟨h.1, h.2.1, .inr h.2.2⟩

instance : Tags env (Proper env.source) emptyExpression where
  leads := .past <| .past <| .past <| .past <| .tagged nofun

instance : Tags env (Proper env.source) (expressionContainer g) := by
  refine ⟨.past <| .past <| .past <| .fork ?_ ?_⟩
  · refine .tags fun e he => .past <| .tagged ?_
    simp [he]
  · refine .looksAnew fun t => .embeds fun e he => .tagged ?_
    simp [he]

omit [Intolerant env] [Covering env g] in
theorem textChildren_all {P : Node → Prop}
    (htext : ∀ m value raw, Leads env (fun _ => True) (finish m (.jsxText value raw)) fun n _ => P n)
    (hcontainer : Leads env (fun _ => True) (expressionContainer g) fun n _ => P n) :
    Leads env (fun _ => True) (textChildren g) fun ns _ => ∀ n ∈ ns, P n := by
  let I (found : List Node) (_ : State) := ∀ n ∈ found, P n
  refine .loops (Q := I) I (fun _ _ => List.forall_mem_nil _) (fun found => .given fun hfound => .keeps fun _ => ?_)
    fun found => .given fun hfound => .pure fun _ _ n hn => hfound n (List.mem_reverse.mp hn)
  refine .fork (.pure fun _ _ => hfound) <| .past <| .keeps fun _ => ?_
  extract_lets rest
  have hrest found : (∀ n ∈ found, P n) →
      Leads env (fun _ => True) (rest found) fun r s => r.Satisfies (I · s) (I · s) := by
    intro hfound
    refine .past <| .fork (.bind hcontainer fun n => .given fun hn => .pure fun _ _ => ?_) <| .pure fun _ _ => hfound
    exact List.forall_mem_cons.mpr ⟨hn, hfound⟩
  split
  · refine .fork (.past <| .bind (htext _ _ _) fun n => .given fun hn => .pure_bind ?_) <|
      .pure_bind (hrest found hfound)
    exact hrest _ (List.forall_mem_cons.mpr ⟨hn, hfound⟩)
  · exact .pure_bind (hrest found hfound)

instance : Tags env (Propers env.source) (textChildren g) := ⟨textChildren_all (fun _ _ _ => .tagged nofun) Tags.leads⟩

/-- What has been read of an element that is open. -/
structure Unclosed (src : Source) (e : OpenElement) : Prop where
  opening : Proper src e.opening
  isOpen : ∃ name attributes, e.opening.shape = .jsxOpeningElement name false attributes
  children : Propers src e.children

theorem Unclosed.add {ns : List Node} (h : Unclosed src e) (hns : Propers src ns) :
    Unclosed src { e with children := e.children ++ ns } :=
  { h with children := Propers.append_iff.mpr ⟨h.children, hns⟩ }

theorem OpensTag.isOpen (h : OpensTag n) (hs : ¬ isSelfClosing n = true) :
    ∃ name attributes, n.shape = .jsxOpeningElement name false attributes := by
  obtain ⟨name, selfClosing, attributes, h⟩ := h
  obtain rfl : selfClosing = false := by simpa [isSelfClosing, h] using hs
  exact ⟨name, attributes, h⟩

theorem OpensTag.enclosed (h : OpensTag n) (hs : isSelfClosing n = true) : Shape.Enclosed src n [] none := by
  obtain ⟨name, selfClosing, attributes, h⟩ := h
  obtain rfl : selfClosing = true := by simpa [isSelfClosing, h] using hs
  exact ⟨name, true, attributes, h, rfl, rfl⟩

theorem Unclosed.enclosed (h : Unclosed src e)
    (ht : ∃ name, tag.shape = .jsxClosingElement name) (hname : tagName e.opening = tagName tag) :
    Shape.Enclosed src e.opening e.children (some tag) := by
  obtain ⟨name, attributes, hopening⟩ := h.isOpen
  obtain ⟨name', htag⟩ := ht
  refine ⟨name, false, attributes, hopening, .inl ⟨tag, name', rfl, htag, ?_⟩⟩
  simpa [tagName, hopening, htag] using hname.symm

theorem elementTail_proper (houter : Unclosed env.source outer) :
    Leads env (BehindTag env) (elementTail g outer) fun x _ =>
      Propers env.source (x.1 ++ x.2.toList) ∧ Shape.Enclosed env.source outer.opening x.1 x.2 := by
  -- the outermost of the open elements stays the same
  let I (x : OpenElement × List OpenElement) (s : State) := BehindTag env s ∧
    ((x.1 :: x.2).map OpenElement.opening).getLast? = some outer.opening ∧ ∀ e ∈ x.1 :: x.2, Unclosed env.source e
  refine .loop I (fun s hs => ⟨hs, rfl, List.forall_mem_singleton.mpr houter⟩) fun (e, stack) =>
    .fact fun ⟨hlast, hall⟩ => .atEnd fun b hend => .ite (fun hb => .pure fun _ _ => ⟨?_, ?_⟩) fun _ => ?_
  · simpa using (List.forall_mem_cons.mp hall).1.children
  · obtain ⟨name, attributes, hopening⟩ := houter.isOpen
    exact ⟨name, false, attributes, hopening, .inr ⟨rfl, hend hb⟩⟩
  obtain ⟨he, hstack⟩ := List.forall_mem_cons.mp hall
  refine .weaken (fun _ _ => trivial) <| .tags fun texts htexts => ?_
  extract_lets e'
  have he' : Unclosed env.source e' := he.add htexts
  refine .keeps fun start => .bind boundaryElement_bounds fun tag => .fact fun ⟨htag, hbound⟩ => ?_
  split
  · -- a closing tag makes a child of the element above, or ends the outermost one
    rename_i name hshape
    refine .ite (fun _ => .fails_bind) fun hname => ?_
    have henclosed := he'.enclosed ⟨name, hshape⟩ (by simpa using hname)
    split
    · rename_i parent rest
      obtain ⟨hparent, hrest⟩ := List.forall_mem_cons.mp hstack
      refine .bind (.behind (.tagged ?_ henclosed)) fun child => .fact fun hchild => .pure fun _ hs => ⟨hs, ?_, ?_⟩
      · simp [he'.opening, he'.children, htag]
      · simpa using hlast
      · exact List.forall_mem_cons.mpr ⟨hparent.add (Propers.cons_iff.mpr ⟨hchild, .nil⟩), hrest⟩
    · have houtermost : e'.opening = outer.opening := Option.some.inj hlast
      exact .pure fun _ _ => ⟨by simp [he'.children, htag], houtermost ▸ henclosed⟩
  · have hopening : OpensTag tag := by
      refine hbound.resolve_left ?_
      rintro ⟨name, hshape⟩
      exact absurd hshape (‹∀ name, tag.shape ≠ .jsxClosingElement name› name)
    refine .ite (fun hs => .bind (.behind (.tagged ?_ (hopening.enclosed hs))) fun child => .fact fun hchild =>
      .pure fun _ hs => ⟨hs, hlast, ?_⟩) fun hs => .pure fun _ hs' => ⟨hs', ?_, ?_⟩
    · simp [htag]
    · exact List.forall_mem_cons.mpr ⟨he'.add (Propers.cons_iff.mpr ⟨hchild, .nil⟩), hstack⟩
    · simpa using hlast
    · exact List.forall_mem_cons.mpr ⟨⟨htag, hopening.isOpen hs, .nil⟩, List.forall_mem_cons.mpr ⟨he', hstack⟩⟩

/-- An element passes for a name. -/
theorem element_loose : Leads env (fun _ => True) (element g) fun n _ => ProperLoose env.source n := by
  have hloose {start opening children closing} (h : Propers env.source (opening :: children ++ closing.toList))
      (he : Shape.Enclosed env.source opening children closing) :
      Leads env (fun _ => True) (finish start (.jsxElement opening children closing)) fun n _ =>
        ProperLoose env.source n := by
    rw [← bind_pure (finish start _)]
    refine .bind (.taggedAs (by simpa using h) he) fun n => .given fun ⟨hn, hshape⟩ => .pure fun _ _ => ⟨hn, ?_⟩
    rw [hshape]
    rfl
  have hopens : Leads env (fun _ => True) (openingElement g) fun n s =>
      BehindTag env s ∧ Proper env.source n ∧ OpensTag n :=
    .past <| .past <| openingTail_opens _
  refine .keeps fun start => .bind hopens fun opening => .fact fun ⟨hopening, hopen⟩ =>
    .ite (fun hs => .weaken (fun _ _ => trivial) (hloose ?_ (hopen.enclosed hs))) fun hs => ?_
  · simp [hopening]
  · refine .bind (elementTail_proper ⟨hopening, hopen.isOpen hs, .nil⟩) fun tail => .given fun ⟨htail, henclosed⟩ =>
      hloose ?_ henclosed
    simpa [hopening] using htail

instance : Tags env (Proper env.source) (element g) where
  leads s n s' hs hn := (element_loose s n s' hs hn).1

theorem rootElement_loose (ha : ¬ Arrow t) : Faces env T B F t (rootElement g) fun n s =>
      F ∧ ProperLoose env.source n ∧ Reached env True True True s := by
  intro s n s' hs h
  have hF := hs.fact ha
  suffices hmain : Leads env (fun _ => True) (rootElement g) fun n s =>
      F ∧ ProperLoose env.source n ∧ Reached env True True True s from
    hmain s n s' trivial h
  refine .past <| .pastIf <| .past <| .bind element_loose fun e => .given fun he => ?_
  exact .looksAnew fun t' => .pure fun _ hs => ⟨hF, he, hs.reached⟩

/-! ## Tags in the order of the program -/

/-- The tags that are read one after the other from a place on, with the texts and expressions before them. -/
inductive ReadsTags (env : Env) (g : Grammar) (c : Scan.Cursor) : List Node → Scan.Cursor → Prop
  | none : ReadsTags env g c [] c
  | more {tags texts : List Node} {tag : Node} {s u v : State} : ReadsTags env g c tags s.cursor →
    Returns (textChildren g) env s texts u → Returns (boundaryElement g) env u tag v →
    ReadsTags env g c (tags ++ [tag]) v.cursor

/-- The tags in open elements, without the first of them. -/
def openTags (e : OpenElement) : List OpenElement → List Node
  | [] => Node.tagsOf e.children
  | parent :: rest => openTags parent rest ++ e.opening :: Node.tagsOf e.children

theorem openTags_add (e : OpenElement) (stack : List OpenElement) (ns : List Node) :
    openTags { e with children := e.children ++ ns } stack = openTags e stack ++ Node.tagsOf ns := by
  cases stack <;> simp [openTags, Node.tagsOf_append]

omit [Intolerant env] in
theorem finish_untagged (hs : ∀ info, Node.tags ⟨info, shape⟩ = []) (hi : shape.isName = false := by rfl) :
    Leads env (fun _ => True) (finish m shape) fun n _ => n.tags = [] := by
  rintro s ⟨info, shape'⟩ s' - h
  obtain ⟨-, rfl | ⟨name, _, rfl, -⟩⟩ := finish_shape h
  · exact hs info
  · cases hi

omit [Intolerant env] [Covering env g] in
/-- The nodes between two tags have no tags of their own. -/
theorem textChildren_tags {texts : List Node} (h : Returns (textChildren g) env s texts s') :
    Node.tagsOf texts = [] := by
  have hcontainer : Leads env (fun _ => True) (expressionContainer g) fun n _ => n.tags = [] := by
    have hfinish (m : Mark) (e : Node) : Leads env (fun _ => True) (finish m (.jsxExpressionContainer e)) fun n _ =>
        n.tags = [] := finish_untagged fun _ => rfl
    refine .past <| .past <| .past <| .fork ?_ ?_
    · exact .past <| .past <| hfinish _ _
    · exact .past <| .past <| .past <| hfinish _ _
  have hall := textChildren_all (fun _ _ _ => finish_untagged fun _ => rfl) hcontainer s texts s' trivial h
  clear h
  induction texts with
  | nil => rfl
  | cons n texts ih =>
    obtain ⟨hn, hrest⟩ := List.forall_mem_cons.mp hall
    rw [Node.tagsOf, hn, ih hrest]
    rfl

omit [Intolerant env] in
theorem finish_element {start : Mark} {opening : Node} {closing : Option Node}
    (h : Returns (finish start (.jsxElement opening children closing)) env s n s') :
    s'.cursor = s.cursor ∧ n.tags = opening :: (Node.tagsOf children ++ closing.toList) := by
  obtain ⟨-, hn | ⟨_, _, hn, -⟩⟩ := finish_shape h
  · refine ⟨by rw [(finish_makes h).1], ?_⟩
    obtain ⟨info, shape⟩ := n
    obtain rfl := hn
    rw [Node.tags]
  · cases hn

omit [Covering env g] in
/-- If an element is closed, its tags and those of the elements in it are read one after the other. -/
theorem elementTail_tags (houter : outer.children = [])
    (h : Returns (elementTail g outer) env s (children, some tag) s') :
    ReadsTags env g s.cursor (Node.tagsOf children ++ [tag]) s'.cursor := by
  let I (x : OpenElement × List OpenElement) (u : State) := ReadsTags env g s.cursor (openTags x.1 x.2) u.cursor
  let Q (x : List Node × Option Node) (u : State) :=
    ∀ tag, x.2 = some tag → ReadsTags env g s.cursor (Node.tagsOf x.1 ++ [tag]) u.cursor
  suffices hall : Leads env (fun u => u = s) (elementTail g outer) Q from hall s _ s' rfl h tag rfl
  refine .loop I ?_ fun x => ?_
  · rintro u rfl
    simpa [I, openTags, houter, Node.tagsOf] using ReadsTags.none
  obtain ⟨e, stack⟩ := x
  intro u r u' hu h
  obtain ⟨b, v, h₁, h⟩ := Returns.bind h
  obtain ⟨d, hd, rfl⟩ := returns_scan.mp h₁
  obtain ⟨-, rfl⟩ := Scan.returns_atEnd.mp hd
  rcases h.ite with ⟨-, h⟩ | ⟨-, h⟩
  · obtain ⟨rfl, rfl⟩ := h.ended
    intro tag' ht
    cases ht
  obtain ⟨texts, v, h₂, h⟩ := h.bind
  extract_lets e' at h
  replace h := h.first rfl
  obtain ⟨tag, w, h₃, h⟩ := h.bind
  have hread : ReadsTags env g s.cursor (openTags e' stack ++ [tag]) w.cursor := by
    rw [openTags_add, textChildren_tags h₂, List.append_nil]
    exact .more hu h₂ h₃
  split at h
  · rcases h.ite with ⟨-, h⟩ | ⟨-, h⟩
    · obtain ⟨_, _, h, -⟩ := h.bind
      exact absurd h Fails.fails
    split at h
    · obtain ⟨child, z, h₄, h⟩ := h.bind
      obtain ⟨rfl, rfl⟩ := h.ended
      obtain ⟨hc, htags⟩ := finish_element h₄
      show ReadsTags env g s.cursor (openTags _ _) _
      rw [openTags_add, hc]
      simpa [openTags, Node.tagsOf, htags] using hread
    · obtain ⟨rfl, rfl⟩ := h.ended
      intro tag' ht
      cases ht
      exact hread
  · rcases h.ite with ⟨-, h⟩ | ⟨-, h⟩
    · obtain ⟨child, z, h₄, h⟩ := h.bind
      obtain ⟨rfl, rfl⟩ := h.ended
      obtain ⟨hc, htags⟩ := finish_element h₄
      show ReadsTags env g s.cursor (openTags _ _) _
      rw [openTags_add, hc]
      simpa [Node.tagsOf, htags] using hread
    · obtain ⟨rfl, rfl⟩ := h.ended
      exact hread

end ScriptTree.Parse
