import ScriptTree.Proofs.Node.Relabel
import ScriptTree.Proofs.Parse.Taking
import ScriptTree.Proofs.Scan.Steady

/-! # Two parses side by side

A comparison runs the rules twice: on the left in one environment, on the right in another, where the nodes
may bear other labels and other things may be collected beside the tree. `Mirrors` says that the right side
does what the left side does. Where only the right side is tolerant, a failure on the left leaves the right
side free, but for the complaint that it then has to show. The rules are proved once for all lawful
comparisons. -/

namespace ScriptTree.Parse

variable {α β σ γ : Type} {s u : State}

open Node (Relabelling)

/-- Values of the type hold no nodes. -/
class Nodeless (α : Type) : Prop

/-- Values of the type can be relabelled. -/
class Relabels (α : Type) where
  relabel : Relabelling → α → α
  relabel_id : ∀ a, relabel .id a = a

export Relabels (relabel relabel_id)

namespace Nodeless

instance [Nodeless α] : Relabels α := ⟨fun _ a => a, fun _ => rfl⟩

instance : Nodeless Unit where
instance : Nodeless Bool where
instance : Nodeless Nat where
instance : Nodeless Token where
instance : Nodeless Comment where
instance : Nodeless Entry where
instance : Nodeless Attachment where
instance : Nodeless Lexeme where
instance : Nodeless Mark where
instance : Nodeless Context where
instance : Nodeless SyntaxError where
instance : Nodeless FunctionKind where
instance [Nodeless α] : Nodeless (List α) where
instance [Nodeless α] : Nodeless (Option α) where

end Nodeless

namespace Relabels

variable [Relabels σ] [Relabels α] [Relabels β]

instance : Relabels Node := ⟨fun r n => r n, fun _ => rfl⟩

instance (priority := low) : Relabels (List α) :=
  ⟨fun r => List.map (relabel r), fun l => by
    rw [funext (relabel_id : ∀ a : α, _), List.map_id']⟩

instance (priority := low) : Relabels (Option α) :=
  ⟨fun r => Option.map (relabel r), fun o => by cases o <;> simp [relabel_id]⟩

instance (priority := low) : Relabels (α × β) :=
  ⟨fun r p => (relabel r p.1, relabel r p.2), fun p => by simp [relabel_id]⟩

instance : Relabels (Round σ α) where
  relabel r
    | .again s => .again (relabel r s)
    | .done a => .done (relabel r a)
  relabel_id p := by cases p <;> simp [relabel_id]

instance : Relabels (ForInStep σ) where
  relabel r
    | .yield s => .yield (relabel r s)
    | .done s => .done (relabel r s)
  relabel_id p := by cases p <;> simp [relabel_id]

end Relabels

theorem relabel_node (r : Relabelling) (n : Node) : relabel r n = r n := rfl

theorem relabel_reverse {α : Type} [Relabels α] (r : Relabelling) (l : List α) :
    @relabel (List α) Relabels.instList r l.reverse = (@relabel (List α) Relabels.instList r l).reverse :=
  List.map_reverse ..

theorem relabel_append {α : Type} [Relabels α] (r : Relabelling) (l m : List α) :
    @relabel (List α) Relabels.instList r (l ++ m) =
      @relabel (List α) Relabels.instList r l ++ @relabel (List α) Relabels.instList r m :=
  List.map_append ..

theorem relabel_fst {α β : Type} [Relabels α] [Relabels β] (r : Relabelling) (l : List (α × β)) :
    @relabel (List α) Relabels.instList r (l.map Prod.fst) =
      (@relabel (List (α × β)) Relabels.instList r l).map Prod.fst := by
  simp only [relabel, List.map_map]
  rfl

theorem relabel_plain {α : Type} [Nodeless α] (r : Relabelling) (a : α) : relabel r a = a := rfl

theorem relabel_pair {α β : Type} [Relabels α] [Relabels β] (r : Relabelling) (a : α) (b : β) :
    relabel r (a, b) = (relabel r a, relabel r b) := rfl

theorem relabel_isNone {α : Type} [Relabels α] (r : Relabelling) (o : Option α) :
    (@relabel (Option α) Relabels.instOption r o).isNone = o.isNone := Option.isNone_map ..

section

variable (r : Relabelling) (n : Node)

/-- Questions that are about the shape of a node only. -/
theorem asks_relabel : isRestrictedName (r n) = isRestrictedName n ∧ isUnary (r n) = isUnary n ∧ isYield (r n) = isYield n ∧
    arrowKind? (r n) = arrowKind? n ∧ isGenerator (r n) = isGenerator n ∧ isAssignment (r n) = isAssignment n ∧
    isSelfClosing (r n) = isSelfClosing n := by
  obtain ⟨info, shape⟩ := n
  rw [r.node_mk]
  cases shape <;> exact ⟨rfl, rfl, rfl, rfl, rfl, rfl, rfl⟩

theorem isRestrictedName_relabel : isRestrictedName (r n) = isRestrictedName n := (asks_relabel r n).1
theorem isUnary_relabel : isUnary (r n) = isUnary n := (asks_relabel r n).2.1
theorem isYield_relabel : isYield (r n) = isYield n := (asks_relabel r n).2.2.1
theorem arrowKind?_relabel : arrowKind? (r n) = arrowKind? n := (asks_relabel r n).2.2.2.1
theorem isGenerator_relabel : isGenerator (r n) = isGenerator n := (asks_relabel r n).2.2.2.2.1
theorem isAssignment_relabel : isAssignment (r n) = isAssignment n := (asks_relabel r n).2.2.2.2.2.1
theorem isSelfClosing_relabel : isSelfClosing (r n) = isSelfClosing n := (asks_relabel r n).2.2.2.2.2.2

theorem isRest_relabel : isRest (r n) = isRest n := by
  unfold isRest
  rw [r.node_shape, r.node_cover]
  cases n.shape <;> rfl

theorem isKey_relabel (name : String) : isKey (r n) name = isKey n name := by
  unfold isKey
  rw [r.node_shape]
  cases n.shape with
  | literal value => cases value <;> rfl
  | _ => rfl

end

instance : Relabels Parameters :=
  ⟨fun r p => { p with params := relabel r p.params }, fun p => by rw [relabel_id]⟩

section

variable (r : Relabelling) (p : Parameters)

theorem relabel_simple : (relabel r p).simple = p.simple := rfl
theorem relabel_stricted : (relabel r p).stricted = p.stricted := rfl
theorem relabel_restricted : (relabel r p).restricted = p.restricted := rfl
theorem relabel_message : (relabel r p).message = p.message := rfl
theorem relabel_isEmpty : (relabel r p).params.isEmpty = p.params.isEmpty := List.isEmpty_map ..

end

/-! ## Comparisons -/

/-- What a parse collects beside the tree. -/
structure Collected where
  tokens : Array Entry
  remarks : Array Remark
  attachment : Attachment
  log : Array LogEntry

def State.collected (s : State) : Collected := ⟨s.tokens, s.remarks, s.attachment, s.log⟩

/-- The state with other things collected. -/
@[reducible] def State.beside (s : State) (c : Collected) : State :=
  { s with tokens := c.tokens, remarks := c.remarks, attachment := c.attachment, log := c.log }

/-- Two environments for one program, and how what is made on the left looks on the right. -/
structure Comparison where
  left : Env
  right : Env
  labels : Relabelling
  Beside : Collected → Collected → Prop
  /-- Failures that are of the left side only. -/
  Excuses : Failure → Prop := fun _ => False

namespace Comparison

variable (K : Comparison)

def Forgives : Prop := K.left.options.tolerant = false ∧ K.right.options.tolerant = true

/-- The two sides are in step. If only one is tolerant, nothing has been complained about. -/
structure Sim (s s' : State) : Prop where
  visible : s' = s.beside s'.collected
  beside : K.Beside s.collected s'.collected
  clean : K.Forgives → s.cursor.errors = []

end Comparison

/-- The rule on the right does what the rule on the left does. -/
class Mirrors (K : Comparison) {α : Type} [Relabels α] (p p' : Parse α) : Prop where
  returns : ∀ {s s' a u}, K.Sim s s' → Returns p K.left s a u →
    ∃ u', Returns p' K.right s' (relabel K.labels a) u' ∧ K.Sim u u'
  fails : ∀ {s s' e u}, ¬ K.Excuses e → K.Sim s s' → p K.left s = .error e u →
    (∃ u', p' K.right s' = .error e u') ∨
      K.Forgives ∧ ∀ a u', Returns p' K.right s' a u' → u'.cursor.errors ≠ []
  /-- What is complained about on the right stays so. -/
  grows : K.Forgives → ∀ {s a u}, Returns p' K.right s a u → s.cursor.errors ≠ [] → u.cursor.errors ≠ []

abbrev Mirrored (K : Comparison) {α : Type} [Relabels α] (p : Parse α) : Prop := Mirrors K p p

/-- The environments differ in nothing that decides how a program is read but tolerance. -/
class Comparison.Fair (K : Comparison) : Prop where
  source : K.right.source = K.left.source
  jsx : K.right.options.jsx = K.left.options.jsx
  classProperties : K.right.options.classProperties = K.left.options.classProperties
  isModule : K.right.options.isModule = K.left.options.isModule
  tolerant : K.left.options.tolerant = true → K.right.options.tolerant = true
  labels : K.Forgives → K.labels = .id

/-- The steps that look at what else differs keep the two sides in step. -/
class Comparison.Lawful (K : Comparison) : Prop extends K.Fair where
  finish : ∀ m shape, Mirrors K (finish m shape) (finish m (shape.map K.labels))
  takeComments : Mirrored K takeComments
  listToken : ∀ t, Mirrored K (listToken t)
  unlist : Mirrored K (do if (← options).tokens then unlistToken)

section

variable {e : Failure} {p : Scan α} {env : Env}

theorem scan_fails (h : scan p env s = .error e u) : ∃ d, p (settings env s) s.cursor = .error e d := by
  rw [scan_eq] at h
  cases hp : p (settings env s) s.cursor with
  | ok a d =>
    rw [hp] at h
    cases h
  | error e' d =>
    rw [hp] at h
    cases h
    exact ⟨d, rfl⟩

theorem scan_error {d : Scan.Cursor}
    (h : p (settings env s) s.cursor = .error e d) : scan p env s = .error e { s with cursor := d } := by
  rw [scan_eq, h]
  rfl

end

/-- What is changed is neither collected nor complained about. -/
structure Aloof (g : State → State) : Prop where
  beside : ∀ s c, g (s.beside c) = (g s).beside c := by intros; rfl
  collected : ∀ s, (g s).collected = s.collected := by intros; rfl
  errors : ∀ s, (g s).cursor.errors = s.cursor.errors := by intros; rfl

namespace Mirrors

variable {g : State → State} {m : Mark} [Relabels α] [Relabels β] [Relabels σ] {K : Comparison} {s' : State}
  {p p' q q' : Parse α} {f f' : α → Parse β} {b : Prop}

/-! ## Steps and their sequences -/

theorem pure {a a' : α} (h : a' = relabel K.labels a := by rfl) : Mirrors K (pure a) (pure a') where
  returns hs hr := by
    obtain ⟨rfl, rfl⟩ := hr.ended
    exact ⟨_, returns_pure.mpr ⟨h.symm, rfl⟩, hs⟩
  fails _ _ hr := by cases hr
  grows _ _ _ _ hr hc := by rwa [(hr.ended).2]

instance (e : Failure) : Mirrored K (throw e : Parse α) where
  returns _ hr := absurd hr returns_throw
  fails _ _ hr := by
    cases hr
    exact .inl ⟨_, rfl⟩
  grows _ _ _ _ hr := absurd hr returns_throw

/-- Where only the right side is tolerant, the labels are the same. -/
theorem grows_result [K.Fair] (hf : ∀ a, Mirrors K (f a) (f' (relabel K.labels a))) (hK : K.Forgives)
    {a : α} {b : β} (hr : Returns (f' a) K.right s b u) (hc : s.cursor.errors ≠ []) :
    u.cursor.errors ≠ [] := by
  have ha : relabel K.labels a = a := by rw [Comparison.Fair.labels hK, relabel_id]
  exact (hf a).grows hK (by rwa [ha]) hc

theorem bind [K.Fair] [hp : Mirrors K p p'] (hf : ∀ a, Mirrors K (f a) (f' (relabel K.labels a))) :
    Mirrors K (p >>= f) (p' >>= f') where
  returns hs hr := by
    obtain ⟨a, u, hr, hr'⟩ := hr.bind
    obtain ⟨u', hp', hu⟩ := hp.returns hs hr
    obtain ⟨v', hf', hv⟩ := (hf a).returns hu hr'
    exact ⟨v', returns_bind.mpr ⟨_, _, hp', hf'⟩, hv⟩
  fails he hs hr := by
    rcases bind_fails hr with hr | ⟨a, u, hr, hr'⟩
    · rcases hp.fails he hs hr with ⟨u', hp'⟩ | ⟨hK, hp'⟩
      · exact .inl ⟨u', bind_error _ hp'⟩
      · refine .inr ⟨hK, fun b v' hr => ?_⟩
        obtain ⟨a, u', hr, hr'⟩ := hr.bind
        exact grows_result hf hK hr' (hp' a u' hr)
    · obtain ⟨u', hp', hu⟩ := hp.returns hs hr
      rw [bind_ok _ hp']
      refine ((hf a).fails he hu hr').imp_right fun ⟨hK, hg⟩ => ⟨hK, fun b v' hr => ?_⟩
      exact hg b v' (hr.first hp')
  grows hK _ _ _ hr hc := by
    obtain ⟨a, u', hr, hr'⟩ := hr.bind
    exact grows_result hf hK hr' (hp.grows hK hr hc)

theorem andThen [K.Fair] (_ : Mirrors K p p') (hf : ∀ a, Mirrors K (f a) (f' (relabel K.labels a))) :
    Mirrors K (p >>= f) (p' >>= f') :=
  bind hf

theorem bindPair [K.Fair] {p p' : Parse (α × σ)} {f f' : α × σ → Parse β} [Mirrors K p p']
    (hf : ∀ a x, Mirrors K (f (a, x)) (f' (relabel K.labels a, relabel K.labels x))) :
    Mirrors K (p >>= f) (p' >>= f') :=
  bind fun ⟨a, x⟩ => hf a x

/-- A step whose result holds no nodes. -/
theorem step [K.Fair] [Nodeless γ] {p p' : Parse γ} {f f' : γ → Parse β} [Mirrors K p p']
    (hf : ∀ a, Mirrors K (f a) (f' a)) : Mirrors K (p >>= f) (p' >>= f') :=
  bind hf

theorem past [K.Fair] [Nodeless γ] {p p' : Parse γ} {f f' : γ → Parse β} [Mirrors K p p']
    (hf : ∀ {a}, Mirrors K (f a) (f' a)) : Mirrors K (p >>= f) (p' >>= f') :=
  step fun _ => hf

theorem ite [Decidable b] (hp : Mirrors K p p') (hq : Mirrors K q q') :
    Mirrors K (if b then p else q) (if b then p' else q') := by
  split
  · exact hp
  · exact hq

/-- One of two rules, with what comes after both. -/
theorem either [K.Fair] [Decidable b] (hp : Mirrors K p p') (hq : Mirrors K q q')
    (hf : ∀ a, Mirrors K (f a) (f' (relabel K.labels a))) :
    Mirrors K (if b then p >>= f else q >>= f) (if b then p' >>= f' else q' >>= f') :=
  ite (andThen hp hf) (andThen hq hf)

variable {f f' : Unit → Parse β}

/-- A rule that may be left out. -/
theorem guard [K.Fair] [Decidable b] {p p' : Parse Unit} [Mirrors K p p'] (hf : ∀ u, Mirrors K (f u) (f' u)) :
    Mirrors K (if b then p >>= f else f ()) (if b then p' >>= f' else f' ()) :=
  ite (step hf) (hf ())

theorem guardNot [K.Fair] [Decidable b] {p p' : Parse Unit} [Mirrors K p p'] (hf : ∀ u, Mirrors K (f u) (f' u)) :
    Mirrors K (if b then f () else p >>= f) (if b then f' () else p' >>= f') :=
  ite (hf ()) (step hf)

theorem get {f f' : State → Parse β} (hf : ∀ s c, Mirrors K (f s) (f' (s.beside c))) :
    Mirrors K (get >>= f) (get >>= f') where
  returns {s s' _ _} hs hr := by
    have hf' := hf s s'.collected
    rw [← hs.visible] at hf'
    obtain ⟨u', hr', hu⟩ := hf'.returns hs hr.get
    exact ⟨u', hr', hu⟩
  fails {s s' _ _} he hs hr := by
    have hf' := hf s s'.collected
    rw [← hs.visible] at hf'
    exact hf'.fails he hs hr
  grows hK s _ _ hr hc := (hf s s.collected).grows hK hr.get hc

theorem modifies (hg : Aloof g) : Mirrored K (modify g) where
  returns {s s' _ _} hs hr := by
    obtain rfl := returns_modify.mp hr
    refine ⟨g s', returns_modify.mpr rfl, ?_, ?_, fun hK => by rw [hg.errors, hs.clean hK]⟩
    · rw [hg.collected, ← hg.beside, ← hs.visible]
    · rw [hg.collected, hg.collected]
      exact hs.beside
  fails _ _ hr := by cases hr
  grows _ _ _ _ hr hs := by
    rw [returns_modify.mp hr, hg.errors]
    exact hs

theorem changes [K.Fair] (hg : Aloof g)
    (hf : ∀ u, Mirrors K (f u) (f' u)) : Mirrors K (modify g >>= f) (modify g >>= f') :=
  have := modifies (K := K) hg
  step hf

theorem ofEnv {f f' : Env → Parse β} (h : Mirrors K (f K.left) (f' K.right)) :
    Mirrors K (read >>= f) (read >>= f') where
  returns hs hr := h.returns hs hr.read
  fails he hs hr := h.fails he hs hr
  grows hK _ _ _ hr := h.grows hK hr.read

theorem ofOptions {f f' : Options → Parse β} (h : Mirrors K (f K.left.options) (f' K.right.options)) :
    Mirrors K (options >>= f) (options >>= f') where
  returns hs hr := h.returns hs (hr.first rfl)
  fails he hs hr := h.fails he hs hr
  grows hK _ _ _ hr := h.grows hK (hr.first rfl)

/-- The scan below runs with settings that are alike. -/
instance [K.Fair] [Nodeless γ] (p : Scan γ) [hp : Scan.Steady p] : Mirrored K (scan p) := by
  have halike {s s'} (hs : K.Sim s s') : Scan.Alike (settings K.left s) (settings K.right s') := by
    refine ⟨Comparison.Fair.source, ?_, Comparison.Fair.tolerant⟩
    rw [hs.visible]
    rfl
  have hcursor {s s'} (hs : K.Sim s s') : s'.cursor = s.cursor := by rw [hs.visible]
  constructor
  · intro s s' a u hs hr
    obtain ⟨d, hd, rfl⟩ := returns_scan.mp hr
    rcases hp.agree (halike hs) with he | hg
    · refine ⟨{ s' with cursor := d }, returns_scan.mpr ⟨d, ?_, rfl⟩, ?_, hs.beside, fun hK => ?_⟩
      · rw [hcursor hs]
        exact he.trans hd
      · rw [hs.visible]
        rfl
      · show d.errors = []
        rw [hp.quiet hd hK.1, hs.clean hK]
    · exact absurd hd (hg.fails a d)
  · intro s s' e u _ hs hr
    obtain ⟨d, hd⟩ := scan_fails hr
    rw [← hcursor hs] at hd
    rcases hp.agree (halike hs) with he | hg
    · exact .inl ⟨_, scan_error (he.trans hd)⟩
    · refine .inr ⟨⟨hg.strict, hg.tolerant⟩, fun a u' hr => ?_⟩
      obtain ⟨d, hd, rfl⟩ := returns_scan.mp hr
      exact hg.complains a d hd
  · intro _ s a u hr hc
    obtain ⟨d, hd, rfl⟩ := returns_scan.mp hr
    exact hp.grows hd hc

theorem loopFor [K.Fair] {round round' : σ → Parse (Round σ α)}
    (h : ∀ x, Mirrors K (round x) (round' (relabel K.labels x))) (n : Nat) (x : σ) :
    Mirrors K (loopFor round n x) (loopFor round' n (relabel K.labels x)) := by
  induction n generalizing x with
  | zero => exact inferInstanceAs (Mirrored K (throw .exhausted : Parse α))
  | succ n ih =>
    have hround := h x
    refine bind fun result => ?_
    cases result with
    | again y => exact ih y
    | done a => exact pure rfl

theorem loop [K.Fair] {round round' : σ → Parse (Round σ α)} {x x' : σ}
    (hx : x' = relabel K.labels x) (h : ∀ x, Mirrors K (round x) (round' (relabel K.labels x))) :
    Mirrors K (loop x round) (loop x' round') := by
  refine ofEnv ?_
  rw [Comparison.Fair.source, hx]
  exact loopFor h _ _

theorem until' [K.Fair] {stop stop' : Parse Bool} (_ : Mirrors K stop stop') (_ : Mirrors K p p') :
    Mirrors K (until' stop p) (until' stop' p') := by
  have hloop : Mirrors K
      (Parse.loop [] fun items => do if ← stop then return .done items else return .again ((← p) :: items))
      (Parse.loop [] fun items => do if ← stop' then return .done items else return .again ((← p') :: items)) :=
    loop rfl fun items => step fun _ => ite (pure rfl) (bind fun _ => pure rfl)
  exact bind fun items => pure (relabel_reverse ..).symm

theorem forIn [K.Fair] {round round' : β → σ → Parse (ForInStep σ)}
    (h : ∀ b x, Mirrors K (round b x) (round' (relabel K.labels b) (relabel K.labels x)))
    (items : List β) (x : σ) :
    Mirrors K (forIn items x round) (forIn (items.map (relabel K.labels)) (relabel K.labels x) round') := by
  induction items generalizing x with
  | nil => exact pure rfl
  | cons b items ih =>
    rw [List.map_cons, List.forIn_cons, List.forIn_cons]
    refine andThen (h b x) fun result => ?_
    cases result with
    | done y => exact pure rfl
    | yield y => exact ih y

instance [K.Fair] [Mirrors K p p'] : Mirrors K (some <$> p) (some <$> p') :=
  bind fun _ => pure rfl

/-- Where only the right side is tolerant, it may go on after a complaint when the left side fails. -/
theorem forgiven (hK : K.Forgives) (hp : ∀ s a u, ¬ Returns p K.left s a u)
    (hp' : ∀ s a u, Returns p' K.right s a u → u.cursor.errors ≠ []) : Mirrors K p p' where
  returns _ hr := absurd hr (hp _ _ _)
  fails _ _ _ := .inr ⟨hK, hp' _⟩
  grows _ _ _ _ hr _ := hp' _ _ _ hr

/-- Only what the rules do in their own environments matters. -/
theorem congr (h : Mirrors K p p') (hp : q K.left = p K.left) (hp' : q' K.right = p' K.right) : Mirrors K q q' where
  returns hs hr := by
    unfold Returns at *
    rw [hp'] at *
    rw [hp] at hr
    exact h.returns hs hr
  fails he hs hr := by
    unfold Returns at *
    rw [hp'] at *
    rw [hp] at hr
    exact h.fails he hs hr
  grows hK _ _ _ hr := by
    unfold Returns at *
    rw [hp'] at hr
    exact h.grows hK hr

theorem finish [K.Lawful] {shape shape' : Shape Node} (h : shape' = shape.map K.labels := by rfl) :
    Mirrors K (finish m shape) (finish m shape') :=
  h ▸ Comparison.Lawful.finish m shape

/-- A node is finished and used. -/
theorem builds [K.Lawful] {shape shape' : Shape Node} {f f' : Node → Parse β}
    (h : shape' = shape.map K.labels) (hf : ∀ n, Mirrors K (f n) (f' (relabel K.labels n))) :
    Mirrors K (Parse.finish m shape >>= f) (Parse.finish m shape' >>= f') :=
  have := finish (K := K) (m := m) h
  bind hf

/-- Rules that are put together from others in the usual ways. -/
theorem routine (h : Mirrors K p p' := by
    repeat' first
      | infer_instance
      | with_reducible refine Prod.forall.mpr fun _ => ?_
      | intro _
      | (with_reducible refine .pure ?_); first | rfl | (simp only [← relabel_reverse, ← relabel_append]; rfl)
      | (with_reducible refine .finish ?_); first | rfl | (simp only [← relabel_reverse, ← relabel_append]; rfl)
      | (with_reducible refine .builds ?_ ?_); rfl
      | with_reducible refine .ite ?_ ?_
      | with_reducible refine .step ?_
      | with_reducible refine .bindPair ?_
      | with_reducible refine .bind ?_
      | with_reducible refine .get ?_
      | with_reducible refine .changes {} ?_
      | (with_reducible refine .loop ?_ ?_); rfl
      | with_reducible refine .until' ?_ ?_
      | with_reducible refine .andThen ?_ ?_
      | simp only [relabel_plain, relabel_pair, relabel_isNone, relabel_node, Node.Relabelling.node_isIdentifier,
          Node.Relabelling.node_name?, Node.Relabelling.node_isNamed, isRestrictedName_relabel, isUnary_relabel,
          arrowKind?_relabel, isGenerator_relabel, isAssignment_relabel, isSelfClosing_relabel, isRest_relabel,
          isKey_relabel, relabel_simple, relabel_stricted, relabel_restricted, relabel_message, relabel_isEmpty]
      | split
      | refine .step ?_
      | refine .bind ?_) : Mirrors K p p' := h

end Mirrors

end ScriptTree.Parse
