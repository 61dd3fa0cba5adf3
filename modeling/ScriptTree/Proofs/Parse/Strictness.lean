import ScriptTree.Proofs.Parse.Coverage

/-! # Words that are reserved in strict code only

A word is listed as a keyword if the code was known to be strict when it came into sight, which is one token
before it is taken. So the first token of a module is listed as in a script, and all others as in strict code
(`Sealed`). In a script there is a reason before each word that is listed as a keyword (`Backed`). -/

namespace ScriptTree

variable {i : Nat}

/-- The words that are names in some code and reserved in other. -/
def Words.strictOnly : List String :=
  ["implements", "interface", "package", "private", "protected", "public", "static"]

/-- The entry is spelled like a word that is reserved in strict code only. -/
def Entry.IsStrictWord (e : Entry) : Prop := ∃ w ∈ Words.strictOnly, e.value = Text.ofString w

def Entry.IsClass (e : Entry) : Prop := e.kind = "Keyword" ∧ e.value = Text.ofString "class"

namespace Parse

variable {g : Grammar} {n : Node} {r : Range} {src : Source} {env : Env} {s s' : State} {ms : List Comment}
  {c : Scan.Cursor} {k t : Token} {rs : List Remark}

theorem Moves.value (h : Moves env s ms c k s') :
    (entryAt env s').value = env.source.slice c.index s'.cursor.index := by
  simp [entryAt, h.lookahead, (Scan.next_spans h.scanned).start, (Scan.next_spans h.scanned).stop]

/-- What makes code strict: the start of a class, or a directive. -/
def Reason (src : Source) (ts : List Entry) : Prop :=
  (∃ e ∈ ts, e.IsClass) ∨ src.Has (Text.ofString "use strict")

/-- A word is a name, or a keyword for a reason that comes before it. -/
def Warranted (src : Source) (ts : List Entry) : Prop :=
  ∀ before e, before ++ [e] <+: ts → e.IsStrictWord →
    e.kind = "Identifier" ∨ e.kind = "Keyword" ∧ Reason src before

theorem Reason.mono {ts ts' : List Entry} (h : Reason src ts) (hs : ts ⊆ ts') : Reason src ts' :=
  h.imp (fun ⟨e, he, hc⟩ => ⟨e, hs he, hc⟩) id

theorem Warranted.concat {ts : List Entry} {e : Entry} (h : Warranted src ts)
    (he : e.IsStrictWord → e.kind = "Identifier" ∨ e.kind = "Keyword" ∧ Reason src ts) :
    Warranted src (ts ++ [e]) := by
  intro before e' hp hw
  rcases List.prefix_concat_iff.mp hp with heq | hp
  · obtain ⟨rfl, hee⟩ := List.append_inj' heq rfl
    obtain rfl := List.singleton_inj.mp hee
    exact he hw
  · exact h before e' hp hw

end Parse

end ScriptTree
