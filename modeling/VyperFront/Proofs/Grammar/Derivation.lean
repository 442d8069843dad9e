import VyperFront.Tree.Fragment

/-! Derivations: which tokens the grammar derives a phrase to, and how. The trees of a
derivation are described production by production; reducing fragment by fragment comes
to the same. -/

namespace VyperFront

namespace Extent

/-- From the start of the first extent to the end of the second, if there are both. -/
def through : Option Extent → Option Extent → Option Extent
  | some a, some b => some ⟨a.start, b.stop⟩
  | some a, none => some a
  | none, b => b

theorem span?_append (a b : List Extent) : span? (a ++ b) = through (span? a) (span? b) := by
  cases a with
  | nil => rfl
  | cons first rest =>
    cases b with
    | nil => simp [span?, through]
    | cons second more =>
      simp only [List.cons_append, span?, through, List.getLastD_eq_getLast?, List.getLast?_append,
        List.getLast?_cons, Option.getD_some, Option.some_or]

theorem span?_toList_span? (extents : List Extent) :
    span? (span? extents).toList = span? extents := by
  cases extents <;> rfl

end Extent

/-- A derivation of a symbol: a token, or a production with derivations of the
symbols in its body. -/
inductive Derivation where
  | token (token : SourceToken)
  | phrase (production : Production) (parts : List Derivation)

namespace Derivation

/-- The symbol that is derived. -/
def symbol : Derivation → Symbol
  | token t => .terminal t.kind
  | phrase p _ => .nonterminal p.head

mutual

/-- The tokens that the symbol is derived to. -/
def yield : Derivation → List SourceToken
  | token t => [t]
  | phrase _ parts => yields parts

def yields : List Derivation → List SourceToken
  | [] => []
  | d :: rest => d.yield ++ yields rest

end

/-- Every phrase is derived by a production of the grammar. -/
inductive Valid : Derivation → Prop where
  | token (t : SourceToken) : Valid (token t)
  | phrase {parts : List Derivation} (member : p ∈ Grammar.productions)
    (body : parts.map symbol = p.body) (valid : ∀ d ∈ parts, Valid d) : Valid (phrase p parts)

/-- The derivation derives the phrase to the tokens. -/
structure Derives (d : Derivation) (n : Nonterminal) (tokens : List SourceToken) : Prop where
  valid : d.Valid
  symbol : d.symbol = .nonterminal n
  yield : d.yield = tokens

mutual

/-- Whether the derivation is valid. -/
def isValid : Derivation → Bool
  | token _ => true
  | phrase p parts =>
    decide (p ∈ p.head.productions ∧ parts.map symbol = p.body) && areValid parts

def areValid : List Derivation → Bool
  | [] => true
  | d :: rest => d.isValid && areValid rest

end

mutual

private theorem valid_of_isValid : (d : Derivation) → d.isValid = true → d.Valid
  | token t, _ => .token t
  | phrase p parts, checked => by
    rw [isValid, Bool.and_eq_true, decide_eq_true_eq] at checked
    obtain ⟨⟨member, body⟩, valid⟩ := checked
    exact .phrase (Grammar.mem_productions.mpr member) body (valid_of_areValid parts valid)

private theorem valid_of_areValid :
    (parts : List Derivation) → areValid parts = true → ∀ d ∈ parts, d.Valid
  | [], _ => nofun
  | first :: rest, checked => by
    rw [areValid, Bool.and_eq_true] at checked
    exact List.forall_mem_cons.mpr
      ⟨valid_of_isValid first checked.1, valid_of_areValid rest checked.2⟩

end

private theorem areValid_of_forall {parts : List Derivation}
    (valid : ∀ d ∈ parts, d.isValid = true) : areValid parts = true := by
  induction parts with
  | nil => rfl
  | cons first rest ih =>
    rw [List.forall_mem_cons] at valid
    rw [areValid, valid.1, ih valid.2]
    rfl

theorem isValid_iff {d : Derivation} : d.isValid = true ↔ d.Valid := by
  refine ⟨valid_of_isValid d, fun valid => ?_⟩
  induction valid with
  | token t => rfl
  | phrase member body _ ih =>
    rw [isValid, Bool.and_eq_true, decide_eq_true_eq]
    exact ⟨⟨Grammar.mem_productions.mp member, body⟩, areValid_of_forall ih⟩

instance (d : Derivation) : Decidable d.Valid := decidable_of_iff _ isValid_iff

/-- The trees of the symbols that are kept, with gaps for the parts left out. -/
def keep : List Slot → List (List Tree) → List Tree
  | .gap :: slots, parts => .gap :: keep slots parts
  | .kept _ :: slots, trees :: parts => trees ++ keep slots parts
  | .dropped _ :: slots, _ :: parts => keep slots parts
  | _, _ => []

/-- The token of a rule that only passes on a single token. -/
def passed? (shape : Shape) (trees : List Tree) : Option SourceToken :=
  match shape, trees with
  | .pass, [.leaf t] => some t
  | _, _ => none

/-- The stretch of text from the first of the tokens to the last. -/
def stretch (tokens : List SourceToken) : Option Extent :=
  Extent.span? (tokens.map (·.place))

mutual

/-- The trees that the derivation determines. A node stands over what its production
keeps; what is no node is spliced into the node around it. -/
def trees : Derivation → List Tree
  | token t => [.leaf t]
  | phrase p parts =>
    let kept := keep p.slots (treesOf parts)
    match p.shape with
    | .node kind => [.node kind (stretch (reaches parts)) kept]
    | _ => kept

def treesOf : List Derivation → List (List Tree)
  | [] => []
  | d :: rest => d.trees :: treesOf rest

/-- The tokens that a node around the derivation reaches over: all that are derived,
but of brackets around a single token only that token. -/
def reach : Derivation → List SourceToken
  | token t => [t]
  | phrase p parts =>
    match passed? p.shape (keep p.slots (treesOf parts)) with
    | some t => [t]
    | none => reaches parts

def reaches : List Derivation → List SourceToken
  | [] => []
  | d :: rest => d.reach ++ reaches rest

end

/-- The fragment of a derivation. -/
def fragment (d : Derivation) : Fragment := ⟨d.trees, stretch d.reach⟩

theorem yields_eq_flatMap (parts : List Derivation) : yields parts = parts.flatMap yield := by
  induction parts with
  | nil => rfl
  | cons d rest ih => rw [yields, ih, List.flatMap_cons]

@[simp] theorem fragment_token (t : SourceToken) : (token t).fragment = .ofToken t := rfl

private theorem stretch_reaches (parts : List Derivation) :
    stretch (reaches parts) = Extent.span? ((parts.map fragment).filterMap (·.extent)) := by
  induction parts with
  | nil => rfl
  | cons d rest ih =>
    have first : (d :: rest).map fragment = [d.fragment] ++ rest.map fragment := rfl
    have single : [d.fragment].filterMap (·.extent) = (stretch d.reach).toList := by
      cases extent : stretch d.reach <;> simp [fragment, extent]
    rw [reaches, stretch, List.map_append, Extent.span?_append, ← stretch, ← stretch, ih, first,
      List.filterMap_append, Extent.span?_append, single, stretch, Extent.span?_toList_span?]

private theorem keep_treesOf (slots : List Slot) (parts : List Derivation) :
    keep slots (treesOf parts) = Fragment.keep slots (parts.map fragment) := by
  induction slots generalizing parts with
  | nil => cases parts <;> rfl
  | cons slot rest ih =>
    cases slot with
    | gap => exact congrArg (Tree.gap :: ·) (ih parts)
    | kept s =>
      cases parts with
      | nil => rfl
      | cons d parts => exact congrArg (d.trees ++ ·) (ih parts)
    | dropped s =>
      cases parts with
      | nil => rfl
      | cons d parts => exact ih parts

theorem fragment_phrase (p : Production) (parts : List Derivation) :
    (phrase p parts).fragment = Fragment.reduce p (parts.map fragment) := by
  rw [fragment, Fragment.reduce, trees, reach, ← stretch_reaches, ← keep_treesOf]
  generalize keep p.slots (treesOf parts) = kept
  cases p.shape with
  | node kind => rfl
  | splice => rfl
  | pass =>
    match kept with
    | [.leaf t] => rfl
    | [] => rfl
    | .gap :: _ => rfl
    | .node .. :: _ => rfl
    | .leaf _ :: _ :: _ => rfl

end Derivation

end VyperFront
