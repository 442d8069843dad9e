import VyperFront.Proofs.Grammar.Derivation
import VyperFront.Proofs.Lexer.Bracket
import VyperFront.Proofs.Tree.Reach

namespace VyperFront

namespace Symbol

/-- The bracket that the symbol stands for, if it is one. -/
def brackets : Symbol → Text
  | .terminal t => t.brackets
  | .nonterminal _ => []

end Symbol

set_option maxRecDepth 10000 in
/-- Every production closes what it opens, if the phrases in it do. -/
private theorem Grammar.balanced_checked : (productions.all fun p =>
    decide (Text.Balanced (p.body.flatMap Symbol.brackets))) = true := by
  decide

namespace Derivation

variable {d : Derivation} {parts : List Derivation}

/-- Balanced parts change nothing about the brackets around them. -/
theorem awaited_yields (before : List Char)
    (balanced : ∀ d ∈ parts, ∀ n, d.symbol = .nonterminal n → (bracketsOf d.yield).Balanced) :
    Text.awaited before (bracketsOf (yields parts)) =
      Text.awaited before ((parts.map symbol).flatMap Symbol.brackets) := by
  induction parts generalizing before with
  | nil => rfl
  | cons d rest ih =>
    obtain ⟨here, later⟩ := List.forall_mem_cons.mp balanced
    rw [yields, bracketsOf_append, Text.awaited_append, List.map_cons, List.flatMap_cons,
      Text.awaited_append]
    cases d with
    | token t =>
      have own : bracketsOf (token t).yield = Symbol.brackets (symbol (token t)) :=
        List.append_nil _
      rw [own]
      exact congrArg _ (funext fun between => ih between later)
    | phrase p parts =>
      rw [(here p.head rfl).awaited before]
      exact ih before later

theorem Valid.balanced (valid : d.Valid) {n : Nonterminal} (symbol : d.symbol = .nonterminal n) :
    (bracketsOf d.yield).Balanced := by
  induction valid generalizing n with
  | token t => cases symbol
  | @phrase p parts member body _ ih =>
    have checked := of_decide_eq_true (List.all_eq_true.mp Grammar.balanced_checked p member)
    rw [← body] at checked
    exact (awaited_yields [] fun d part n => ih d part).trans checked

end Derivation

/-! What a node reaches over ends where what it derives does, but for one thing: brackets around
a single token are forgotten, so that a node may begin or end within them. -/

/-- Whether the terminal can be a leaf and is no bracket. -/
def Terminal.isSolid (t : Terminal) : Bool := t.canBeLeaf && t.brackets = []

theorem Terminal.brackets_of_isSolid {t : Terminal} (solid : t.isSolid = true) :
    t.brackets = [] := by
  rw [isSolid, Bool.and_eq_true, decide_eq_true_eq] at solid
  exact solid.2

/-- The token stands alone in round brackets. -/
structure Bracketed (tokens : List SourceToken) (t : SourceToken) : Prop where
  solid : t.kind.isSolid = true
  around : ∃ left right, [left, t, right] <:+: tokens ∧
    left.kind = .leftParen ∧ right.kind = .rightParen

theorem Bracketed.mono {tokens more : List SourceToken} {t : SourceToken}
    (bracketed : Bracketed tokens t) (part : tokens <:+: more) : Bracketed more t := by
  obtain ⟨solid, left, right, inside, opens, closes⟩ := bracketed
  exact ⟨solid, left, right, inside.trans part, opens, closes⟩

/-- Whether the symbol is no bracket and never spliced into the node around it. -/
def Symbol.isSingle : Symbol → Bool
  | terminal t => t.isSolid
  | nonterminal n => n.productions.all (·.shape ≠ .splice)

namespace Grammar

/-- What is passed on: one symbol alone, or in round brackets. -/
private def passesOn (p : Production) : Bool :=
  p.shape ≠ .pass ||
    match p.slots with
    | [.kept s] => s.isSingle
    | [.dropped (.terminal .leftParen), .kept s, .dropped (.terminal .rightParen)] => s.isSingle
    | _ => false

set_option maxRecDepth 10000 in
private theorem passesOn_checked : (productions.all passesOn) = true := by
  decide

theorem slots_of_pass {p : Production} (member : p ∈ productions) (pass : p.shape = .pass) :
    ∃ s, s.isSingle = true ∧ (p.slots = [.kept s] ∨
      p.slots = [.dropped (.terminal .leftParen), .kept s, .dropped (.terminal .rightParen)]) := by
  have checked := List.all_eq_true.mp passesOn_checked p member
  rw [passesOn, pass] at checked
  simp only [ne_eq, not_true_eq_false, decide_false, Bool.false_or] at checked
  split at checked
  · next s slots => exact ⟨s, checked, .inl slots⟩
  · next s slots => exact ⟨s, checked, .inr slots⟩
  · cases checked

end Grammar

namespace Derivation

/-- A derivation that passes on the trees of another one, alone or in brackets. -/
inductive Passes : Derivation → Derivation → Prop where
  | core : Passes d d
  | alone (passes : Passes d e) : Passes (phrase p [d]) e
  | bracketed (opens : left.kind = .leftParen) (closes : right.kind = .rightParen)
    (passes : Passes d e) : Passes (phrase p [token left, d, token right]) e

variable {d e : Derivation} {parts : List Derivation} {t : SourceToken}

theorem exists_token {kind : Terminal} (symbol : d.symbol = .terminal kind) :
    ∃ t, d = token t ∧ t.kind = kind := by
  cases d with
  | token t => exact ⟨t, rfl, Symbol.terminal.inj symbol⟩
  | phrase p parts => cases symbol

section InBrackets

variable {s : Symbol} {left right : SourceToken} (p : Production) (d : Derivation)

theorem exists_bracketed
    (body : parts.map symbol = [.terminal .leftParen, s, .terminal .rightParen]) :
    ∃ (left right : SourceToken) (d : Derivation), parts = [token left, d, token right] ∧
      left.kind = .leftParen ∧ d.symbol = s ∧ right.kind = .rightParen := by
  obtain ⟨first, _, rfl, before, others⟩ := List.map_eq_cons_iff.mp body
  obtain ⟨d, _, rfl, same, ends⟩ := List.map_eq_cons_iff.mp others
  obtain ⟨last, rfl, after⟩ := List.map_eq_singleton_iff.mp ends
  obtain ⟨left, rfl, opens⟩ := exists_token before
  obtain ⟨right, rfl, closes⟩ := exists_token after
  exact ⟨left, right, d, rfl, opens, same, closes⟩

theorem yield_bracketed :
    (phrase p [token left, d, token right]).yield = [left] ++ d.yield ++ [right] := by
  simp [yield, yields]

theorem part_bracketed : d.yield <:+: (phrase p [token left, d, token right]).yield := by
  rw [yield_bracketed]
  exact ⟨[left], [right], rfl⟩

theorem brackets_bracketed (opens : left.kind = .leftParen) (closes : right.kind = .rightParen) :
    bracketsOf (phrase p [token left, d, token right]).yield =
      (bracketsOf d.yield).enclosed 1 := by
  have first : bracketsOf [left] = ['('] := by
    rw [bracketsOf_cons, opens]
    rfl
  have last : bracketsOf [right] = [')'] := by
    rw [bracketsOf_cons, closes]
    rfl
  rw [yield_bracketed, bracketsOf_append, bracketsOf_append, first, last]
  rfl

end InBrackets

namespace Passes

theorem part (passes : Passes d e) : e.yield <:+: d.yield := by
  induction passes with
  | core => exact List.infix_rfl
  | @alone d e p _ ih =>
    have whole : (phrase p [d]).yield = d.yield := List.append_nil _
    rwa [whole]
  | @bracketed d e p left right _ _ _ ih => exact ih.trans (part_bracketed p d)

/-- There is nothing but brackets around what is passed on. -/
theorem brackets (passes : Passes d e) :
    ∃ n, bracketsOf d.yield = (bracketsOf e.yield).enclosed n := by
  induction passes with
  | core => exact ⟨0, rfl⟩
  | @alone d e p _ ih =>
    have whole : (phrase p [d]).yield = d.yield := List.append_nil _
    rwa [whole]
  | @bracketed d e p left right opens closes _ ih =>
    obtain ⟨n, same⟩ := ih
    refine ⟨1 + n, ?_⟩
    rw [brackets_bracketed p d opens closes, same, Text.enclosed_add]

/-- A token that is passed on is all there is, or it stands alone in brackets. -/
theorem token_cases (passes : Passes d (token t)) (solid : t.kind.isSolid = true) :
    d.yield = [t] ∨ Bracketed d.yield t := by
  generalize same : token t = e at passes
  induction passes with
  | core => exact .inl (same ▸ rfl)
  | @alone d e p _ ih =>
    have whole : (phrase p [d]).yield = d.yield := List.append_nil _
    rw [whole]
    exact ih same
  | @bracketed d e p left right opens closes _ ih =>
    rcases ih same with alone | inside
    · rw [yield_bracketed, alone]
      exact .inr ⟨solid, left, right, List.infix_rfl, opens, closes⟩
    · exact .inr (inside.mono (part_bracketed p d))

end Passes

/-- Whether the derivation is a token or makes a node. -/
def IsCore : Derivation → Prop
  | token t => t.kind.isSolid = true
  | phrase p _ => ∃ kind, p.shape = .node kind

/-- Whether the derivation is never spliced. -/
def IsSingle : Derivation → Prop
  | token t => t.kind.isSolid = true
  | phrase p _ => p.shape ≠ .splice

theorem Valid.isSingle (valid : d.Valid) (single : d.symbol.isSingle = true) : d.IsSingle := by
  cases valid with
  | token t => exact single
  | @phrase p parts member _ _ =>
    have other := List.all_eq_true.mp single p (Grammar.mem_productions.mp member)
    exact (of_decide_eq_true other : p.shape ≠ .splice)

/-- What is not spliced passes on the trees of a token or of a node. -/
theorem Valid.exists_core (valid : d.Valid) (single : d.IsSingle) :
    ∃ e, Passes d e ∧ e.Valid ∧ e.IsCore ∧ e.trees = d.trees := by
  induction valid with
  | token t => exact ⟨_, .core, .token t, single, rfl⟩
  | @phrase p parts member body valid ih =>
    cases shape : p.shape with
    | node kind => exact ⟨_, .core, .phrase member body valid, ⟨kind, shape⟩, rfl⟩
    | splice => exact absurd shape single
    | pass =>
      have trees : (Derivation.phrase p parts).trees = keep p.slots (treesOf parts) := by
        rw [Derivation.trees, shape]
      obtain ⟨s, inner, slots | slots⟩ := Grammar.slots_of_pass member shape
      · rw [Production.body, slots] at body
        obtain ⟨d, rfl, rfl⟩ := List.map_eq_singleton_iff.mp body
        have part : d ∈ [d] := List.mem_cons_self
        obtain ⟨e, passes, valid, core, same⟩ := ih d part ((valid d part).isSingle inner)
        refine ⟨e, .alone passes, valid, core, ?_⟩
        rw [trees, slots, same]
        exact (List.append_nil _).symm
      · rw [Production.body, slots] at body
        obtain ⟨left, right, d, rfl, opens, rfl, closes⟩ := exists_bracketed body
        have part : d ∈ [Derivation.token left, d, .token right] := by simp
        obtain ⟨e, passes, valid, core, same⟩ := ih d part ((valid d part).isSingle inner)
        refine ⟨e, .bracketed opens closes passes, valid, core, ?_⟩
        rw [trees, slots, same]
        exact (List.append_nil _).symm

/-- A single leaf is all that is derived, or it stands alone in brackets. -/
theorem Valid.leaf_cases (valid : d.Valid) (single : d.IsSingle) (trees : d.trees = [.leaf t]) :
    t.kind.isSolid = true ∧ (d.yield = [t] ∨ Bracketed d.yield t) := by
  obtain ⟨e, passes, _, core, same⟩ := valid.exists_core single
  rw [trees] at same
  cases e with
  | token u =>
    cases same
    exact ⟨core, passes.token_cases core⟩
  | phrase p parts =>
    obtain ⟨kind, shape⟩ := core
    rw [Derivation.trees, shape] at same
    cases same

/-- The first token is that of the other tokens, or it stands alone in brackets among them. -/
def Begun (reach yield : List SourceToken) : Prop :=
  reach.head? = yield.head? ∨ ∃ t, Bracketed yield t ∧ reach.head? = some t

/-- The last token is that of the other tokens, or it stands alone in brackets among them. -/
def Ended (reach yield : List SourceToken) : Prop :=
  reach.getLast? = yield.getLast? ∨ ∃ t, Bracketed yield t ∧ reach.getLast? = some t

theorem Begun.yield_eq_nil {reach yield : List SourceToken} (begun : Begun reach yield)
    (empty : reach = []) : yield = [] := by
  rw [Begun, empty] at begun
  rcases begun with same | ⟨_, _, ⟨⟩⟩
  exact List.head?_eq_none_iff.mp same.symm

theorem begun_reaches (begun : ∀ d ∈ parts, Begun d.reach d.yield)
    (valid : ∀ d ∈ parts, d.Valid) : Begun (reaches parts) (yields parts) := by
  induction parts with
  | nil => exact .inl rfl
  | cons d rest ih =>
    obtain ⟨here, later⟩ := List.forall_mem_cons.mp begun
    obtain ⟨first, others⟩ := List.forall_mem_cons.mp valid
    have later := ih later others
    by_cases empty : d.reach = []
    · rw [reaches, yields, empty, here.yield_eq_nil empty]
      exact later
    · obtain ⟨t, more, same⟩ := List.exists_cons_of_ne_nil empty
      have some : d.yield ≠ [] := by
        intro none
        have sublist := first.reach_sublist
        rw [none, List.sublist_nil] at sublist
        exact empty sublist
      rw [Begun, reaches, yields, List.head?_append_of_ne_nil _ empty,
        List.head?_append_of_ne_nil _ some]
      refine here.imp_right ?_
      rintro ⟨t, bracketed, head⟩
      exact ⟨t, bracketed.mono (List.prefix_append ..).isInfix, head⟩

theorem Ended.yield_eq_nil {reach yield : List SourceToken} (ended : Ended reach yield)
    (empty : reach = []) : yield = [] := by
  rw [Ended, empty] at ended
  rcases ended with same | ⟨_, _, ⟨⟩⟩
  exact List.getLast?_eq_none_iff.mp same.symm

theorem ended_reaches (ended : ∀ d ∈ parts, Ended d.reach d.yield)
    (valid : ∀ d ∈ parts, d.Valid) : Ended (reaches parts) (yields parts) := by
  induction parts with
  | nil => exact .inl rfl
  | cons d rest ih =>
    obtain ⟨here, later⟩ := List.forall_mem_cons.mp ended
    obtain ⟨first, others⟩ := List.forall_mem_cons.mp valid
    have later := ih later others
    by_cases empty : reaches rest = []
    · rw [reaches, yields, empty, later.yield_eq_nil empty, List.append_nil, List.append_nil]
      exact here
    · have some : yields rest ≠ [] := by
        intro none
        have sublist := reaches_sublist fun d part => (others d part).reach_sublist
        rw [none, List.sublist_nil] at sublist
        exact empty sublist
      rw [Ended, reaches, yields, List.getLast?_append_of_ne_nil _ empty,
        List.getLast?_append_of_ne_nil _ some]
      refine later.imp_right ?_
      rintro ⟨t, bracketed, last⟩
      exact ⟨t, bracketed.mono (List.suffix_append ..).isInfix, last⟩

/-- What a derivation reaches over begins and ends where what it derives does, unless it begins or
ends at a token alone in brackets. -/
theorem Valid.ends (valid : d.Valid) : Begun d.reach d.yield ∧ Ended d.reach d.yield := by
  have whole := valid
  induction valid with
  | token t => exact ⟨.inl rfl, .inl rfl⟩
  | @phrase p parts member body valid ih =>
    have below : Begun (reaches parts) (yields parts) ∧ Ended (reaches parts) (yields parts) :=
      ⟨begun_reaches (fun d part => (ih d part (valid d part)).1) valid,
        ended_reaches (fun d part => (ih d part (valid d part)).2) valid⟩
    by_cases splice : p.shape = .splice
    · have reach : (Derivation.phrase p parts).reach = reaches parts := by
        rw [Derivation.reach, splice]
        rfl
      rw [reach]
      exact below
    rcases reach_phrase p parts with ⟨t, trees, reach⟩ | reach
    · rw [reach]
      rcases (whole.leaf_cases splice trees).2 with alone | bracketed
      · rw [alone]
        exact ⟨.inl rfl, .inl rfl⟩
      · exact ⟨.inr ⟨t, bracketed, rfl⟩, .inr ⟨t, bracketed, rfl⟩⟩
    · rw [reach]
      exact below

end Derivation

end VyperFront
