import VyperFront.Proofs.Tree.Bracket

namespace VyperFront

/-- The tree is a call, and its only argument is one, so many times. None of the names that are
called stands in brackets. -/
inductive Tree.Calls (tokens : List SourceToken) : Nat → Tree → Prop where
  | none : Calls tokens 0 t
  | outer (plain : ¬ Bracketed tokens name) :
    Calls tokens 1 (.node .call extent [.leaf name, .node .argumentList place arguments])
  | inner (plain : ¬ Bracketed tokens name) (calls : Calls tokens n t) :
    Calls tokens (n + 1) (.node .call extent [.leaf name, .node .argumentList place [t]])

namespace Grammar

/-- Whether what is spliced leaves no gaps and drops no brackets, and a call is what it is. -/
private def callsPlainly (p : Production) : Bool :=
  match p.shape with
  | .splice => p.slots.all fun
    | .kept _ => true
    | .dropped s => s.brackets = []
    | .gap => false
  | .node .call =>
    p.slots = [.kept (.nonterminal .primary), .kept (.nonterminal .argumentList)]
  | _ => true

set_option maxRecDepth 10000 in
private theorem callsPlainly_checked : (productions.all callsPlainly) = true := by
  decide

variable {p : Production}

theorem brackets_of_dropped {s : Symbol} (member : p ∈ productions) (splice : p.shape = .splice)
    (dropped : .dropped s ∈ p.slots) : s.brackets = [] := by
  have checked := List.all_eq_true.mp callsPlainly_checked p member
  rw [callsPlainly, splice] at checked
  exact of_decide_eq_true (List.all_eq_true.mp checked _ dropped)

theorem no_gap (member : p ∈ productions) (splice : p.shape = .splice) : .gap ∉ p.slots := by
  intro gap
  have checked := List.all_eq_true.mp callsPlainly_checked p member
  rw [callsPlainly, splice] at checked
  cases List.all_eq_true.mp checked _ gap

theorem slots_of_call (member : p ∈ productions) (call : p.shape = .node .call) :
    p.slots = [.kept (.nonterminal .primary), .kept (.nonterminal .argumentList)] := by
  have checked := List.all_eq_true.mp callsPlainly_checked p member
  rw [callsPlainly, call] at checked
  exact of_decide_eq_true checked

end Grammar

namespace Derivation

variable {d e : Derivation} {parts : List Derivation} {slots : List Slot}
  {tokens : List SourceToken} {t : Tree} {row trees : List Tree}

theorem Valid.exists_tree (valid : d.Valid) (single : d.IsSingle) : ∃ t, d.trees = [t] := by
  obtain ⟨e, _, _, core, same⟩ := valid.exists_core single
  rw [← same]
  cases e with
  | token u => exact ⟨_, rfl⟩
  | phrase p parts =>
    obtain ⟨kind, shape⟩ := core
    rw [Derivation.trees, shape]
    exact ⟨_, rfl⟩

theorem reach_of_leaf {u : SourceToken} (single : d.IsSingle) (trees : d.trees = [.leaf u]) :
    d.reach = [u] := by
  cases d with
  | token v =>
    cases trees
    rfl
  | phrase p parts =>
    rw [Derivation.trees] at trees
    cases shape : p.shape with
    | splice => exact absurd shape single
    | node kind =>
      rw [shape] at trees
      cases trees
    | pass =>
      rw [shape] at trees
      dsimp only at trees
      rw [reach, shape, trees]
      rfl

/-- What of the parts leaves no tree has no brackets. -/
structure Bare (slots : List Slot) (parts : List Derivation) : Prop where
  noGap : .gap ∉ slots
  dropped : ∀ d ∈ parts, .dropped d.symbol ∈ slots → bracketsOf d.yield = []
  kept : ∀ d ∈ parts, d.trees = [] → bracketsOf d.yield = []

namespace Bare

variable {slot : Slot}

theorem tail (bare : Bare (slot :: slots) (d :: parts)) : Bare slots parts where
  noGap inside := bare.noGap (List.mem_cons_of_mem slot inside)
  dropped e part inside :=
    bare.dropped e (List.mem_cons_of_mem d part) (List.mem_cons_of_mem slot inside)
  kept e part := bare.kept e (List.mem_cons_of_mem d part)

theorem brackets_eq_nil (bare : Bare slots parts) (sifts : Sifts slots parts row)
    (none : row = []) : bracketsOf (yields parts) = [] := by
  induction sifts with
  | nil => rfl
  | gap => cases none
  | kept d _ ih =>
    obtain ⟨here, later⟩ := List.append_eq_nil_iff.mp none
    rw [yields, bracketsOf_append, bare.kept d List.mem_cons_self here, ih bare.tail later]
    rfl
  | dropped d _ ih =>
    rw [yields, bracketsOf_append, bare.dropped d List.mem_cons_self List.mem_cons_self,
      ih bare.tail none]
    rfl

/-- A single tree is left of one of the parts, and all brackets are there. -/
theorem exists_only (bare : Bare slots parts) (sifts : Sifts slots parts row) (alone : row = [t]) :
    ∃ d ∈ parts, .kept d.symbol ∈ slots ∧ d.trees = [t] ∧
      bracketsOf (yields parts) = bracketsOf d.yield := by
  induction sifts with
  | nil => cases alone
  | gap => exact absurd List.mem_cons_self bare.noGap
  | kept d sifts ih =>
    rcases List.append_eq_singleton_iff.mp alone with ⟨none, later⟩ | ⟨here, none⟩
    · obtain ⟨e, part, kept, trees, same⟩ := ih bare.tail later
      refine ⟨e, List.mem_cons_of_mem d part, List.mem_cons_of_mem _ kept, trees, ?_⟩
      rw [yields, bracketsOf_append, bare.kept d List.mem_cons_self none, same]
      rfl
    · refine ⟨d, List.mem_cons_self, List.mem_cons_self, here, ?_⟩
      rw [yields, bracketsOf_append, bare.tail.brackets_eq_nil sifts none, List.append_nil]
  | dropped d _ ih =>
    obtain ⟨e, part, kept, trees, same⟩ := ih bare.tail alone
    refine ⟨e, List.mem_cons_of_mem d part, List.mem_cons_of_mem _ kept, trees, ?_⟩
    rw [yields, bracketsOf_append, bare.dropped d List.mem_cons_self List.mem_cons_self, same]
    rfl

theorem of_splice {p : Production} (member : p ∈ Grammar.productions) (splice : p.shape = .splice)
    (kept : ∀ d ∈ parts, d.trees = [] → bracketsOf d.yield = []) : Bare p.slots parts where
  noGap := Grammar.no_gap member splice
  dropped d _ dropped := by
    obtain ⟨kind, terminal, _⟩ := Grammar.not_isNamed_of_dropped member dropped
    obtain ⟨u, rfl, rfl⟩ := exists_token terminal
    exact (List.append_nil _).trans (Grammar.brackets_of_dropped member splice dropped)
  kept := kept

end Bare

theorem Valid.brackets_eq_nil (valid : d.Valid) (none : d.trees = []) :
    bracketsOf d.yield = [] := by
  have whole := valid
  induction valid with
  | token u => cases none
  | @phrase p parts member body valid ih =>
    by_cases splice : p.shape = .splice
    · rw [trees, splice] at none
      have bare := Bare.of_splice member splice fun d part none => ih d part none (valid d part)
      exact bare.brackets_eq_nil (sifts_keep body) none
    · obtain ⟨t, alone⟩ := whole.exists_tree splice
      rw [none] at alone
      cases alone

/-- A single tree is made by some of the tokens in a row. There is nothing but brackets around
them. -/
theorem Valid.exists_makes (valid : d.Valid)
    (solid : ∀ kind, d.symbol = .terminal kind → kind.isSolid = true) (alone : d.trees = [t]) :
    ∃ (e : Derivation) (n : Nat), e.Makes t ∧ e.yield <:+: d.yield ∧
      bracketsOf d.yield = (bracketsOf e.yield).enclosed n := by
  have whole := valid
  induction valid with
  | token u => exact ⟨.token u, 0, ⟨whole, solid u.kind rfl, alone⟩, List.infix_rfl, rfl⟩
  | @phrase p parts member body valid ih =>
    by_cases splice : p.shape = .splice
    · rw [trees, splice] at alone
      have bare := Bare.of_splice member splice fun d part => (valid d part).brackets_eq_nil
      obtain ⟨d, part, kept, trees, same⟩ := bare.exists_only (sifts_keep body) alone
      obtain ⟨e, n, makes, inside, around⟩ := ih d part (fun kind terminal =>
        Grammar.isSolid_of_kept member (terminal ▸ kept)) trees (valid d part)
      exact ⟨e, n, makes, inside.trans (yield_part part), same.trans around⟩
    · obtain ⟨e, passes, valid, core, same⟩ := whole.exists_core splice
      obtain ⟨n, around⟩ := passes.brackets
      exact ⟨e, n, ⟨valid, core, same.trans alone⟩, passes.part, around⟩

theorem Valid.argumentList_cases (valid : d.Valid) (symbol : d.symbol = .nonterminal .argumentList)
    {extent : Option Extent} (made : d.trees = [.node .argumentList extent trees]) :
    ∃ (p : Production) (left right : SourceToken), p.shape = .node .argumentList ∧
      left.kind = .leftParen ∧ right.kind = .rightParen ∧
      ((∃ args : Derivation, d = .phrase p [.token left, args, .token right] ∧ args.Valid ∧
          args.symbol = .nonterminal .arguments ∧ args.trees = trees) ∨
        d = .phrase p [.token left, .token right] ∧ trees = []) := by
  cases valid with
  | token u => cases symbol
  | @phrase p parts member body valid =>
    have head : p.head = .argumentList := Symbol.nonterminal.inj symbol
    have choices : ∀ q ∈ Nonterminal.argumentList.productions,
        q = ⟨.argumentList, .node .argumentList, [.dropped (.terminal .leftParen),
          .kept (.nonterminal .arguments), .dropped (.terminal .rightParen)]⟩ ∨
        q = ⟨.argumentList, .node .argumentList, [.dropped (.terminal .leftParen),
          .dropped (.terminal .rightParen)]⟩ := by decide
    rcases choices p (head ▸ Grammar.mem_productions.mp member) with rfl | rfl
    · obtain ⟨left, right, args, rfl, opens, phrase, closes⟩ := exists_bracketed body
      have below : args.trees ++ [] = trees := (Tree.node.inj (List.singleton_inj.mp made)).2.2
      rw [List.append_nil] at below
      exact ⟨_, left, right, rfl, opens, closes, .inl ⟨args, rfl, valid args (by simp), phrase, below⟩⟩
    · obtain ⟨first, _, rfl, before, ends⟩ := List.map_eq_cons_iff.mp body
      obtain ⟨last, rfl, after⟩ := List.map_eq_singleton_iff.mp ends
      obtain ⟨left, rfl, opens⟩ := exists_token before
      obtain ⟨right, rfl, closes⟩ := exists_token after
      have none : [] = trees := (Tree.node.inj (List.singleton_inj.mp made)).2.2
      exact ⟨_, left, right, rfl, opens, closes, .inr ⟨rfl, none.symm⟩⟩

/-- What stands between the brackets of arguments. -/
theorem Valid.exists_arguments (valid : d.Valid) (symbol : d.symbol = .nonterminal .argumentList)
    {extent : Option Extent} (made : d.trees = [.node .argumentList extent trees]) :
    ∃ inside : Text, bracketsOf d.yield = inside.enclosed 1 ∧ inside.Balanced ∧
      ∀ t, trees = [t] → ∃ (e : Derivation) (n : Nat), e.Makes t ∧ e.yield <:+: d.yield ∧
        inside = (bracketsOf e.yield).enclosed n := by
  obtain ⟨p, left, right, _, opens, closes, ⟨args, rfl, valid, phrase, below⟩ | ⟨rfl, none⟩⟩ :=
    valid.argumentList_cases symbol made
  · refine ⟨bracketsOf args.yield, brackets_bracketed _ args opens closes,
      valid.balanced phrase, fun t alone => ?_⟩
    obtain ⟨e, n, makes, part, around⟩ := valid.exists_makes
      (fun kind terminal => Symbol.noConfusion (phrase.symm.trans terminal)) (below.trans alone)
    exact ⟨e, n, makes, part.trans (part_bracketed _ args), around⟩
  · refine ⟨[], ?_, .nil, fun t alone => absurd (none.symm.trans alone).symm (List.cons_ne_nil t [])⟩
    simp only [yield, yields, List.cons_append, List.nil_append, bracketsOf_cons, opens, closes]
    rfl

theorem Makes.exists_parts {extent : Option Extent} (makes : e.Makes (.node .call extent row)) :
    ∃ called args : Derivation, called.Valid ∧ called.IsSingle ∧ args.Valid ∧
      args.symbol = .nonterminal .argumentList ∧ e.yield = called.yield ++ args.yield ∧
      called.trees ++ args.trees = row ∧ e.reach = called.reach ++ args.reach := by
  obtain ⟨valid, core, made⟩ := makes
  cases valid with
  | token u => cases made
  | @phrase p parts member body valid =>
    obtain ⟨kind, shape⟩ := core
    rw [Derivation.trees, shape] at made
    obtain ⟨rfl, _, below⟩ := Tree.node.inj (List.singleton_inj.mp made)
    have slots := Grammar.slots_of_call member shape
    rw [Production.body, slots] at body
    obtain ⟨called, _, rfl, primary, ends⟩ := List.map_eq_cons_iff.mp body
    obtain ⟨args, rfl, symbol⟩ := List.map_eq_singleton_iff.mp ends
    have first := valid called (by simp)
    have single : called.symbol.isSingle = true := by
      rw [primary]
      decide
    have both : called.trees ++ (args.trees ++ []) = row := by
      rw [slots] at below
      exact below
    rw [List.append_nil] at both
    refine ⟨called, args, first, first.isSingle single, valid args (by simp), symbol, ?_, both, ?_⟩
    · simp [yield, yields]
    · rw [reach, shape]
      exact congrArg _ (List.append_nil _)

theorem Makes.exists_call {extent place : Option Extent} {name : SourceToken}
    (makes : e.Makes (.node .call extent [.leaf name, .node .argumentList place trees]))
    (plain : ¬ Bracketed e.yield name) :
    ∃ inside : Text, bracketsOf e.yield = inside.enclosed 1 ∧ inside.Balanced ∧
      ∀ t, trees = [t] → ∃ (f : Derivation) (n : Nat), f.Makes t ∧ f.yield <:+: e.yield ∧
        inside = (bracketsOf f.yield).enclosed n := by
  obtain ⟨called, args, first, single, second, symbol, whole, row, _⟩ := makes.exists_parts
  obtain ⟨t, only⟩ := first.exists_tree single
  rw [only] at row
  obtain ⟨rfl, made⟩ := List.cons.inj row
  rw [whole] at plain ⊢
  obtain ⟨solid, alone | bracketed⟩ := first.leaf_cases single only
  · obtain ⟨inside, around, balanced, within⟩ := second.exists_arguments symbol made
    refine ⟨inside, ?_, balanced, fun t only => ?_⟩
    · rw [alone, bracketsOf_append, bracketsOf_cons, Terminal.brackets_of_isSolid solid, around]
      rfl
    · obtain ⟨f, n, makes, part, same⟩ := within t only
      exact ⟨f, n, makes, part.trans (List.suffix_append ..).isInfix, same⟩
  · exact absurd (bracketed.mono (List.prefix_append ..).isInfix) plain

/-- Calls one within the other have all their other brackets in a pair for each of them. -/
theorem Makes.brackets_of_calls {n : Nat} (makes : e.Makes t) (part : e.yield <:+: tokens)
    (calls : t.Calls tokens n) :
    ∃ inside : Text, inside.Balanced ∧ bracketsOf e.yield = inside.enclosed n := by
  induction calls generalizing e with
  | none => exact ⟨bracketsOf e.yield, makes.balanced, rfl⟩
  | outer plain =>
    obtain ⟨inside, around, balanced, _⟩ := makes.exists_call fun bracketed =>
      plain (bracketed.mono part)
    exact ⟨inside, balanced, around⟩
  | @inner name n t extent place plain _ ih =>
    obtain ⟨_, around, _, within⟩ := makes.exists_call fun bracketed => plain (bracketed.mono part)
    obtain ⟨f, m, makes, inner, rfl⟩ := within t rfl
    obtain ⟨inside, balanced, same⟩ := ih makes (inner.trans part)
    -- More brackets around the argument belong to what is inside of the calls.
    refine ⟨inside.enclosed m, balanced.enclosed m, ?_⟩
    rw [around, same, Text.enclosed_add, Text.enclosed_add, Text.enclosed_add]
    congr 1
    omega

end Derivation

end VyperFront
