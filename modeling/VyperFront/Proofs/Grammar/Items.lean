import Mathlib.Data.List.Induction
import VyperFront.Proofs.Automaton.SourceFile
import VyperFront.Proofs.Grammar.LineEnd
import VyperFront.Proofs.Grammar.Onset
import VyperFront.Proofs.Grammar.Recast
import VyperFront.Proofs.Tree.Kept

/-! Source files as lists of items: blank lines and statements. The statements are the
children of the source file, one after the other; blank lines leave nothing. -/

namespace VyperFront

/-- Whether the phrase is a statement, or several in one line. -/
def Nonterminal.isStatement : Nonterminal → Bool
  | statement | simpleStatements | moreSmallStatements | smallStatement | compoundStatement => true
  | _ => false

namespace Production

def isNode (p : Production) : Bool :=
  match p.shape with
  | .node _ => true
  | _ => false

/-- Whether what the production brings are nodes, if statements do. -/
def bringsNodes (p : Production) : Bool :=
  p.isNode || p.slots.all fun
    | .kept (.nonterminal n) => n.isStatement || n.productions.all isNode
    | .dropped _ => true
    | _ => false

end Production

private theorem Grammar.statements_checked :
    (productions.all fun p => !p.head.isStatement || p.bringsNodes) = true := by
  decide

namespace Derivation

theorem Sifts.forall_tree {slots : List Slot} {parts : List Derivation} {trees : List Tree}
    {holds : Tree → Prop} (sifts : Sifts slots parts trees) (solid : .gap ∉ slots)
    (kept : ∀ d ∈ parts, .kept d.symbol ∈ slots → ∀ t ∈ d.trees, holds t) :
    ∀ t ∈ trees, holds t := by
  induction sifts with
  | nil => exact nofun
  | gap _ _ => exact absurd List.mem_cons_self solid
  | kept d _ ih =>
    obtain ⟨here, later⟩ := List.forall_mem_cons.mp kept
    exact List.forall_mem_append.mpr ⟨here List.mem_cons_self,
      ih (mt (List.mem_cons_of_mem _) solid) fun e part inside =>
        later e part (List.mem_cons_of_mem _ inside)⟩
  | dropped d _ ih =>
    obtain ⟨_, later⟩ := List.forall_mem_cons.mp kept
    exact ih (mt (List.mem_cons_of_mem _) solid) fun e part inside =>
      later e part (List.mem_cons_of_mem _ inside)

theorem Valid.isNamed_of_statement {d : Derivation} {n : Nonterminal} (valid : d.Valid)
    (symbol : d.symbol = .nonterminal n)
    (brings : n.isStatement = true ∨ n.productions.all Production.isNode = true) :
    ∀ t ∈ d.trees, t.isNamed = true := by
  induction valid generalizing n with
  | token t => cases symbol
  | @phrase p parts member body _ ih =>
    obtain rfl : p.head = n := Symbol.nonterminal.inj symbol
    rcases trees_phrase p parts with ⟨kind, _, same⟩ | ⟨other, same⟩
    · rw [same]
      exact List.forall_mem_singleton.mpr rfl
    · have plain : p.isNode = false := by
        rw [Production.isNode]
        split
        · next shape => exact absurd shape (other _)
        · rfl
      have slots : p.bringsNodes = true := by
        rcases brings with statement | nodes
        · have checked := List.all_eq_true.mp Grammar.statements_checked p member
          rwa [statement, Bool.not_true, Bool.false_or] at checked
        · have node := List.all_eq_true.mp nodes p (Grammar.mem_productions.mp member)
          rw [plain] at node
          cases node
      rw [Production.bringsNodes, plain, Bool.false_or, List.all_eq_true] at slots
      rw [same]
      refine (sifts_keep body).forall_tree (fun gap => by cases slots _ gap) ?_
      intro d part inside
      have here := slots _ inside
      cases symbol : d.symbol with
      | terminal t =>
        rw [symbol] at here
        cases here
      | nonterminal n =>
        rw [symbol, Bool.or_eq_true] at here
        exact ih d part symbol here

/-- A derivation of a blank line or of a statement. -/
structure IsItem (d : Derivation) : Prop where
  valid : d.Valid
  item : Graph.isItem d.symbol = true

/-- What an item leaves in the tree of the source file. -/
def shown : Derivation → List Tree
  | token _ => []
  | phrase p parts => (phrase p parts).trees

variable {d e : Derivation} {items : List Derivation} {tokens : List SourceToken} {m : Recast}

theorem IsItem.recast (item : d.IsItem) : (d.recast m).IsItem :=
  ⟨item.valid.recast, by rw [symbol_recast, item.item]⟩

theorem IsItem.shown_recast (item : d.IsItem) : (d.recast m).shown = d.shown.map (.recast m) := by
  cases d with
  | token t => rfl
  | phrase p parts => exact item.valid.trees_recast

theorem isItem_newline {t : SourceToken} (newline : t.kind = .newline) : (token t).IsItem :=
  ⟨.token t, by rw [symbol, newline]; rfl⟩

theorem IsItem.cases (item : d.IsItem) :
    (∃ t : SourceToken, t.kind = .newline ∧ d = token t) ∨
      d.symbol = .nonterminal .statement ∧ d.shown = d.trees := by
  have kind := item.item
  cases d with
  | token t =>
    rw [Graph.isItem, Bool.or_eq_true, decide_eq_true_eq, decide_eq_true_eq] at kind
    rcases kind with newline | statement
    · exact .inl ⟨t, Symbol.terminal.inj newline, rfl⟩
    · cases statement
  | phrase p parts =>
    rw [Graph.isItem, Bool.or_eq_true, decide_eq_true_eq, decide_eq_true_eq] at kind
    rcases kind with newline | statement
    · cases newline
    · exact .inr ⟨statement, rfl⟩

theorem IsItem.isNamed (item : d.IsItem) : ∀ t ∈ d.shown, t.isNamed = true := by
  rcases item.cases with ⟨t, _, rfl⟩ | ⟨statement, shown⟩
  · exact nofun
  · rw [shown]
    exact item.valid.isNamed_of_statement statement (.inl rfl)

theorem isNamed_shown (all : ∀ d ∈ items, d.IsItem) :
    ∀ t ∈ items.flatMap shown, t.isNamed = true := by
  intro t member
  obtain ⟨d, listed, inside⟩ := List.mem_flatMap.mp member
  exact (all d listed).isNamed t inside

theorem yields_append (items more : List Derivation) :
    yields (items ++ more) = yields items ++ yields more := by
  rw [yields_eq_flatMap, yields_eq_flatMap, yields_eq_flatMap, List.flatMap_append]

theorem yields_recast (all : ∀ d ∈ items, d.IsItem) :
    yields (items.map (recast m)) = (yields items).map m.token := by
  rw [yields_eq_flatMap, yields_eq_flatMap, List.flatMap_map, List.map_flatMap]
  exact List.flatMap_congr fun d member => (all d member).valid.yield_recast

theorem shown_recast (all : ∀ d ∈ items, d.IsItem) :
    (items.map (recast m)).flatMap shown = (items.flatMap shown).map (.recast m) := by
  rw [List.flatMap_map, List.map_flatMap]
  exact List.flatMap_congr fun d member => (all d member).shown_recast

private theorem statement_onset :
    (Onset.ofSymbol Grammar.onsets (.nonterminal .statement)).first.contains .newline = false := by
  decide +kernel

theorem eq_token_of_newline {t : SourceToken} (all : ∀ d ∈ items, d.IsItem)
    (yield : yields items = t :: tokens) (newline : t.kind = .newline) :
    ∃ more, items = token t :: more ∧ yields more = tokens := by
  cases items with
  | nil => cases yield
  | cons first more =>
    obtain ⟨item, _⟩ := List.forall_mem_cons.mp all
    rw [yields] at yield
    rcases item.cases with ⟨u, _, rfl⟩ | ⟨statement, _⟩
    · obtain ⟨rfl, rest⟩ := List.cons.inj yield
      exact ⟨more, rfl, rest⟩
    · have line : first.symbol.endsLine = true := by
        rw [statement]
        rfl
      have covers := item.valid.covers
      obtain ⟨front, u, after, same, _⟩ := item.valid.endsLine line
      cases tokens : first.yield with
      | nil =>
        rw [tokens] at same
        simp at same
      | cons u rest =>
        rw [tokens] at yield covers
        obtain ⟨rfl, _⟩ := List.cons.inj yield
        have begins : _ = true := covers
        rw [statement, newline, statement_onset] at begins
        cases begins

/-- The slot of an item: line breaks are dropped. -/
private def itemSlot (d : Derivation) : Slot := d.symbol.slot false

/-- The items before, and one more. -/
private def moreItems (before : Option Derivation) (d : Derivation) : Derivation :=
  match before with
  | none => phrase ⟨.fileItems, .splice, [itemSlot d]⟩ [d]
  | some items =>
    phrase ⟨.fileItems, .splice, [.kept (.nonterminal .fileItems), itemSlot d]⟩ [items, d]

private theorem moreItems_spec (item : d.IsItem) (before : Option Derivation)
    (known : ∀ items ∈ before, items.Valid ∧ items.symbol = .nonterminal .fileItems) :
    (moreItems before d).Valid ∧ (moreItems before d).symbol = .nonterminal .fileItems ∧
      (moreItems before d).yield = yields before.toList ++ d.yield ∧
      (moreItems before d).trees = before.toList.flatMap trees ++ d.shown := by
  have slot : itemSlot d = .dropped (.terminal .newline) ∧ d.symbol = .terminal .newline ∨
      itemSlot d = .kept (.nonterminal .statement) ∧ d.symbol = .nonterminal .statement := by
    rcases item.cases with ⟨t, newline, rfl⟩ | ⟨statement, _⟩
    · left
      rw [itemSlot, symbol, newline]
      exact ⟨rfl, rfl⟩
    · right
      rw [itemSlot, statement]
      exact ⟨rfl, rfl⟩
  have left : ∀ kept, keep [itemSlot d] [d.trees] = kept → kept = d.shown := by
    rintro _ rfl
    rcases item.cases with ⟨t, newline, rfl⟩ | ⟨statement, shown⟩
    · rw [itemSlot, symbol, newline]
      rfl
    · rw [itemSlot, statement, shown]
      exact List.append_nil _
  cases before with
  | none =>
    refine ⟨.phrase ?_ ?_ ?_, rfl, ?_, ?_⟩
    · rcases slot with ⟨same, _⟩ | ⟨same, _⟩ <;> rw [same, Grammar.mem_productions] <;> decide
    · rcases slot with ⟨same, symbol⟩ | ⟨same, symbol⟩ <;>
        rw [same, List.map_cons, symbol] <;> rfl
    · simpa using item.valid
    · simp [moreItems, yield, yields]
    · exact left _ rfl
  | some items =>
    obtain ⟨valid, symbol⟩ := known items rfl
    refine ⟨.phrase ?_ ?_ ?_, rfl, ?_, ?_⟩
    · rcases slot with ⟨same, _⟩ | ⟨same, _⟩ <;> rw [same, Grammar.mem_productions] <;> decide
    · rcases slot with ⟨same, last⟩ | ⟨same, last⟩ <;>
        rw [same, List.map_cons, List.map_cons, symbol, last] <;> rfl
    · simpa using ⟨valid, item.valid⟩
    · simp [moreItems, yield, yields]
    · have kept := left _ rfl
      simpa [moreItems, trees, treesOf, keep] using kept

theorem exists_of_items (some : items ≠ []) (all : ∀ d ∈ items, d.IsItem) :
    ∃ d : Derivation, d.Valid ∧ d.symbol = .nonterminal .fileItems ∧ d.yield = yields items ∧
      d.trees = items.flatMap shown := by
  induction items using List.reverseRecOn with
  | nil => exact absurd rfl some
  | append_singleton rest last ih =>
    obtain ⟨before, item⟩ := List.forall_mem_append.mp all
    have item := item last List.mem_cons_self
    by_cases none : rest = []
    · subst none
      obtain ⟨valid, symbol, yield, trees⟩ := moreItems_spec item none nofun
      exact ⟨_, valid, symbol, by simpa [yields] using yield, by simpa using trees⟩
    · obtain ⟨items, valid, symbol, yield, trees⟩ := ih none before
      obtain ⟨whole, head, all, shown⟩ :=
        moreItems_spec item (.some items) fun _ same => by
          cases same
          exact ⟨valid, symbol⟩
      refine ⟨_, whole, head, ?_, ?_⟩
      · simp [all, yield, yields_eq_flatMap]
      · simp [shown, trees]

private theorem exists_moreItems {p : Production} {parts : List Derivation}
    (member : p ∈ Nonterminal.fileItems.productions) (body : parts.map symbol = p.body)
    (valid : ∀ d ∈ parts, d.Valid) :
    ∃ before d, d.IsItem ∧ phrase p parts = moreItems before d ∧
      ∀ items ∈ before, items ∈ parts ∧ items.symbol = .nonterminal .fileItems := by
  have choices : ∀ q ∈ Nonterminal.fileItems.productions,
      ∃ s ∈ [Symbol.terminal .newline, .nonterminal .statement],
        q = ⟨.fileItems, .splice, [s.slot false]⟩ ∧ q.body = [s] ∨
        q = ⟨.fileItems, .splice, [.kept (.nonterminal .fileItems), s.slot false]⟩ ∧
          q.body = [.nonterminal .fileItems, s] := by decide
  obtain ⟨s, special, ⟨rfl, same⟩ | ⟨rfl, same⟩⟩ := choices p member
  · rw [same] at body
    obtain ⟨d, rfl, rfl⟩ := List.map_eq_singleton_iff.mp body
    refine ⟨none, d, ⟨valid d List.mem_cons_self, ?_⟩, rfl, nofun⟩
    simpa [Graph.isItem] using special
  · rw [same] at body
    obtain ⟨items, rest, rfl, symbol, more⟩ := List.map_eq_cons_iff.mp body
    obtain ⟨d, rfl, rfl⟩ := List.map_eq_singleton_iff.mp more
    refine ⟨some items, d, ⟨valid d (by simp), ?_⟩, rfl, ?_⟩
    · simpa [Graph.isItem] using special
    · rintro _ ⟨⟩
      exact ⟨List.mem_cons_self, symbol⟩

theorem exists_items (valid : d.Valid) (symbol : d.symbol = .nonterminal .fileItems) :
    ∃ items : List Derivation, (∀ e ∈ items, e.IsItem) ∧ yields items = d.yield ∧
      items.flatMap shown = d.trees := by
  induction valid with
  | token t => cases symbol
  | @phrase p parts member body valid ih =>
    have head : p.head = .fileItems := Symbol.nonterminal.inj symbol
    obtain ⟨before, d, item, same, known⟩ :=
      exists_moreItems (head ▸ Grammar.mem_productions.mp member) body valid
    obtain ⟨_, _, yield, trees⟩ := moreItems_spec item before fun items inside =>
      ⟨valid items (known items inside).1, (known items inside).2⟩
    rw [same, yield, trees]
    cases before with
    | none => exact ⟨[d], by simpa using item, by simp [yields], by simp⟩
    | some items =>
      obtain ⟨inside, symbol⟩ := known items rfl
      obtain ⟨list, all, yields, shown⟩ := ih items inside symbol
      refine ⟨list ++ [d], ?_, ?_, ?_⟩
      · exact List.forall_mem_append.mpr ⟨all, by simpa using item⟩
      · simp [← yields, yields_eq_flatMap]
      · simp [shown]

/-- The items of a source file, and its tree by them. -/
theorem Derives.exists_items (derives : d.Derives .sourceFile tokens) :
    ∃ (items : List Derivation) (extent : Option Extent), (∀ e ∈ items, e.IsItem) ∧
      yields items = tokens ∧ d.trees = [.node .sourceFile extent (items.flatMap shown)] := by
  obtain rfl | ⟨whole, valid, symbol, rfl⟩ := derives.cases_sourceFile
  · exact ⟨[], none, List.forall_mem_nil _, derives.yield, rfl⟩
  · obtain ⟨items, all, yields, shown⟩ := Derivation.exists_items valid symbol
    refine ⟨items, stretch (reaches [whole]), all, ?_, ?_⟩
    · rw [yields, ← derives.yield]
      simp [Derivation.yield, Derivation.yields]
    · simp [trees, treesOf, keep, shown]

theorem exists_derives (all : ∀ d ∈ items, d.IsItem) :
    ∃ (d : Derivation) (extent : Option Extent), d.Derives .sourceFile (yields items) ∧
      d.trees = [.node .sourceFile extent (items.flatMap shown)] := by
  by_cases none : items = []
  · subst none
    refine ⟨phrase ⟨.sourceFile, .node .sourceFile, []⟩ [], .none, ⟨?_, rfl, rfl⟩, rfl⟩
    decide
  · obtain ⟨whole, valid, symbol, yield, shown⟩ := exists_of_items none all
    refine ⟨phrase ⟨.sourceFile, .node .sourceFile, [.kept (.nonterminal .fileItems)]⟩ [whole],
      stretch (reaches [whole]), ⟨.phrase ?_ ?_ ?_, rfl, ?_⟩, ?_⟩
    · rw [Grammar.mem_productions]
      decide
    · rw [List.map_singleton, symbol]
      rfl
    · simpa using valid
    · simp [Derivation.yield, yields, yield]
    · simp [trees, treesOf, keep, shown]

end Derivation

end VyperFront
