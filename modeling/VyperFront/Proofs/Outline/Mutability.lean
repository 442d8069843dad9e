import VyperFront.Proofs.Outline.Declared

/-! The mutability of functions. A function with decorators always has one: the last mutability
among them counts, then the one that is all of its body, and without either it is not payable. A
function without decorators has none but the one that is all of its body. -/

namespace VyperFront

open Outline

namespace Tree

section Word

variable (source : Text) (t : Tree)

/-- What the decorators below the tree say. -/
def decorations : List Text :=
  (t.childrenOf [.decorator]).flatMap fun d => d.children.map (·.2.textIn source)

/-- The function definition that the tree is, or has after its decorators. -/
def definition : Tree :=
  if t.kind? = some .decoratedDefinition then (t.children.map Prod.snd).getLastD t else t

/-- The mutability that is all of the body of a function definition. -/
def bodyWord? : Option Mutability :=
  match t.bodyOf.children with
  | [only] => (only.2.saying? source).bind Mutability.ofText?
  | _ => none

/-- The mutability that counts for a function, decorated or not: the last one that its decorators
say, or else the one that is all of its body. -/
def word? : Option Mutability :=
  if t.kind? = some .decoratedDefinition then
    ((t.decorations source).filterMap Mutability.ofText?).getLast?.or (t.definition.bodyWord? source)
  else t.bodyWord? source

end Word

variable {source : Text} {t u : Tree} {trees : List Tree} {f : Function} {said : List Text}

theorem decorations_eq (children : t.children.map Prod.snd = trees ++ [u])
    (decorates : List.Forall₂ (Decorates source) trees said)
    (function : u.kind? = some .functionDefinition) : t.decorations source = said := by
  have other : u.isOf [.decorator] = false := by
    rw [isOf, function]
    rfl
  rw [decorations, childrenOf, children, List.filter_append, List.filter_cons_of_neg (by simp [other]),
    List.filter_nil, List.append_nil]
  clear children
  induction decorates with
  | nil => rfl
  | @cons d said trees rest here _ ih =>
    obtain ⟨kind, below⟩ := here
    have decorator : d.isOf [.decorator] = true := by
      rw [isOf, kind]
      rfl
    rw [List.filter_cons, if_pos decorator, List.flatMap_cons, below, ih]
    rfl

theorem DeclaresFunction.mutability_eq (declares : t.DeclaresFunction source f) :
    f.mutability = t.bodyWord? source := by
  rw [declares.mutability, bodyWord?, sayings]
  rcases t.bodyOf.children with _ | ⟨only, _ | ⟨second, rest⟩⟩
  · rfl
  · cases said : only.2.saying? source <;> simp [said]
  · simp

/-- A function without decorators has the mutability that is all of its body, and no other. -/
theorem DeclaresFunction.word?_eq (declares : t.DeclaresFunction source f) :
    t.word? source = f.mutability := by
  rw [word?, declares.kind, declares.mutability_eq]
  rfl

/-- A function with decorators is not payable without a word that says else. -/
theorem DeclaresDecorated.mutability_eq (declares : t.DeclaresDecorated source f) :
    f.mutability = some ((t.word? source).getD .nonpayable) := by
  obtain ⟨decorators, inner, plain, children, decorates, function, same⟩ := declares.parts
  have last : t.definition = inner := by
    rw [definition, if_pos declares.kind, children, List.getLastD_concat]
  rw [word?, if_pos declares.kind, last, decorations_eq children decorates function.kind,
    ← function.mutability_eq, same]

end Tree

namespace Parser

variable {c : Config} {source : Source} {p : Parse}

/-- A function of the outline has a mutability just if it is decorated or its body is a single word
for one. Then this is the word that counts, and without any the function is not payable. -/
theorem outline_mutability
    (parsed : (Parser.empty.setLanguage (Artifact.language c)).parse source = .ok p)
    (clean : p.errors = []) :
    List.Forall₂ (fun t d => ∀ f, d = .function f →
        t.isOf [.functionDefinition, .decoratedDefinition] = true ∧
        (f.mutability.isSome = true ↔ t.kind? = some .decoratedDefinition ∨
          (t.definition.bodyWord? p.text).isSome = true) ∧
        ∀ m ∈ f.mutability, m = (t.word? p.text).getD .nonpayable)
      (p.root.childrenOf Tree.declaring) p.outline := by
  refine (declares_outline parsed clean).imp fun t d declares f same => ?_
  subst same
  cases declares with
  | function either =>
    rcases either with function | decorated
    · have undecorated : t.kind? ≠ some .decoratedDefinition := by
        rw [function.kind]
        exact nofun
      have self : t.definition = t := if_neg undecorated
      refine ⟨by rw [Tree.isOf, function.kind]; rfl, ?_, fun m found => ?_⟩
      · rw [self, function.mutability_eq, or_iff_right undecorated]
      · rw [function.word?_eq, found, Option.getD_some]
    · refine ⟨by rw [Tree.isOf, decorated.kind]; rfl, ?_, fun m found => ?_⟩
      · rw [decorated.mutability_eq]
        exact iff_of_true rfl (.inl decorated.kind)
      · rw [decorated.mutability_eq] at found
        exact (Option.some.inj found).symm

/-! A source with a function that is decorated and one that is not. -/

namespace Sample

def functions : Text := "@view\ndef f(): pass\ndef g(): pass\n".toList

/-- What the lexer reads in it. -/
def functionTokens : List SourceToken :=
  [⟨.atSign, "@".toList, ⟨⟨0, 1, 1⟩, ⟨1, 1, 2⟩⟩⟩,
    ⟨.name, "view".toList, ⟨⟨1, 1, 2⟩, ⟨5, 1, 6⟩⟩⟩,
    ⟨.newline, "\n".toList, ⟨⟨5, 1, 6⟩, ⟨6, 2, 1⟩⟩⟩,
    ⟨.kwDef, "def".toList, ⟨⟨6, 2, 1⟩, ⟨9, 2, 4⟩⟩⟩,
    ⟨.name, "f".toList, ⟨⟨10, 2, 5⟩, ⟨11, 2, 6⟩⟩⟩,
    ⟨.leftParen, "(".toList, ⟨⟨11, 2, 6⟩, ⟨12, 2, 7⟩⟩⟩,
    ⟨.rightParen, ")".toList, ⟨⟨12, 2, 7⟩, ⟨13, 2, 8⟩⟩⟩,
    ⟨.colon, ":".toList, ⟨⟨13, 2, 8⟩, ⟨14, 2, 9⟩⟩⟩,
    ⟨.kwPass, "pass".toList, ⟨⟨15, 2, 10⟩, ⟨19, 2, 14⟩⟩⟩,
    ⟨.newline, "\n".toList, ⟨⟨19, 2, 14⟩, ⟨20, 3, 1⟩⟩⟩,
    ⟨.kwDef, "def".toList, ⟨⟨20, 3, 1⟩, ⟨23, 3, 4⟩⟩⟩,
    ⟨.name, "g".toList, ⟨⟨24, 3, 5⟩, ⟨25, 3, 6⟩⟩⟩,
    ⟨.leftParen, "(".toList, ⟨⟨25, 3, 6⟩, ⟨26, 3, 7⟩⟩⟩,
    ⟨.rightParen, ")".toList, ⟨⟨26, 3, 7⟩, ⟨27, 3, 8⟩⟩⟩,
    ⟨.colon, ":".toList, ⟨⟨27, 3, 8⟩, ⟨28, 3, 9⟩⟩⟩,
    ⟨.kwPass, "pass".toList, ⟨⟨29, 3, 10⟩, ⟨33, 3, 14⟩⟩⟩,
    ⟨.newline, "\n".toList, ⟨⟨33, 3, 14⟩, ⟨34, 4, 1⟩⟩⟩]

theorem tokenizes_functions : Lexer.Tokenizes .spelled ⟨functions, .start⟩ functionTokens :=
  Lexer.tokenizes_of_parts rfl rfl rfl

/-- A function of one line, which does nothing. -/
private def idle (keyword name opening closing colon pass newline : SourceToken) : Derivation :=
  let line : Derivation :=
    .phrase ⟨.simpleStatements, .splice,
        [.kept (.nonterminal .smallStatement), .dropped (.terminal .newline)]⟩
      [splice (.phrase ⟨.passStatement, .node .passStatement, [.dropped (.terminal .kwPass)]⟩
        [.token pass]) .smallStatement, .token newline]
  .phrase ⟨.functionDefinition, .node .functionDefinition, [.dropped (.terminal .kwDef),
      .kept (.terminal .name), .kept (.nonterminal .parameters), .gap, .dropped (.terminal .colon),
      .kept (.nonterminal .block)]⟩
    [.token keyword, .token name,
      .phrase ⟨.parameters, .node .parameters,
          [.dropped (.terminal .leftParen), .dropped (.terminal .rightParen)]⟩
        [.token opening, .token closing],
      .token colon,
      .phrase ⟨.block, .node .block, [.kept (.nonterminal .simpleStatements)]⟩ [line]]

private def decoratedIdle : Derivation :=
  .phrase ⟨.decoratedDefinition, .node .decoratedDefinition,
      [.kept (.nonterminal .decorators), .kept (.nonterminal .functionDefinition)]⟩
    [splice (.phrase ⟨.decorator, .node .decorator, [.dropped (.terminal .atSign),
          .kept (.nonterminal .test), .dropped (.terminal .newline)]⟩
        [.token functionTokens[0], test functionTokens[1], .token functionTokens[2]]) .decorators,
      idle functionTokens[3] functionTokens[4] functionTokens[5] functionTokens[6]
        functionTokens[7] functionTokens[8] functionTokens[9]]

private def undecoratedIdle : Derivation :=
  idle functionTokens[10] functionTokens[11] functionTokens[12] functionTokens[13]
    functionTokens[14] functionTokens[15] functionTokens[16]

private def functionsDerivation : Derivation :=
  .phrase ⟨.sourceFile, .node .sourceFile, [.kept (.nonterminal .fileItems)]⟩
    [.phrase ⟨.fileItems, .splice,
        [.kept (.nonterminal .fileItems), .kept (.nonterminal .statement)]⟩
      [[.compoundStatement, .statement, .fileItems].foldl splice decoratedIdle,
        [.compoundStatement, .statement].foldl splice undecoratedIdle]]

/-- What the source declares. -/
def functionsOutline : List Declaration :=
  [.function ⟨"f".toList, ["view".toList], [], none, some .view⟩,
    .function ⟨"g".toList, [], [], none, none⟩]

set_option maxRecDepth 4000 in
private theorem exists_parse_functions : ∃ p,
    (Parser.empty.setLanguage (Artifact.language .default)).parse (.text functions) = .ok p ∧
      p.errors = [] ∧ p.outline = functionsOutline := by
  have derived : Reading.Derived .eight functions functionsDerivation :=
    ⟨functionTokens, tokenizes_functions, by decide, by decide, rfl, rfl⟩
  obtain ⟨p, parsed, clean, root, text⟩ := Parser.exists_parse .default derived rfl
  refine ⟨p, parsed, clean, ?_⟩
  rw [Parse.outline_eq clean, root, text]
  rfl

end Sample

theorem outline_mutability_functions : ∃ p : Parse,
    (Parser.empty.setLanguage (Artifact.language .default)).parse (.text Sample.functions) = .ok p ∧
      p.errors = [] ∧ p.outline = Sample.functionsOutline ∧
      List.Forall₂ (fun t d => ∀ f, d = .function f →
          t.isOf [.functionDefinition, .decoratedDefinition] = true ∧
          (f.mutability.isSome = true ↔ t.kind? = some .decoratedDefinition ∨
            (t.definition.bodyWord? p.text).isSome = true) ∧
          ∀ m ∈ f.mutability, m = (t.word? p.text).getD .nonpayable)
        (p.root.childrenOf Tree.declaring) p.outline := by
  obtain ⟨p, parsed, clean, outline⟩ := Sample.exists_parse_functions
  exact ⟨p, parsed, clean, outline, outline_mutability parsed clean⟩

/-- The function without decorators has no mutability, although its body is no word for one. -/
theorem outline_undecorated : ∃ p : Parse,
    (Parser.empty.setLanguage (Artifact.language .default)).parse (.text Sample.functions) = .ok p ∧
      p.errors = [] ∧
      .function ⟨"g".toList, [], [], none, none⟩ ∈ p.outline := by
  obtain ⟨p, parsed, clean, outline⟩ := Sample.exists_parse_functions
  exact ⟨p, parsed, clean, outline ▸ List.mem_cons_of_mem _ (List.mem_singleton_self _)⟩

end Parser

end VyperFront
