import Mathlib.Data.List.Basic
import Mathlib.Data.List.Induction
import VyperFront.Proofs.Grammar.Derivation

namespace VyperFront

namespace Nonterminal

/-- Whether the phrase is a statement or ends with one. -/
def endsLine : Nonterminal → Bool
  | fileItems | statement | simpleStatements | compoundStatement | ifStatement | elifClauses
  | elifClause | elseClause | forStatement | decoratedDefinition | functionDefinition
  | eventDefinition | structDefinition | flagDefinition | interfaceDefinition | block
  | statements => true
  | _ => false

end Nonterminal

namespace Symbol

def endsLine : Symbol → Bool
  | terminal t => t = .newline
  | nonterminal n => n.endsLine

/-- Whether the symbols end with a line, but for dedents. -/
def endLine : List Symbol → Bool
  | [] => false
  | s :: rest => s.endsLine && rest.all (· = terminal .dedent) || endLine rest

end Symbol

private theorem Grammar.endLine_checked :
    (productions.all fun p => !p.head.endsLine || Symbol.endLine p.body) = true := by
  decide

theorem Grammar.endLine_body {p : Production} (member : p ∈ productions)
    (ends : p.head.endsLine = true) : Symbol.endLine p.body = true := by
  have checked := List.all_eq_true.mp endLine_checked p member
  rwa [ends, Bool.not_true, Bool.false_or] at checked

/-- After the last line break of the tokens there are dedents only. -/
def EndsLine (tokens : List SourceToken) : Prop :=
  ∃ front t after, tokens = front ++ t :: after ∧ t.kind = .newline ∧
    ∀ u ∈ after, u.kind = .dedent

variable {tokens more : List SourceToken}

namespace EndsLine

theorem append_left (ends : EndsLine tokens) : EndsLine (more ++ tokens) := by
  obtain ⟨front, t, after, rfl, newline, dedents⟩ := ends
  exact ⟨more ++ front, t, after, (List.append_assoc ..).symm, newline, dedents⟩

theorem append_dedents (ends : EndsLine tokens) (dedents : ∀ u ∈ more, u.kind = .dedent) :
    EndsLine (tokens ++ more) := by
  obtain ⟨front, t, after, rfl, newline, first⟩ := ends
  refine ⟨front, t, after ++ more, by simp, newline, ?_⟩
  exact List.forall_mem_append.mpr ⟨first, dedents⟩

/-- The last token is a line break, or a dedent after such tokens. -/
theorem concat_cases {t : SourceToken} (ends : EndsLine (tokens ++ [t])) :
    t.kind = .newline ∨ t.kind = .dedent ∧ EndsLine tokens := by
  obtain ⟨front, u, after, same, newline, dedents⟩ := ends
  rcases List.eq_nil_or_concat' after with rfl | ⟨after, last, rfl⟩
  · obtain ⟨_, last⟩ := List.append_inj' same rfl
    exact .inl (List.singleton_inj.mp last ▸ newline)
  · rw [← List.cons_append, ← List.append_assoc] at same
    obtain ⟨rfl, final⟩ := List.append_inj' same rfl
    obtain ⟨earlier, dedent⟩ := List.forall_mem_append.mp dedents
    obtain rfl := List.singleton_inj.mp final
    exact .inr ⟨dedent t List.mem_cons_self, front, u, after, rfl, newline, earlier⟩

theorem exists_last (ends : EndsLine tokens) :
    ∃ front last, tokens = front ++ [last] ∧ (last.kind = .newline ∨ last.kind = .dedent) := by
  rcases List.eq_nil_or_concat' tokens with rfl | ⟨front, last, rfl⟩
  · obtain ⟨front, _, _, same, _⟩ := ends
    simp at same
  · exact ⟨front, last, rfl, ends.concat_cases.imp_right And.left⟩

theorem of_append_dedents (ends : EndsLine (tokens ++ more))
    (dedents : ∀ u ∈ more, u.kind = .dedent) : EndsLine tokens := by
  induction more using List.reverseRecOn with
  | nil => simpa using ends
  | append_singleton more t ih =>
    obtain ⟨earlier, last⟩ := List.forall_mem_append.mp dedents
    have dedent := last t List.mem_cons_self
    rw [← List.append_assoc] at ends
    rcases ends.concat_cases with newline | ⟨_, ends⟩
    · rw [dedent] at newline
      cases newline
    · exact ih ends earlier

end EndsLine

namespace Derivation

variable {d : Derivation} {parts : List Derivation}

theorem yields_dedents (dedents : ∀ d ∈ parts, d.symbol = .terminal .dedent) :
    ∀ u ∈ yields parts, u.kind = .dedent := by
  intro u member
  rw [yields_eq_flatMap] at member
  obtain ⟨d, part, inside⟩ := List.mem_flatMap.mp member
  have symbol := dedents d part
  cases d with
  | phrase p parts => cases symbol
  | token t =>
    obtain rfl := List.mem_singleton.mp inside
    exact Symbol.terminal.inj symbol

theorem endsLine_yields (closed : Symbol.endLine (parts.map symbol) = true)
    (ends : ∀ d ∈ parts, d.symbol.endsLine = true → EndsLine d.yield) :
    EndsLine (yields parts) := by
  induction parts with
  | nil => cases closed
  | cons first rest ih =>
    obtain ⟨here, later⟩ := List.forall_mem_cons.mp ends
    rw [List.map_cons, Symbol.endLine, Bool.or_eq_true, Bool.and_eq_true] at closed
    rw [yields]
    rcases closed with ⟨line, dedents⟩ | closed
    · refine (here line).append_dedents (yields_dedents fun d part => ?_)
      exact of_decide_eq_true (List.all_eq_true.mp dedents _ (List.mem_map_of_mem part))
    · exact (ih closed later).append_left

theorem Valid.endsLine (valid : d.Valid) (ends : d.symbol.endsLine = true) :
    EndsLine d.yield := by
  induction valid with
  | token t => exact ⟨[], t, [], rfl, of_decide_eq_true ends, nofun⟩
  | @phrase p parts member body _ ih =>
    exact endsLine_yields (body ▸ Grammar.endLine_body member ends) ih

theorem Derives.cases_sourceFile (derives : d.Derives .sourceFile tokens) :
    d = phrase ⟨.sourceFile, .node .sourceFile, []⟩ [] ∨
      ∃ items : Derivation, items.Valid ∧ items.symbol = .nonterminal .fileItems ∧
        d = phrase ⟨.sourceFile, .node .sourceFile, [.kept (.nonterminal .fileItems)]⟩ [items] := by
  obtain ⟨valid, symbol, _⟩ := derives
  cases valid with
  | token t => cases symbol
  | @phrase p parts member body valid =>
    have head : p.head = .sourceFile := Symbol.nonterminal.inj symbol
    have choices : ∀ q ∈ Nonterminal.sourceFile.productions,
        q = ⟨.sourceFile, .node .sourceFile, []⟩ ∨
          q = ⟨.sourceFile, .node .sourceFile, [.kept (.nonterminal .fileItems)]⟩ := by decide
    rcases choices p (head ▸ Grammar.mem_productions.mp member) with rfl | rfl
    · obtain rfl := List.map_eq_nil_iff.mp body
      exact .inl rfl
    · obtain ⟨items, rfl, fileItems⟩ := List.map_eq_singleton_iff.mp body
      exact .inr ⟨items, valid items List.mem_cons_self, fileItems, rfl⟩

/-- A source file is empty, or it ends with a line break. -/
theorem Derives.endsLine (derives : d.Derives .sourceFile tokens) :
    tokens = [] ∨ EndsLine tokens := by
  obtain rfl | ⟨items, valid, symbol, rfl⟩ := derives.cases_sourceFile
  · exact .inl derives.yield.symm
  · have line : items.symbol.endsLine = true := by
      rw [symbol]
      rfl
    have all : items.yield = tokens := (List.append_nil _).symm.trans derives.yield
    exact .inr (all ▸ valid.endsLine line)

end Derivation

end VyperFront
