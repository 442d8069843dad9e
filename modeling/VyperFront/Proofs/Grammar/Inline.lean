import VyperFront.Proofs.Grammar.Derivation
import VyperFront.Proofs.Layout.Run
import VyperFront.Reader.Basic

/-! Expressions stand on one line as far as the layout is concerned: there are no line breaks in
them, and all brackets that they open are closed again. So the layout passes them on as they
are, and is then where it was before. -/

namespace VyperFront

open Layout

/-- Terminals without line breaks among them that lead from a number of open brackets to
another one. -/
inductive Brackets : Nat → List Terminal → Nat → Prop where
  | nil (depth : Nat) : Brackets depth [] depth
  | opener (role : Kind.role k = .opener) (rest : Brackets (depth + 1) kinds final) :
    Brackets depth (k :: kinds) final
  | closer (role : Kind.role k = .closer) (rest : Brackets depth kinds final) :
    Brackets (depth + 1) (k :: kinds) final
  | other (role : Kind.role k = .other) (rest : Brackets depth kinds final) :
    Brackets depth (k :: kinds) final

namespace Brackets

variable {depth middle final : Nat} {kinds more : List Terminal}

theorem append (first : Brackets depth kinds middle) (second : Brackets middle more final) :
    Brackets depth (kinds ++ more) final := by
  induction first with
  | nil => exact second
  | opener role _ ih => exact .opener role (ih second)
  | closer role _ ih => exact .closer role (ih second)
  | other role _ ih => exact .other role (ih second)

theorem run_eq {tokens : List SourceToken} (brackets : Brackets depth (tokens.map (·.kind)) final)
    (w : TabWidth) {s : Layout.State} (here : s.depth = depth) :
    run w s tokens = (tokens.map .token, { s with depth := final }) := by
  induction tokens generalizing depth s with
  | nil =>
    cases brackets
    rw [← here]
    rfl
  | cons t rest ih =>
    cases brackets with
    | opener role more =>
      have step : step w s t = ([.token t], { s with depth := s.depth + 1 }) := by
        rw [Layout.step, role]
      rw [run, step, ih more (by simp [here])]
      rfl
    | closer role more =>
      have step : step w s t = ([.token t], { s with depth := s.depth - 1 }) := by
        rw [Layout.step, role]
      rw [run, step, ih more (by simp [here])]
      rfl
    | other role more =>
      have step : step w s t = ([.token t], s) := by rw [Layout.step, role]
      rw [run, step, ih more here]
      rfl

end Brackets

namespace Nonterminal

/-- Whether the phrase is an expression or a part of one. These come last in the grammar. -/
def isExpression (n : Nonterminal) : Bool := Nonterminal.testlist.ctorIdx ≤ n.ctorIdx

end Nonterminal

/-- How many brackets are open after symbols of expressions, if there were some before. -/
def Symbol.nesting : Nat → List Symbol → Option Nat
  | depth, [] => some depth
  | depth, .nonterminal n :: rest => if n.isExpression then nesting depth rest else none
  | depth, .terminal k :: rest =>
    match Kind.role k, depth with
    | .opener, depth => nesting (depth + 1) rest
    | .closer, depth + 1 => nesting depth rest
    | .other, depth => nesting depth rest
    | _, _ => none

set_option maxRecDepth 10000 in
private theorem Grammar.nesting_checked : (Grammar.productions.all fun p =>
    !p.head.isExpression || Symbol.nesting 0 p.body = some 0) = true := by
  decide

namespace Derivation

/-- Whether the derivation's tokens nest, wherever they stand. -/
private def Inline (d : Derivation) : Prop :=
  ∀ depth, Brackets depth (d.yield.map (·.kind)) depth

private theorem brackets_yields {parts : List Derivation} {depth final : Nat}
    (inline : ∀ d ∈ parts, ∀ n, d.symbol = .nonterminal n → n.isExpression = true → d.Inline)
    (valid : ∀ d ∈ parts, d.Valid)
    (nesting : Symbol.nesting depth (parts.map symbol) = some final) (outer : Nat) :
    Brackets (depth + outer) ((yields parts).map (·.kind)) (final + outer) := by
  induction parts generalizing depth with
  | nil =>
    cases nesting
    exact .nil _
  | cons d rest ih =>
    obtain ⟨here, later⟩ := List.forall_mem_cons.mp inline
    obtain ⟨first, others⟩ := List.forall_mem_cons.mp valid
    rw [yields, List.map_append]
    rw [List.map_cons] at nesting
    cases first with
    | token t =>
      rw [symbol] at nesting
      unfold Symbol.nesting at nesting
      split at nesting
      · next role =>
        have rest := ih later others nesting
        rw [Nat.add_right_comm] at rest
        exact .opener role rest
      · next role =>
        rw [Nat.succ_add]
        exact .closer role (ih later others nesting)
      · next role => exact .other role (ih later others nesting)
      · cases nesting
    | @phrase p parts _ _ _ =>
      rw [symbol, Symbol.nesting] at nesting
      split at nesting
      · next expression =>
        exact (here p.head rfl expression _).append (ih later others nesting)
      · cases nesting

/-- The brackets of an expression are closed in it, and it has no line breaks. -/
theorem Valid.brackets {d : Derivation} {n : Nonterminal} (valid : d.Valid)
    (symbol : d.symbol = .nonterminal n) (expression : n.isExpression = true) (depth : Nat) :
    Brackets depth (d.yield.map (·.kind)) depth := by
  induction valid generalizing n depth with
  | token t => cases symbol
  | @phrase p parts member body valid ih =>
    have checked := List.all_eq_true.mp Grammar.nesting_checked p member
    obtain rfl := Symbol.nonterminal.inj symbol
    simp only [expression, Bool.not_true, Bool.false_or, decide_eq_true_eq] at checked
    rw [← body] at checked
    have inside := brackets_yields
      (fun d part n symbol expression => ih d part symbol expression) valid checked depth
    rwa [Nat.zero_add] at inside

end Derivation

end VyperFront
