import VyperFront.Grammar.Production

/-! What can be seen from the productions alone: a program is one source file and
stands in no other phrase, only source files can be empty, and phrases that are only
renamed cannot be renamed for ever. -/

namespace VyperFront

/-- A rank that grows when a phrase gives way to the only symbol it is made of. -/
def Symbol.rank : Symbol → Nat
  | .nonterminal .block | .nonterminal .statements | .nonterminal .expressionList
  | .nonterminal .arguments => 0
  | .nonterminal .argument => 1
  | .nonterminal n => n.ctorIdx
  | .terminal _ => Nonterminal.all.length

theorem Symbol.rank_le (s : Symbol) : s.rank ≤ Nonterminal.all.length := by
  cases s with
  | terminal t => exact Nat.le_refl _
  | nonterminal n => cases n <;> decide

namespace Grammar

/-- The production of programs. -/
def whole : Production := ⟨.program, .pass, [.kept (.nonterminal .sourceFile)]⟩

/-- Whether the symbol stands where it can. -/
private def framed (p : Production) (s : Symbol) : Bool :=
  s ≠ .nonterminal .program && s ≠ .terminal .endOfInput &&
    (s ≠ .nonterminal .sourceFile || p.head = .program)

/-- Whether the production is as short as it can be. -/
private def grounded (p : Production) : Bool :=
  match p.body with
  | [] => p.head = .sourceFile
  | [s] => (Symbol.nonterminal p.head).rank.blt s.rank
  | _ => true

set_option maxRecDepth 10000 in
private theorem checked : (productions.all fun p =>
    p.body.all (framed p) && grounded p && (p.head ≠ .program || p = whole)) = true := by
  decide

variable {p : Production} {s : Symbol}

private theorem framed_of_mem (member : p ∈ productions) (inside : s ∈ p.body) :
    framed p s = true := by
  have all := List.all_eq_true.mp checked p member
  simp only [Bool.and_eq_true, List.all_eq_true] at all
  exact all.1.1 s inside

private theorem grounded_of_mem (member : p ∈ productions) : grounded p = true := by
  have all := List.all_eq_true.mp checked p member
  simp only [Bool.and_eq_true] at all
  exact all.1.2

theorem eq_whole (member : p ∈ productions) (program : p.head = .program) : p = whole := by
  have all := List.all_eq_true.mp checked p member
  simp only [Bool.and_eq_true, Bool.or_eq_true, decide_eq_true_eq] at all
  exact all.2.resolve_left (not_not_intro program)

theorem whole_mem_productions : whole ∈ productions :=
  mem_productions.mpr (List.mem_singleton.mpr rfl)

theorem program_not_mem_body (member : p ∈ productions) : .nonterminal .program ∉ p.body :=
  fun inside => by simpa [framed] using framed_of_mem member inside

theorem endOfInput_not_mem_body (member : p ∈ productions) : .terminal .endOfInput ∉ p.body :=
  fun inside => by simpa [framed] using framed_of_mem member inside

theorem eq_whole_of_sourceFile_mem_body (member : p ∈ productions)
    (inside : .nonterminal .sourceFile ∈ p.body) : p = whole :=
  eq_whole member (by simpa [framed] using framed_of_mem member inside)

theorem head_eq_sourceFile_of_body_eq_nil (member : p ∈ productions) (empty : p.body = []) :
    p.head = .sourceFile := by
  simpa [grounded, empty] using grounded_of_mem member

theorem rank_lt_of_body_eq_singleton (member : p ∈ productions) (single : p.body = [s]) :
    (Symbol.nonterminal p.head).rank < s.rank := by
  simpa [grounded, single] using grounded_of_mem member

end Grammar

end VyperFront
