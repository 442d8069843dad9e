import VyperFront.Proofs.Expression.Shows
import VyperFront.Proofs.Grammar.Inline
import VyperFront.Proofs.Grammar.Items
import VyperFront.Proofs.Lexer.Line
import VyperFront.Proofs.Parser.Derivation

namespace VyperFront

open Layout

variable {tokens others : List SourceToken} {t last : SourceToken} {view : View} {source : Text}

namespace Derivation

variable {d : Derivation}

/-- A statement of its own in a line. -/
private def ofLine (d : Derivation) (t : SourceToken) : Derivation :=
  .phrase ⟨.statement, .splice, [.kept (.nonterminal .simpleStatements)]⟩
    [.phrase ⟨.simpleStatements, .splice,
      [.kept (.nonterminal .smallStatement), .dropped (.terminal .newline)]⟩ [d, .token t]]

private theorem isItem_ofLine (valid : d.Valid) (symbol : d.symbol = .nonterminal .smallStatement)
    (newline : t.kind = .newline) : (ofLine d t).IsItem := by
  have simple : Valid (.phrase ⟨.simpleStatements, .splice,
      [.kept (.nonterminal .smallStatement), .dropped (.terminal .newline)]⟩ [d, .token t]) := by
    refine .phrase (Grammar.mem_productions.mpr (by decide)) ?_ ?_
    · rw [List.map_cons, List.map_singleton, symbol, Derivation.symbol, newline]
      rfl
    · simp [valid, Valid.token]
  have inside := List.forall_mem_singleton.mpr simple
  exact ⟨.phrase (Grammar.mem_productions.mpr (by decide)) rfl inside, rfl⟩

/-- Where tokens have the same kinds and texts, their trees have the same views. -/
theorem Derives.views_eq {other : Derivation} (derives : d.Derives .sourceFile tokens)
    (also : other.Derives .sourceFile others)
    (same : others.map (fun t => (t.kind, t.text)) = tokens.map (fun t => (t.kind, t.text))) :
    other.trees.map Tree.view = d.trees.map Tree.view := by
  let m : Recast := .move fun _ => default
  have moved (tokens : List SourceToken) : tokens.map m.token =
      (tokens.map fun t => (t.kind, t.text)).map fun entry => written entry.1 entry.2 := by
    rw [List.map_map]
    rfl
  have again := also.recast m
  rw [moved, same, ← moved] at again
  have trees := congrArg (fun d => d.trees.map Tree.view) ((derives.recast m).unique again)
  simpa [derives.valid.trees_recast, also.valid.trees_recast, m, Function.comp_def] using trees.symm

end Derivation

private theorem exists_sourceFile (shows : Nonterminal.smallStatement.Shows tokens view)
    (newline : t.kind = .newline) :
    ∃ d : Derivation, d.Derives .sourceFile (tokens ++ [t]) ∧
      d.trees.map Tree.view = [.node .sourceFile [(none, view)]] := by
  obtain ⟨d, valid, symbol, yield, solid, views⟩ := shows.derived
  obtain ⟨whole, extent, derives, trees⟩ := Derivation.exists_derives
    (List.forall_mem_singleton.mpr (Derivation.isItem_ofLine valid symbol newline))
  have shown : [Derivation.ofLine d t].flatMap Derivation.shown = d.trees := by
    simp [Derivation.ofLine, Derivation.shown, Derivation.trees, Derivation.treesOf,
      Derivation.keep]
  refine ⟨whole, ?_, ?_⟩
  · simpa [Derivation.ofLine, Derivation.yield, Derivation.yields, yield] using derives
  · rw [trees, shown, List.map_singleton, Tree.view, Tree.views_eq_labelled solid, views]
    rfl

private theorem laidOut_of_brackets (w : TabWidth)
    (brackets : Brackets 0 (tokens.map Token.kind) 0) (newline : last.kind = .newline)
    (text : last.text = ['\n']) :
    failureOf? (scan w (tokens ++ [last])) = none ∧
      tokensOf (scan w (tokens ++ [last])) = tokens ++ [last] := by
  have run := brackets.run_eq w (s := .start) rfl
  have passes : failureOf? (tokens.map (Event.token (π := Extent))) = none := by
    simp [failureOf?_eq_none_iff, isFailure]
  have all : tokensOf (tokens.map (Event.token (π := Extent))) = tokens := by
    simp [tokensOf]
  have ends : scanFrom w ⟨0, []⟩ (lastPlace none tokens) [last] =
      [.token last, .note (.found 0 0)] := by
    have role : Kind.role last.kind = .newline := by rw [newline]; rfl
    have flat : w.measure (Text.lastLine ['\n']) = 0 := by simp [Text.lastLine, TabWidth.measure]
    simp [scanFrom, step, role, State.current, indentation, close, isFailure, text, flat,
      Layout.finish]
  have whole : scan w (tokens ++ [last]) =
      tokens.map Event.token ++ [.token last, .note (.found 0 0)] := by
    rw [scan, scanFrom_append (by rw [run]; exact passes), run]
    exact congrArg _ ends
  rw [whole, failureOf?_append, passes, tokensOf_append, all]
  exact ⟨rfl, rfl⟩

theorem Reading.ended_spaced (legible : ∀ t ∈ tokens, t.Legible) (some : tokens ≠ []) :
    ended (spaced tokens) = spaced tokens ++ ['\n'] := by
  simp [ended, Lexer.not_endsLine_spaced legible some]

/-- A statement in which all brackets are closed is derived from the line with its tokens. -/
theorem exists_derived_line (w : TabWidth) (shows : Nonterminal.smallStatement.Shows tokens view)
    (some : tokens ≠ []) (brackets : Brackets 0 (tokens.map Token.kind) 0)
    (line : Reading.ended source = spaced tokens ++ ['\n']) :
    ∃ d tree, Reading.Derived w source d ∧ d.trees = [tree] ∧
      tree.view = .node .sourceFile [(none, view)] := by
  have legible : ∀ t ∈ tokens, t.Legible := fun t member => (shows.legible t member).1
  obtain ⟨others, last, tokenizes, same, newline, text⟩ :=
    Lexer.exists_tokenizes legible some .start
  obtain ⟨model, derives, views⟩ := exists_sourceFile shows newline
  have also : (others ++ [last]).map (fun t => (t.kind, t.text)) =
      (tokens ++ [last]).map (fun t => (t.kind, t.text)) := by
    rw [List.map_append, List.map_append, same]
  have kinds {tokens others : List SourceToken} (same : others.map (fun t => (t.kind, t.text)) =
      tokens.map (fun t => (t.kind, t.text))) : others.map Token.kind = tokens.map Token.kind := by
    simpa [Function.comp_def] using congrArg (List.map Prod.fst) same
  obtain ⟨d, read⟩ := derives.exists_of_kinds (kinds also)
  obtain ⟨tree, trees⟩ := read.exists_trees
  obtain ⟨silent, passed⟩ := laidOut_of_brackets w (kinds same ▸ brackets) newline text
  refine ⟨d, tree, ⟨others ++ [last], line ▸ tokenizes, silent, passed.symm ▸ read⟩, trees, ?_⟩
  have same := derives.views_eq read also
  rw [trees, views] at same
  exact (List.cons.inj same).1

end VyperFront
