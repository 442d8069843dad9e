import VyperFront.Proofs.Lexer.Parted
import VyperFront.Proofs.Parser.Items
import VyperFront.Proofs.Reader.Lines

/-! Line breaks within brackets. The layout leaves them out, so a space can stand in the place of
one: the lexer reads the same before it and after it. -/

namespace VyperFront

open Layout Lexeme Stack

namespace Layout

variable {w : TabWidth} {front later others : List SourceToken} {t : SourceToken}

theorem step_of_dropped {s : State} (dropped : Dropped s t) : step w s t = ([], s) := by
  rcases step_cases w s t with ⟨_, same⟩ | ⟨indents, _⟩ | ⟨stays, _⟩
  · exact same
  · exact absurd indents.2.1 dropped.2
  · exact absurd dropped stays

/-- Without a line break within brackets, tokens of the same kinds come out. -/
theorem sameKinds_of_dropped (silent : failureOf? (run w .start front).1 = none)
    (dropped : Dropped (run w .start front).2 t) (alike : List.Forall₂ (Alike w) later others) :
    SameKinds (scan w (front ++ t :: later)) (scan w (front ++ others)) := by
  have some : (lastPlace none front).isSome := by
    cases front with
    | nil => exact absurd rfl dropped.2
    | cons first rest => simp [lastPlace, List.getLast?_cons]
  rw [scan, scan, scanFrom_append silent, scanFrom_append silent, scanFrom_cons,
    step_of_dropped dropped]
  refine .append ⟨rfl, Iff.rfl⟩ (sameKinds_scanFrom alike some)

end Layout

namespace Reading

variable {r : Reading} {a b : Stage} {t : SourceToken} {front later tokens : List SourceToken}
  {w after skipped left text source : Text} {d : Derivation}

/-- Tokens before a run of line breaks are read the same with a space in its place. -/
theorem Passes.before_space (passes : r.Passes a tokens b)
    (onward : ∃ wanted, ∀ cursor, Lexer.next wanted b.cursor ≠ .stuck cursor)
    (breaks : newline after ≠ none) (here : b.cursor.rest = w ++ after) :
    ∃ u, a.cursor.rest = u ++ after ∧
      ∀ back, r.Passes (a.before (u ++ ' ' :: back)) tokens (b.before (w ++ ' ' :: back)) := by
  induction passes with
  | nil => exact ⟨w, here, fun back => .nil⟩
  | @cons a t next _ _ goes rest ih =>
    obtain ⟨v, there, passes⟩ := ih onward here
    obtain ⟨u, whole, read⟩ := Lexer.next_before_space (contains_wants_newline r a.stack) breaks
      goes.read there (rest.goesOn onward)
    refine ⟨u, whole, fun back => ?_⟩
    have moves : r.Goes (a.before (u ++ ' ' :: back)) t (next.before (v ++ ' ' :: back)) :=
      ⟨read back, goes.silent, goes.layout, goes.shifts⟩
    exact .cons moves (passes back)

/-- A space after what is skipped changes nothing for the tokens after it. -/
theorem Passes.after_space (skips : Lexer.Skips text skipped left) {p : Place}
    {layout : Layout.State} {stack : Stack}
    (passes : r.Passes ⟨⟨after, p.advance (skipped ++ [' '])⟩, layout, stack⟩ tokens b)
    (finished : b.Finished) :
    ∃ final, r.Passes ⟨⟨skipped ++ ' ' :: after, p⟩, layout, stack⟩ tokens final ∧
      final.Finished := by
  cases passes with
  | nil => exact ⟨_, .nil, (skips.next_space .spelled p after).trans finished⟩
  | cons goes rest =>
    refine ⟨b, .cons ⟨?_, goes.silent, goes.layout, goes.shifts⟩ rest, finished⟩
    exact (skips.next_space _ p after).trans goes.read

/-- With a space in the place of a line break within brackets, tokens of the same kinds come out
of the layout. -/
theorem Reads.space_for_break (vyper : r.Vyper) (reads : r.Reads text (front ++ t :: later))
    (dropped : Dropped (Layout.run r.tabWidth .start front).2 t) :
    ∃ others, r.Reads (text.take t.place.start.offset ++ ' ' :: text.drop t.place.stop.offset)
        others ∧
      SameKinds (scan r.tabWidth (front ++ t :: later)) (scan r.tabWidth others) := by
  obtain ⟨b, passes, finished⟩ := (reads_iff vyper).mp reads
  obtain ⟨m, first, last⟩ := passes_append_iff.mp passes
  cases last with
  | @cons _ _ next _ _ goes rest =>
  obtain ⟨silent, layout, _⟩ := first.shifts
  obtain ⟨skipped, left, skips, piece, place, _⟩ := Lexer.next_eq_token_iff.mp goes.read
  rw [kind_of_role dropped.1,
    Lexer.piece_eq_newline_iff (contains_wants_newline r m.stack)] at piece
  have breaks : newline left ≠ none := by simp [piece]
  have onward : ∃ wanted, ∀ cursor, Lexer.next wanted m.cursor ≠ .stuck cursor :=
    Passes.goesOn (.cons goes rest) finished.goesOn
  obtain ⟨u, whole, before⟩ := first.before_space onward breaks skips.splits.symm
  -- The line break itself changes neither the layout nor the stack.
  have drops : step r.tabWidth m.layout t = ([], m.layout) := step_of_dropped (layout ▸ dropped)
  have same : next.layout = m.layout ∧ next.stack = m.stack := by
    have shifts := goes.shifts
    rw [drops] at shifts
    refine ⟨by rw [goes.layout, drops], ?_⟩
    generalize next.stack = moved at shifts
    cases shifts
    rfl
  obtain ⟨stack, follows, _⟩ := rest.follow (simulates_states r) rfl
    (Place.moves_rebase next.cursor.place (m.cursor.place.advance (skipped ++ [' '])))
  rw [Lexer.Cursor.move, Place.rebase_self, same.1, same.2] at follows
  obtain ⟨final, after, ends⟩ := follows.after_space skips (finished.move ..)
  have read := passes_append_iff.mpr ⟨_, before next.cursor.rest, after⟩
  have parts : text = u ++ t.text ++ next.cursor.rest := by
    rw [List.append_assoc, (proper_newline piece).2]
    exact whole
  obtain ⟨start, stop⟩ : t.place.start.offset = u.length ∧
      t.place.stop.offset = (u ++ t.text).length := by
    obtain ⟨consumed, splits, here⟩ := first.exists_text
    rw [whole, ← skips.splits, ← List.append_assoc] at splits
    rw [place, here, List.append_cancel_right splits]
    simp [Place.offset_advance, Stage.start, Place.start]
  rw [start, stop, parts, List.drop_left, List.append_assoc, List.take_left]
  refine ⟨_, (reads_iff vyper).mpr ⟨final, read, ends⟩, sameKinds_of_dropped silent dropped ?_⟩
  exact List.forall₂_map_right_iff.mpr (List.forall₂_same.mpr fun u _ => alike_move _ _ u)

/-- Something is left after a line break within brackets. -/
theorem Reads.stop_lt (reads : r.Reads text (front ++ t :: later))
    (dropped : Dropped (Layout.run r.tabWidth .start front).2 t)
    (silent : failureOf? (scan r.tabWidth (front ++ t :: later)) = none)
    (derives : d.Derives .sourceFile (tokensOf (scan r.tabWidth (front ++ t :: later)))) :
    t.place.start.offset ≤ t.place.stop.offset ∧ t.place.stop.offset < text.length := by
  have outside := depth_of_derives silent derives
  obtain ⟨found, ordered⟩ := Tokenizes.found reads (Lexer.Cursor.in_start text)
  cases later with
  | nil =>
    rw [run_concat, step_of_dropped dropped] at outside
    exact absurd outside dropped.2
  | cons u more =>
    have here := (found t (by simp)).1.placed
    have there := (found u (by simp)).1.placed
    have before : t.place.stop.offset ≤ u.place.start.offset :=
      List.rel_of_pairwise_cons (List.pairwise_append.mp ordered).2.1 List.mem_cons_self
    have := here.forward
    have := there.forward
    have := there.stop.offset_le
    omega

theorem ended_replace {i j : Nat} (forward : i ≤ j) (inside : j < (ended source).length) :
    ended (source.take i ++ ' ' :: source.drop j) =
      (ended source).take i ++ ' ' :: (ended source).drop j := by
  by_cases within : j < source.length
  · have some : source.drop j ≠ [] := by simpa using within
    have split : ended source = source.take j ++ ended (source.drop j) := by
      rw [← ended_append some, List.take_append_drop]
    rw [List.append_cons, ended_append some, ← List.append_cons, split,
      List.take_append_of_le_length (by simp; omega), List.take_take, Nat.min_eq_left forward,
      List.drop_left' (by simp; omega)]
  · have added : ended source = source ++ ['\n'] := by
      rw [ended] at inside ⊢
      split at inside
      · exact absurd inside within
      · next open_ => rw [if_neg open_]
    rw [added, List.length_append, List.length_singleton] at inside
    obtain rfl : j = source.length := by omega
    rw [added, List.drop_length, List.drop_left, List.take_append_of_le_length forward]
    exact @ended_append (source.take i) [' '] (by simp)

end Reading

namespace Parser

/-- With a space in its place, a line break that the layout drops within brackets is not missed:
the text is parsed to a tree with the same S-expression, whatever comments and indentation the
line break goes over. -/
theorem parse_bracket_break {c : Config} {source : Source} {p : Parse}
    {front later : List SourceToken} {t : SourceToken}
    (parsed : (Parser.empty.setLanguage (Artifact.language c)).parse source = .ok p)
    (clean : p.errors = [])
    (reads : (Artifact.language c).handle.reading.Reads (Reading.ended p.text)
      (front ++ t :: later))
    (dropped : Dropped (Layout.run c.tabWidth .start front).2 t) :
    ∃ q, (Parser.empty.setLanguage (Artifact.language c)).parse
        (.text (p.text.take t.place.start.offset ++ ' ' :: p.text.drop t.place.stop.offset)) =
          .ok q ∧
      q.errors = [] ∧ q.sexp = p.sexp := by
  obtain ⟨tokens, d, known, silent, derives, _⟩ := exists_derivation parsed clean
  obtain rfl := reads.unique known
  obtain ⟨forward, inside⟩ := reads.stop_lt dropped silent derives
  obtain ⟨others, also, same⟩ :=
    Reading.Reads.space_for_break (r := ⟨automaton, c.lexer, c.tabWidth⟩) rfl reads dropped
  rw [← Reading.ended_replace forward inside] at also
  have here := eq_parseText parsed clean
  rw [here] at clean
  obtain ⟨right, sexp⟩ := Reading.parseText_of_sameKinds (r := ⟨automaton, c.lexer, c.tabWidth⟩)
    rfl clean reads also same
  exact ⟨_, parsed_iff.mpr rfl, right, sexp.trans (congrArg Parse.sexp here.symm)⟩

namespace Sample

/-- A name in brackets, after a comment with a bracket in it. -/
def bracketed : Text := "( # [\n a)\n".toList

def bracketedTokens : List SourceToken :=
  [⟨.leftParen, "(".toList, ⟨⟨0, 1, 1⟩, ⟨1, 1, 2⟩⟩⟩,
    ⟨.newline, "# [\n ".toList, ⟨⟨2, 1, 3⟩, ⟨7, 2, 2⟩⟩⟩,
    ⟨.name, "a".toList, ⟨⟨7, 2, 2⟩, ⟨8, 2, 3⟩⟩⟩,
    ⟨.rightParen, ")".toList, ⟨⟨8, 2, 3⟩, ⟨9, 2, 4⟩⟩⟩,
    ⟨.newline, "\n".toList, ⟨⟨9, 2, 4⟩, ⟨10, 3, 1⟩⟩⟩]

private theorem tokenizes_bracketed :
    Lexer.Tokenizes .spelled ⟨bracketed, .start⟩ bracketedTokens :=
  Lexer.tokenizes_of_parts rfl rfl rfl

private def bracketedDerivation : Derivation :=
  .phrase ⟨.sourceFile, .node .sourceFile, [.kept (.nonterminal .fileItems)]⟩
    [[.statement, .fileItems].foldl splice
      (.phrase ⟨.simpleStatements, .splice,
          [.kept (.nonterminal .smallStatement), .dropped (.terminal .newline)]⟩
        [splice (.phrase ⟨.expressionStatement, .node .expressionStatement,
            [.kept (.nonterminal .testlist)]⟩
          [single (lift (.phrase ⟨.atom, .pass, [.dropped (.terminal .leftParen),
              .kept (.nonterminal .test), .dropped (.terminal .rightParen)]⟩
            [.token bracketedTokens[0], test bracketedTokens[2], .token bracketedTokens[3]]))
            .testlist]) .smallStatement,
          .token bracketedTokens[4]])]

private theorem exists_parse_bracketed : ∃ p,
    (Parser.empty.setLanguage (Artifact.language .default)).parse (.text bracketed) = .ok p ∧
      p.errors = [] ∧ p.text = bracketed ∧
      (Artifact.language .default).handle.reading.Reads (Reading.ended p.text) bracketedTokens := by
  have silent : failureOf? (scan .eight bracketedTokens) = none := by decide
  have derives : bracketedDerivation.Derives .sourceFile (tokensOf (scan .eight bracketedTokens)) :=
    ⟨by decide, rfl, rfl⟩
  have reads : (Artifact.language .default).handle.reading.Reads bracketed bracketedTokens :=
    Reading.reads_of_derives (r := ⟨automaton, Config.default.lexer, .eight⟩) rfl
      tokenizes_bracketed silent derives
  have derived : Reading.Derived .eight bracketed bracketedDerivation :=
    ⟨bracketedTokens, tokenizes_bracketed, silent, derives⟩
  obtain ⟨p, parsed, clean, _, text⟩ := Parser.exists_parse .default derived rfl
  exact ⟨p, parsed, clean, text, text ▸ reads⟩

end Sample

/-- A space for the comment and the line break after the bracket. -/
theorem parse_bracket_break_comment : ∃ p q : Parse,
    (Parser.empty.setLanguage (Artifact.language .default)).parse (.text "( # [\n a)\n".toList) =
        .ok p ∧
      p.errors = [] ∧
      (∃ later, (Artifact.language .default).handle.reading.Reads (Reading.ended p.text)
        (Sample.bracketedTokens.take 1 ++ Sample.bracketedTokens[1] :: later)) ∧
      Dropped (Layout.run .eight .start (Sample.bracketedTokens.take 1)).2
        Sample.bracketedTokens[1] ∧
      (Parser.empty.setLanguage (Artifact.language .default)).parse (.text "(  a)\n".toList) =
        .ok q ∧
      q.errors = [] ∧ q.sexp = p.sexp := by
  obtain ⟨p, parsed, clean, text, reads⟩ := Sample.exists_parse_bracketed
  have dropped : Dropped (Layout.run .eight .start (Sample.bracketedTokens.take 1)).2
      Sample.bracketedTokens[1] := ⟨rfl, by decide⟩
  obtain ⟨q, also, right, same⟩ := @parse_bracket_break .default _ p
    (Sample.bracketedTokens.take 1) (Sample.bracketedTokens.drop 2) _ parsed clean reads dropped
  rw [text] at also
  exact ⟨p, q, parsed, clean, ⟨_, reads⟩, dropped, also, right, same⟩

end Parser

end VyperFront
