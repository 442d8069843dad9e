import VyperFront.Proofs.Automaton.Word
import VyperFront.Proofs.Lexer.Agree
import VyperFront.Proofs.Parser.Derivation
import VyperFront.Proofs.Reader.Found
import VyperFront.Proofs.Reader.Stage

namespace VyperFront

open Layout Stack

namespace Lexer

variable {wanted : TerminalSet} {t lexeme rest : Text} {kind : Terminal}

/-- A keyword that is read where names are wanted is a whole word. -/
theorem not_word_of_keyword (found : piece wanted t = .token kind lexeme rest)
    (keyword : kind.isKeyword = true) (names : wanted.contains .name = true) :
    ∀ c ∈ rest.head?, isWordChar c = false := by
  cases readBy_of_piece found with
  | pattern _ listed =>
    have others : ∀ entry ∈ numbersAndStrings, entry.1.isKeyword = false := by
      simp [numbersAndStrings, Terminal.isKeyword]
    rw [others _ listed] at keyword
    cases keyword
  | name _ named | keyword _ named => exact (name_spec named).2
  | fixed _ nameless listed read =>
    rw [literal_eq_none_of_keyword listed keyword (nameless names)] at read
    cases read

end Lexer

namespace Reading

variable {r : Reading} {a b : Stage} {t : SourceToken} {text : Text} {tokens : List SourceToken}

/-- A keyword that is read is a whole word, unless it goes on with a phrase and the lexer knows
that there is none. -/
theorem Goes.not_word (vyper : r.Vyper) (goes : r.Goes a t b) (keyword : t.kind.isKeyword = true)
    (opening : r.mode = .basic ∨ t.kind.isConnective = false) :
    ∀ c ∈ b.cursor.rest.head?, isWordChar c = false := by
  obtain ⟨skipped, rest, _, first, _, _⟩ := Lexer.next_eq_token_iff.mp goes.read
  refine Lexer.not_word_of_keyword first keyword ?_
  have isWanted := (Lexer.next_eq_token goes.read).1
  cases mode : r.mode with
  | basic =>
    have all : r.wants a.stack = .spelled := by rw [wants, wanted, mode]
    rw [all]
    decide
  | contextual =>
    have some : r.wants a.stack =
        (VyperFront.automaton.state a.stack.top).expected ∪ .singleton .newline := by
      rw [wants, wanted, mode, vyper, state_machine]
    have other : Terminal.newline ≠ t.kind := fun same => by
      rw [← same] at keyword
      cases keyword
    rw [some, TerminalSet.contains_union, TerminalSet.contains_singleton, decide_eq_false other,
      Bool.or_false] at isWanted
    have begins : t.kind.isOpening = true := by
      rw [Terminal.isOpening, keyword, opening.resolve_left (by simp [mode])]
      rfl
    rw [some, TerminalSet.contains_union, Automaton.expects_name begins isWanted]
    rfl

theorem Passes.in_text (passes : r.Passes a tokens b) (here : a.cursor.In text) :
    b.cursor.In text := by
  obtain ⟨read, rest, place⟩ := passes.exists_text
  obtain ⟨before, whole, start⟩ := here
  exact ⟨before ++ read, by rw [whole, rest, List.append_assoc],
    by rw [place, start, Place.advance_append]⟩

theorem Reads.not_word (vyper : r.Vyper) (reads : r.Reads text tokens) (member : t ∈ tokens)
    (keyword : t.kind.isKeyword = true) (opening : r.mode = .basic ∨ t.kind.isConnective = false) :
    ∀ c ∈ text[t.place.stop.offset]?, isWordChar c = false := by
  obtain ⟨final, passes, _⟩ := (reads_iff vyper).mp reads
  obtain ⟨front, back, rfl⟩ := List.append_of_mem member
  obtain ⟨a, first, last⟩ := passes_append_iff.mp passes
  cases last with
  | @cons _ _ b _ _ goes _ =>
    have here := first.in_text (Lexer.Cursor.in_start text)
    obtain ⟨_, _, stop, before, whole, place⟩ := Lexer.next_found here goes.read
    have offset : t.place.stop.offset = before.length := by
      rw [← stop, place, Place.offset_advance]
      exact Nat.zero_add _
    rw [whole, offset, List.getElem?_append_right (Nat.le_refl _), Nat.sub_self,
      ← List.head?_eq_getElem?]
    exact goes.not_word vyper keyword opening

theorem getElem?_ended {source : Text} {i : Nat} {c : Char} (found : source[i]? = some c) :
    (ended source)[i]? = some c := by
  rw [ended]
  split
  · exact found
  · exact List.getElem?_append_left (List.getElem?_eq_some_iff.mp found).1 ▸ found

end Reading

/-- In a source without errors every keyword is a whole word that begins something, or that the
basic lexer has read. -/
theorem Parser.parse_keywords {c : Config} {source : Source} {p : Parse}
    (parsed : (Parser.empty.setLanguage (Artifact.language c)).parse source = .ok p)
    (clean : p.errors = []) :
    ∃ tokens : List SourceToken,
      (∀ others, (Artifact.language c).handle.reading.Reads (Reading.ended p.text) others ↔
        others = tokens) ∧
      ∀ t ∈ tokens, t.kind.isKeyword = true → c.lexer = .basic ∨ t.kind.isConnective = false →
        ∀ following, p.text[t.place.stop.offset]? = some following →
          isWordChar following = false := by
  obtain ⟨tokens, d, reads, _⟩ := Parser.exists_derivation parsed clean
  refine ⟨tokens, fun others => ⟨reads.unique, fun same => same ▸ reads⟩, ?_⟩
  intro t member keyword opening following found
  exact Reading.Reads.not_word (r := ⟨automaton, c.lexer, c.tabWidth⟩) rfl reads member keyword
    opening following (Reading.getElem?_ended found)

namespace Parser

/-! An import where the keyword and the name after it stand together as one word. -/

namespace Sample

private def importLine : Text := "from x importy\n".toList

private def importTokens : List SourceToken :=
  [⟨.kwFrom, "from".toList, ⟨⟨0, 1, 1⟩, ⟨4, 1, 5⟩⟩⟩,
    ⟨.name, "x".toList, ⟨⟨5, 1, 6⟩, ⟨6, 1, 7⟩⟩⟩,
    ⟨.kwImport, "import".toList, ⟨⟨7, 1, 8⟩, ⟨13, 1, 14⟩⟩⟩,
    ⟨.name, "y".toList, ⟨⟨13, 1, 14⟩, ⟨14, 1, 15⟩⟩⟩,
    ⟨.newline, "\n".toList, ⟨⟨14, 1, 15⟩, ⟨15, 2, 1⟩⟩⟩]

/-- A phrase that stands for another one. -/
private def joined (d : Derivation) (n : Nonterminal) : Derivation :=
  .phrase ⟨n, .splice, [.kept d.symbol]⟩ [d]

private def dottedName (name : SourceToken) : Derivation :=
  .phrase ⟨.dottedName, .node .dottedName, [.kept (.terminal .name)]⟩ [.token name]

private def importDerivation : Derivation :=
  .phrase ⟨.sourceFile, .node .sourceFile, [.kept (.nonterminal .fileItems)]⟩
    [[.statement, .fileItems].foldl joined (.phrase ⟨.simpleStatements, .splice,
        [.kept (.nonterminal .smallStatement), .dropped (.terminal .newline)]⟩
      [joined (.phrase ⟨.importFromStatement, .node .importFromStatement,
          [.dropped (.terminal .kwFrom), .kept (.nonterminal .importSource),
            .dropped (.terminal .kwImport), .kept (.nonterminal .importList)]⟩
        [.token importTokens[0], joined (dottedName importTokens[1]) .importSource,
          .token importTokens[2],
          [.importName, .importList].foldl joined (dottedName importTokens[3])]) .smallStatement,
        .token importTokens[4]])]

private theorem derives_import :
    importDerivation.Derives .sourceFile (tokensOf (scan .eight importTokens)) :=
  ⟨by decide, rfl, rfl⟩

private theorem pieces_import :
    [0, 4, 5, 6, 13, 14].map (fun i => Lexer.piece .spelled (importLine.drop i)) =
      [.token .kwFrom "from".toList (importLine.drop 4), .ignored [' '] (importLine.drop 5),
        .token .name "x".toList (importLine.drop 6), .ignored [' '] (importLine.drop 7),
        .token .name "y".toList (importLine.drop 14), .token .newline "\n".toList []] := by
  rw [Lexer.piece_eq]
  rfl

private theorem spellings_import : Lexer.spellings.all (fun (kind, spelling) =>
    kind == .kwImport || !spelling.isPrefixOf (importLine.drop 7)) = true := by
  decide

/-- Where no name is wanted, the keyword is read off the front of the word. -/
private theorem piece_import {wanted : TerminalSet} (isWanted : wanted.contains .kwImport = true)
    (nameless : wanted.contains .name = false) :
    Lexer.piece wanted (importLine.drop 7) =
      .token .kwImport "import".toList (importLine.drop 13) := by
  have classes : Lexer.firstOf wanted (importLine.drop 7) Lexer.numbersAndStrings = none :=
    Lexer.firstOf_eq_none_narrow Lexer.spelled_numbersAndStrings (by decide)
  have fixed : Lexer.firstOf wanted (importLine.drop 7)
      (Lexer.literals.map fun (kind, s) => (kind, Lexeme.literal s)) =
        some (.kwImport, "import".toList, importLine.drop 13) := by
    rw [@Lexer.firstOf_agree (.singleton .kwImport), Lexer.literals_eq]
    · rfl
    · intro entry member
      obtain ⟨⟨kind, spelling⟩, listed, rfl⟩ := List.mem_map.mp member
      rw [Lexer.literals, List.mem_mergeSort] at listed
      have checked := List.all_eq_true.mp spellings_import _ listed
      rw [Bool.or_eq_true, beq_iff_eq, Bool.not_eq_true'] at checked
      rcases checked with rfl | apart
      · exact .inl (by simp [isWanted])
      · exact .inr (if_neg (by simp [apart]))
  rw [Lexer.piece, classes, Lexer.wordPiece, nameless, fixed]
  rfl

/-- A token that either lexer reads wherever it is wanted is read in step with the machine. -/
private theorem goes_of_feeds {r : Reading} {stack moved : Stack} {c after : Lexer.Cursor}
    {t : SourceToken} (vyper : r.Vyper) (width : r.tabWidth = .eight)
    (read : (r.wants stack).contains t.kind = true → Lexer.next (r.wants stack) c = .token t after)
    (feeds : Feeds stack t (.shifted moved)) (spelled : TerminalSet.spelled.contains t.kind = true)
    (silent : failureOf? (step .eight .start t).1 = none)
    (events : tokensOf (step .eight .start t).1 = [t])
    (state : (step .eight .start t).2 = .start) :
    r.Goes ⟨c, .start, stack⟩ t ⟨after, .start, moved⟩ where
  read := by
    refine read ?_
    rw [Reading.wants, Reading.wanted]
    cases r.mode with
    | basic => exact spelled
    | contextual =>
      rw [vyper, state_machine, TerminalSet.contains_union, feeds.expected]
      rfl
  silent := by rw [width, silent]
  layout := by rw [width, state]
  shifts := by
    rw [width, events]
    exact .cons feeds .nil

private theorem nameless_of_feeds {r : Reading} (vyper : r.Vyper)
    (contextual : r.mode = .contextual) {t u : SourceToken} {first second : Stack}
    (kind : t.kind = .kwFrom) (also : u.kind = .name) (feeds : Feeds [] t (.shifted first))
    (next : Feeds first u (.shifted second)) :
    (r.wants second).contains .name = false := by
  obtain ⟨number, path, nameless⟩ := Graph.exists_path_import
  cases path with
  | cons leads path =>
    cases path with
    | cons later path =>
      cases path
      obtain rfl := Result.shifted.inj (feeds.unique (.shift (kind ▸ leads)))
      obtain rfl := Result.shifted.inj (next.unique (.shift (also ▸ later)))
      rw [Reading.wants, Reading.wanted, contextual, vyper, state_machine]
      refine (TerminalSet.contains_union _ _ _).trans ?_
      rw [top, nameless]
      rfl

private theorem reads_import :
    (Artifact.language .default).handle.reading.Reads importLine importTokens := by
  have vyper : (Artifact.language .default).handle.reading.Vyper := rfl
  have pieces := pieces_import
  simp only [List.map_cons, List.map_nil, List.cons.injEq, and_true] at pieces
  obtain ⟨at0, at4, at5, at6, at13, at14⟩ := pieces
  obtain ⟨final, shifts, _⟩ : Accepts [] importTokens (.phrase Grammar.whole [importDerivation]) :=
    accepts_nil_iff.mpr ⟨_, derives_import, rfl⟩
  rw [importTokens] at shifts
  cases shifts with | cons feeds0 shifts =>
  cases shifts with | cons feeds1 shifts =>
  cases shifts with | cons feeds2 shifts =>
  cases shifts with | cons feeds3 shifts =>
  cases shifts with | cons feeds4 shifts =>
  have nameless := nameless_of_feeds vyper rfl rfl rfl feeds0 feeds1
  have skip4 := Lexer.next_of_ignored (c := ⟨importLine.drop 4, ⟨4, 1, 5⟩⟩) at4
  have goes0 := goes_of_feeds vyper rfl (Lexer.next_narrow
    (Lexer.next_of_token (c := ⟨importLine, .start⟩) at0)) feeds0 (by decide) rfl rfl rfl
  have goes1 := goes_of_feeds vyper rfl (Lexer.next_narrow
    (skip4.trans (Lexer.next_of_token (c := ⟨importLine.drop 5, ⟨5, 1, 6⟩⟩) at5))) feeds1
    (by decide) rfl rfl rfl
  have goes2 := goes_of_feeds vyper rfl (fun isWanted =>
    (Lexer.next_of_ignored (c := ⟨importLine.drop 6, ⟨6, 1, 7⟩⟩)
      (Lexer.piece_ignored_narrow at6)).trans
    (Lexer.next_of_token (c := ⟨importLine.drop 7, ⟨7, 1, 8⟩⟩) (piece_import isWanted nameless)))
    feeds2 (by decide) rfl rfl rfl
  have goes3 := goes_of_feeds vyper rfl (Lexer.next_narrow
    (Lexer.next_of_token (c := ⟨importLine.drop 13, ⟨13, 1, 14⟩⟩) at13)) feeds3
    (by decide) rfl rfl rfl
  have goes4 := goes_of_feeds vyper rfl (Lexer.next_narrow
    (Lexer.next_of_token (c := ⟨importLine.drop 14, ⟨14, 1, 15⟩⟩) at14)) feeds4
    (by decide) rfl rfl rfl
  exact (Reading.reads_iff vyper).mpr
    ⟨_, .cons goes0 (.cons goes1 (.cons goes2 (.cons goes3 (.cons goes4 .nil)))), rfl⟩

private theorem exists_parse_import :
    ∃ p, (Parser.empty.setLanguage (Artifact.language .default)).parse (.text importLine) = .ok p ∧
      p.errors = [] ∧ p.text = importLine ∧
      (Artifact.language .default).handle.reading.Reads (Reading.ended p.text) importTokens := by
  obtain ⟨tree, trees⟩ := derives_import.exists_trees
  let vyper := (Artifact.language .default).handle.reading
  have outcome : (vyper.parseText importLine).outcome = .ok tree :=
    Reading.parseText_of_reads (r := vyper) rfl reads_import rfl derives_import trees
  obtain ⟨clean, _⟩ := Parse.outcome_eq_ok_iff.mpr outcome
  refine ⟨_, rfl, clean, Reading.text_parseText importLine, ?_⟩
  exact (Reading.text_parseText importLine).symm ▸ reads_import

end Sample

theorem parse_keywords_from : ∃ (p : Parse) (tokens : List SourceToken),
    (Parser.empty.setLanguage (Artifact.language .default)).parse
        (.text "from x importy\n".toList) = .ok p ∧
      p.errors = [] ∧
      ∃ t ∈ tokens, t.kind = .kwFrom ∧ t.kind.isKeyword = true ∧ t.kind.isConnective = false ∧
        ∀ following, p.text[t.place.stop.offset]? = some following →
          isWordChar following = false := by
  obtain ⟨p, parsed, clean, _, reads⟩ := Sample.exists_parse_import
  obtain ⟨tokens, unique, words⟩ := parse_keywords parsed clean
  obtain rfl := (unique _).mp reads
  exact ⟨p, Sample.importTokens, parsed, clean, Sample.importTokens[0], by decide, rfl, rfl, rfl,
    words _ (by decide) rfl (.inr rfl)⟩

/-- Where no name can come, a keyword may be the front of a longer word. -/
theorem parse_keywords_import : ∃ (p : Parse) (tokens : List SourceToken),
    (Parser.empty.setLanguage (Artifact.language .default)).parse
        (.text "from x importy\n".toList) = .ok p ∧
      p.errors = [] ∧
      (Artifact.language .default).handle.reading.Reads (Reading.ended p.text) tokens ∧
      ∃ t ∈ tokens, t.kind.isKeyword = true ∧
        p.text[t.place.stop.offset]? = some 'y' ∧ isWordChar 'y' = true := by
  obtain ⟨p, parsed, clean, text, reads⟩ := Sample.exists_parse_import
  refine ⟨p, Sample.importTokens, parsed, clean, reads, Sample.importTokens[2], by decide, rfl, ?_,
    by decide⟩
  rw [text]
  rfl

end Parser

end VyperFront
