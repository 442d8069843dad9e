import VyperFront.Proofs.Parser.Items
import VyperFront.Proofs.Reader.Onward

/-! A line feed before a source. It changes nothing but that the indentation of the first line,
which is ignored at the beginning of a text, counts after it. -/

namespace VyperFront

open Layout Lexeme VyperFront.Derivation Stack

namespace Text

/-- Whether the character is one of an indentation. -/
def isIndentation (c : Char) : Bool := c = ' ' || c = '\t'

/-- Whether the text begins with an indented line that is neither blank nor a comment. -/
def Indented (t : Text) : Prop :=
  t.takeWhile isIndentation ≠ [] ∧ Lexeme.newline (t.dropWhile isIndentation) = none

instance (t : Text) : Decidable t.Indented := inferInstanceAs (Decidable (_ ∧ _))

theorem exists_indentation (t : Text) :
    ∃ blanks rest, t = blanks ++ rest ∧ (∀ c ∈ blanks, c = ' ' ∨ c = '\t') ∧
      (∀ c ∈ rest.head?, c ≠ ' ' ∧ c ≠ '\t') ∧
      (t.Indented ↔ blanks ≠ [] ∧ Lexeme.newline rest = none) := by
  refine ⟨t.takeWhile isIndentation, t.dropWhile isIndentation,
    List.takeWhile_append_dropWhile.symm, fun c member => ?_, fun c first => ?_, Iff.rfl⟩
  · simpa [isIndentation] using List.mem_takeWhile_imp member
  · have stops := List.head?_dropWhile_not isIndentation t
    rw [first] at stops
    simpa [isIndentation] using stops

end Text

theorem TabWidth.measure_pos (w : TabWidth) {blanks : Text} (some : blanks ≠ [])
    (blank : ∀ c ∈ blanks, c = ' ' ∨ c = '\t') : 0 < w.measure blanks := by
  obtain ⟨c, rest, rfl⟩ := List.exists_cons_of_ne_nil some
  have tab := w.pos
  rcases blank c List.mem_cons_self with rfl | rfl
  · simp [measure]
  · simp [measure, tab]

namespace Reading

variable {r : Reading} {text other source blanks rest lexeme after : Text}
  {tokens : List SourceToken} {t u : SourceToken} {p : Place} {b : Stage}

/-- Texts that begin with runs of line breaks that are alike, and go on the same, are read
alike. -/
theorem Reads.of_break (vyper : r.Vyper) (reads : r.Reads text tokens) {f : Place → Place}
    (read : ∀ wanted : TerminalSet, wanted.contains .newline = true →
      Lexer.next wanted ⟨text, .start⟩ = .token t ⟨rest, p⟩)
    (also : ∀ wanted : TerminalSet, wanted.contains .newline = true →
      Lexer.next wanted ⟨other, .start⟩ = .token u ⟨rest, f p⟩)
    (alike : Alike r.tabWidth t u) (moves : p.Moves f) :
    ∃ others, r.Reads other others ∧ List.Forall₂ (Alike r.tabWidth) tokens others := by
  obtain ⟨c, passes, finished⟩ := (reads_iff vyper).mp reads
  cases passes with
  | nil =>
    have stops := (read .spelled (by decide)).symm.trans finished
    cases stops
  | @cons _ v a later _ goes after =>
    obtain ⟨rfl, cursor⟩ := Lexer.Next.token.inj
      ((read _ (contains_wants_newline r [])).symm.trans goes.read)
    obtain ⟨next, first, states⟩ := goes.follow (simulates_states r) rfl alike
      (also _ (contains_wants_newline r []))
    rw [← show a.cursor.place = p by rw [← cursor]] at moves
    obtain ⟨final, others, _⟩ := after.follow (simulates_states r) states moves
    rw [← cursor] at others
    refine ⟨_, (reads_iff vyper).mpr ⟨_, .cons first others, finished.move f _ _⟩, ?_⟩
    refine .cons alike (List.forall₂_map_right_iff.mpr ?_)
    exact List.forall₂_same.mpr fun u _ => alike_move _ _ u

/-- One source is parsed just if the other is, to trees with the same S-expression. -/
def Agrees (r : Reading) (source other : Text) : Prop :=
  ((r.parseText other).errors = [] ↔ (r.parseText source).errors = []) ∧
    ((r.parseText other).errors = [] → (r.parseText other).sexp = (r.parseText source).sexp)

theorem agrees_of_forth_back
    (forth : (r.parseText source).errors = [] →
      (r.parseText other).errors = [] ∧ (r.parseText other).sexp = (r.parseText source).sexp)
    (back : (r.parseText other).errors = [] →
      (r.parseText source).errors = [] ∧ (r.parseText source).sexp = (r.parseText other).sexp) :
    r.Agrees source other :=
  ⟨⟨fun clean => (back clean).1, fun clean => (forth clean).1⟩, fun clean => (back clean).2.symm⟩

theorem ended_feed (some : source ≠ []) : ended ('\n' :: source) = '\n' :: ended source :=
  @ended_append ['\n'] _ some

theorem next_feed {wanted : TerminalSet} (isWanted : wanted.contains .newline = true)
    (taken : moreLines .indentation text = (lexeme, rest)) :
    Lexer.next wanted ⟨'\n' :: text, .start⟩ =
      .token ⟨.newline, '\n' :: lexeme, ⟨.start, (Place.start.advance lexeme).shift 1 1⟩⟩
        ⟨rest, (Place.start.advance lexeme).shift 1 1⟩ := by
  have found : Lexeme.newline ('\n' :: text) = some ('\n' :: lexeme, rest) := by
    rw [Lexeme.newline, taken]
    rfl
  rw [Lexer.next_of_token ((Lexer.piece_eq_newline_iff isWanted).mpr found), ← Place.advance_shift]
  rfl

theorem next_blanks {wanted : TerminalSet} (isWanted : wanted.contains .newline = true)
    (blank : ∀ c ∈ blanks, c = ' ' ∨ c = '\t')
    (begins : Lexeme.newline rest = some (lexeme, after)) :
    Lexer.next wanted ⟨blanks ++ rest, .start⟩ =
      .token ⟨.newline, lexeme,
          ⟨Place.start.advance blanks, Place.start.advance (blanks ++ lexeme)⟩⟩
        ⟨after, Place.start.advance (blanks ++ lexeme)⟩ := by
  refine Lexer.next_eq_token_iff.mpr
    ⟨blanks, rest, ?_, (Lexer.piece_eq_newline_iff isWanted).mpr begins, rfl, rfl⟩
  cases blanks with
  | nil => exact .nil
  | cons c more =>
    have spaced : spacing (c :: more ++ rest) = some (c :: more, rest) := by
      rw [spacing, run_of_forall]
      · intro d member
        rcases blank d member with rfl | rfl <;> rfl
      · intro d first
        obtain ⟨_, same, line⟩ := head_of_newline begins
        obtain rfl := Option.some.inj (first.symm.trans same)
        rcases line with rfl | rfl | rfl <;> rfl
    have skips : Lexer.Skips (c :: more ++ rest) (c :: more ++ []) rest :=
      .cons (.inr spaced) .nil
    rwa [List.append_nil] at skips

/-- A blank first line is read with the line feed before it. -/
theorem agrees_feed_break (vyper : r.Vyper) (some : source ≠ [])
    (split : ended source = blanks ++ rest) (blank : ∀ c ∈ blanks, c = ' ' ∨ c = '\t')
    (begins : Lexeme.newline rest = .some (lexeme, after)) : r.Agrees source ('\n' :: source) := by
  have taken : moreLines .indentation (ended source) = (blanks ++ lexeme, after) := by
    rw [split, moreLines_blanks blank, moreLines_of_newline begins]
    rfl
  have breaks : '\n' ∈ lexeme := by
    apply feed_mem_of_newline begins
    have ends := endsLine_ended source
    obtain ⟨c, first, _⟩ := head_of_newline begins
    have solid : rest ≠ [] := by
      rintro rfl
      cases first
    rwa [split, Text.endsLine, List.getLast?_append_of_ne_nil _ solid] at ends
  have lastLine : Text.lastLine ('\n' :: (blanks ++ lexeme)) = Text.lastLine lexeme := by
    obtain ⟨front, back, rfl⟩ := List.append_of_mem breaks
    have assoc : '\n' :: (blanks ++ (front ++ '\n' :: back)) =
        ('\n' :: blanks ++ front) ++ '\n' :: back := by simp
    rw [assoc, Text.lastLine_append_feed, Text.lastLine_append_feed]
  have alike (p q : Extent) : Alike r.tabWidth ⟨.newline, lexeme, p⟩
      ⟨Terminal.newline, '\n' :: (blanks ++ lexeme), q⟩ :=
    .of_lastLine rfl lastLine (by simp [breaks])
  have first (wanted : TerminalSet) (isWanted : wanted.contains .newline = true) :=
    next_blanks isWanted blank begins
  have second (wanted : TerminalSet) (isWanted : wanted.contains .newline = true) :=
    next_feed isWanted taken
  apply agrees_of_forth_back
  · intro clean
    obtain ⟨tokens, _, _, reads, _⟩ := exists_items vyper clean
    obtain ⟨others, also, alike⟩ := (split ▸ reads).of_break vyper first second (alike ..)
      (Place.moves_shift 1 1 _)
    exact parseText_of_alike vyper clean reads (ended_feed some ▸ also) alike
  · intro clean
    obtain ⟨tokens, _, _, reads, _⟩ := exists_items vyper clean
    rw [ended_feed some] at reads
    have there (wanted : TerminalSet) (isWanted : wanted.contains .newline = true) :
        Lexer.next wanted ⟨ended source, .start⟩ = .token ⟨.newline, lexeme,
            ⟨Place.start.advance blanks, Place.start.advance (blanks ++ lexeme)⟩⟩
          ⟨after, ((Place.start.advance (blanks ++ lexeme)).shift 1 1).unshift 1 1⟩ := by
      rw [Place.unshift_shift, split, first wanted isWanted]
    obtain ⟨others, also, same⟩ := reads.of_break vyper second there
      (alike ..).symm (Place.moves_unshift 1 1 _)
    exact parseText_of_alike vyper clean (ended_feed some ▸ reads) also same

theorem sexp_eq_of_root {p q : Parse} {trees : List Tree} {extent other : Option Extent}
    (root : p.root = .node .sourceFile extent trees)
    (bare : q.root.recast .bare = (Tree.node .sourceFile other trees).recast .bare) :
    q.sexp = p.sexp := by
  rw [Parse.sexp, Parse.sexp, root, Tree.sexp_eq_of_bare rfl bare, Tree.sexp, Tree.sexp]

theorem parseText_feed_plain (vyper : r.Vyper) (some : source ≠ [])
    (plain : moreLines .indentation (ended source) = ([], ended source))
    (clean : (r.parseText source).errors = []) :
    (r.parseText ('\n' :: source)).errors = [] ∧
      (r.parseText ('\n' :: source)).sexp = (r.parseText source).sexp := by
  have read := next_feed (contains_wants_newline r []) plain
  have flat : widthAfter r.tabWidth ⟨Terminal.newline, ['\n'],
      (⟨.start, (Place.start.advance []).shift 1 1⟩ : Extent)⟩ = 0 := by
    simp [widthAfter, Text.lastLine, TabWidth.measure]
  obtain ⟨tokens, items, extent, reads, silent, all, yields, root⟩ := exists_items vyper clean
  obtain ⟨c, passes, finished⟩ := (reads_iff vyper).mp reads
  obtain ⟨b, goes, cursor⟩ := exists_goes_newline read rfl List.mem_cons_self flat
  obtain ⟨_, out, layout, rests, awaits⟩ := goes.first_line rfl List.mem_cons_self
  have start : r.Passes _ _ b := .cons goes .nil
  have whole := start.onward vyper layout rests passes finished rfl idle_nil.rests
    idle_nil.awaits (Place.moves_shift 1 1 _) cursor fun u _ => awaits.admits u
  obtain ⟨quiet, laidOut⟩ := start.scan_move layout silent (Place.shift 1 1)
  rw [← ended_feed some] at whole
  obtain ⟨clean, _, bare⟩ := parseText_of_kinds vyper whole quiet
    (List.forall_mem_cons.mpr ⟨isItem_newline rfl, all⟩) (by
      rw [laidOut, Layout.run, Layout.run_nil, List.append_nil, out, ← yields, List.map_append,
        List.map_map]
      rfl)
  exact ⟨clean, sexp_eq_of_root root bare⟩

/-- If it is read with a line feed before it, a first line that is not indented is read the same
alone. -/
theorem parseText_of_feed_plain (vyper : r.Vyper) (some : source ≠ [])
    (plain : moreLines .indentation (ended source) = ([], ended source))
    (clean : (r.parseText ('\n' :: source)).errors = []) :
    (r.parseText source).errors = [] ∧
      (r.parseText source).sexp = (r.parseText ('\n' :: source)).sexp := by
  obtain ⟨tokens, items, extent, reads, silent, all, yields, root⟩ := exists_items vyper clean
  rw [ended_feed some] at reads
  obtain ⟨c, passes, finished⟩ := (reads_iff vyper).mp reads
  cases passes with
  | nil =>
    have stops := (@next_feed _ _ _ .spelled (by decide) plain).symm.trans finished
    cases stops
  | @cons _ u a later _ goes after =>
    obtain ⟨rfl, cursor⟩ := Lexer.Next.token.inj
      ((next_feed (contains_wants_newline r []) plain).symm.trans goes.read)
    obtain ⟨_, out, layout, rests, awaits⟩ := goes.first_line rfl List.mem_cons_self
    obtain ⟨_, alone⟩ := @Passes.scan_append _ _ _ later _ (.cons goes .nil) layout
    rw [List.singleton_append] at alone
    rw [alone, tokensOf_append, Layout.run, Layout.run_nil, List.append_nil, out] at yields
    rw [alone, failureOf?_append, Option.or_eq_none_iff] at silent
    obtain ⟨more, rfl, left⟩ := eq_token_of_newline all yields rfl
    have start : r.Passes (.start (ended source)) [] _ := .nil
    have moves : a.cursor.place.Moves (Place.unshift 1 1) := by
      rw [← cursor]
      exact Place.moves_unshift 1 1 _
    have whole := start.onward vyper rfl idle_nil.rests after finished layout rests awaits moves
      (by rw [← cursor, Lexer.Cursor.move, Place.unshift_shift]; rfl)
      fun u _ => Awaits.admits idle_nil.awaits u
    obtain ⟨quiet, laidOut⟩ := start.scan_move rfl silent.2 (Place.unshift 1 1)
    obtain ⟨clean, _, bare⟩ := parseText_of_kinds vyper whole quiet
      (List.forall_mem_cons.mp all).2 (by
        rw [laidOut, left, List.map_append, List.map_map]
        rfl)
    exact ⟨clean, sexp_eq_of_root root bare⟩

/-- An indented first line is not read after the line feed. -/
theorem errors_feed_indented (vyper : r.Vyper) (some : source ≠ [])
    (taken : moreLines .indentation (ended source) = (blanks, rest)) (indented : blanks ≠ [])
    (blank : ∀ c ∈ blanks, c = ' ' ∨ c = '\t') : (r.parseText ('\n' :: source)).errors ≠ [] := by
  intro clean
  obtain ⟨tokens, _, _, reads, _⟩ := exists_items vyper clean
  obtain ⟨c, passes, finished⟩ := (reads_iff vyper).mp reads
  rw [ended_feed some] at passes
  cases passes with
  | nil =>
    have stops := (@next_feed _ _ _ .spelled (by decide) taken).symm.trans finished
    cases stops
  | cons goes _ =>
    obtain ⟨rfl, _⟩ := Lexer.Next.token.inj
      ((next_feed (contains_wants_newline r []) taken).symm.trans goes.read)
    obtain ⟨flat, _⟩ := goes.first_line rfl List.mem_cons_self
    have one : '\n' ∉ blanks := fun feed => by simpa using blank _ feed
    have lastLine : Text.lastLine ('\n' :: blanks) = blanks :=
      (Text.lastLine_append_feed [] blanks).trans (Text.lastLine_of_not_mem one)
    rw [widthAfter, lastLine] at flat
    exact (r.tabWidth.measure_pos indented blank).ne' flat

/-- A line feed before a source changes nothing, unless the first line is indented. Such a source
is not parsed with the line feed. -/
theorem parseText_feed (vyper : r.Vyper) :
    ((r.parseText ('\n' :: source)).errors = [] ↔
        (r.parseText source).errors = [] ∧ ¬ (ended source).Indented) ∧
      ((r.parseText ('\n' :: source)).errors = [] →
        (r.parseText ('\n' :: source)).sexp = (r.parseText source).sexp) := by
  have of_agrees (agrees : r.Agrees source ('\n' :: source)) (flush : ¬ (ended source).Indented) :=
    And.intro (agrees.1.trans (and_iff_left flush).symm) agrees.2
  obtain ⟨blanks, rest, split, blank, stops, indented⟩ := Text.exists_indentation (ended source)
  by_cases none : source = []
  · subst none
    have alike (tokens : List SourceToken) : List.Forall₂ (Alike r.tabWidth) tokens tokens :=
      List.forall₂_same.mpr fun t _ => ⟨rfl, rfl, Iff.rfl⟩
    refine of_agrees (agrees_of_forth_back (fun clean => ?_) fun clean => ?_) (by decide)
    · obtain ⟨tokens, _, _, reads, _⟩ := exists_items vyper clean
      exact @parseText_of_alike _ _ _ _ ['\n'] vyper clean reads reads (alike tokens)
    · obtain ⟨tokens, _, _, reads, _⟩ := exists_items vyper clean
      exact @parseText_of_alike _ _ _ _ [] vyper clean reads reads (alike tokens)
  cases begins : Lexeme.newline rest with
  | some reading =>
    refine of_agrees (agrees_feed_break vyper none split blank begins) fun wrong => ?_
    cases begins.symm.trans (indented.mp wrong).2
  | none =>
    have taken : moreLines .indentation (ended source) = (blanks, rest) := by
      rw [split, moreLines_blanks blank, moreLines_of_none begins stops]
      simp [append]
    by_cases flush : blanks = []
    · subst flush
      obtain rfl : rest = ended source := split.symm
      refine of_agrees ?_ fun wrong => (indented.mp wrong).1 rfl
      exact agrees_of_forth_back (parseText_feed_plain vyper none taken)
        (parseText_of_feed_plain vyper none taken)
    · have fails := errors_feed_indented vyper none taken flush blank
      have wrong := indented.mpr ⟨flush, begins⟩
      exact ⟨iff_of_false fails fun both => both.2 wrong, fun clean => absurd clean fails⟩

end Reading

namespace Parser

/-- With a line feed before it a source is parsed just if it is alone and its first line is not
indented, and then to a tree with the same S-expression. -/
theorem parse_feed {c : Config} {source : Text} {p q : Parse}
    (parsed : (Parser.empty.setLanguage (Artifact.language c)).parse (.text source) = .ok p)
    (also : (Parser.empty.setLanguage (Artifact.language c)).parse (.text ('\n' :: source)) =
      .ok q) :
    (q.errors = [] ↔ p.errors = [] ∧ ¬ (Reading.ended source).Indented) ∧
      (q.errors = [] → q.sexp = p.sexp) := by
  obtain rfl := parsed_iff.mp parsed
  obtain rfl := parsed_iff.mp also
  exact Reading.parseText_feed rfl

theorem parse_feed_lines : ∃ p q : Parse,
    (Parser.empty.setLanguage (Artifact.language .default)).parse (.text Sample.lines) = .ok p ∧
      p.errors = [] ∧
      (Parser.empty.setLanguage (Artifact.language .default)).parse
          (.text "\nif a:\n b += c\n".toList) = .ok q ∧
        q.errors = [] ∧ q.sexp = p.sexp := by
  obtain ⟨p, parsed, clean, _⟩ := Sample.exists_parse Sample.lines rfl
  have also := parsed_iff.mpr
    (rfl : _ = Reading.parseText ⟨automaton, Config.default.lexer, Config.default.tabWidth⟩
      ('\n' :: Sample.lines))
  obtain ⟨parses, same⟩ := parse_feed parsed also
  have right := parses.mpr ⟨clean, by decide⟩
  exact ⟨p, _, parsed, clean, also, right, same right⟩

namespace Sample

/-- A statement on a line that is indented. -/
private def indentedTokens : List SourceToken :=
  [⟨.kwPass, "pass".toList, ⟨⟨1, 1, 2⟩, ⟨5, 1, 6⟩⟩⟩,
    ⟨.newline, "\n".toList, ⟨⟨5, 1, 6⟩, ⟨6, 2, 1⟩⟩⟩]

private theorem tokenizes_indented :
    Lexer.Tokenizes .spelled ⟨" pass\n".toList, .start⟩ indentedTokens :=
  Lexer.tokenizes_of_parts rfl rfl rfl

/-- After a line feed that line is not read. -/
theorem errors_indented :
    (Reading.parseText ⟨automaton, Config.default.lexer, Config.default.tabWidth⟩
      ('\n' :: " pass\n".toList)).errors ≠ [] :=
  Reading.errors_feed_indented rfl (by decide)
    (show Lexeme.moreLines .indentation " pass\n".toList = ([' '], "pass\n".toList) by decide)
    (by decide) (by simp)

end Sample

/-- An indented first line is parsed, but not after a line feed. -/
theorem parse_feed_indented : ∃ p q : Parse,
    (Parser.empty.setLanguage (Artifact.language .default)).parse (.text " pass\n".toList) =
        .ok p ∧
      p.errors = [] ∧
      (Parser.empty.setLanguage (Artifact.language .default)).parse
          (.text ('\n' :: " pass\n".toList)) = .ok q ∧
        q.errors ≠ [] := by
  have derived : Reading.Derived .eight " pass\n".toList
      (Sample.passLine Sample.indentedTokens[0] Sample.indentedTokens[1]) :=
    ⟨Sample.indentedTokens, Sample.tokenizes_indented, rfl, by decide, rfl, rfl⟩
  obtain ⟨p, parsed, clean, _⟩ := exists_parse .default derived rfl
  exact ⟨p, _, parsed, clean, parsed_iff.mpr rfl, Sample.errors_indented⟩

end Parser

end VyperFront
