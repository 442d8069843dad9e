import VyperFront.Proofs.Layout.Recast
import VyperFront.Proofs.Outline.Recast
import VyperFront.Proofs.Parser.Items
import VyperFront.Proofs.Reader.Onward
import VyperFront.Proofs.Tree.Geometry

namespace VyperFront

open Layout Lexeme VyperFront.Derivation Stack

namespace Reading

variable {r : Reading} {text before second : Text} {firsts tokens others : List SourceToken}
  {t : SourceToken} {b : Stage}

/-- A stage at the beginning of a line, where all that has been read are items. -/
structure Between (r : Reading) (text : Text) (firsts : List SourceToken) (b : Stage)
    (items : List Derivation) : Prop where
  passes : r.Passes (.start text) firsts b
  layout : b.layout = .start
  rests : Rests b.stack
  admits : ∀ u, ¬ Continues u → b.stack.Admits u
  kinds : (tokensOf (Layout.run r.tabWidth .start firsts).1).map Token.kind =
    (yields items).map Token.kind

/-- The source and a line feed are read to the items whatever comes after them, but for the
blank lines that come next. -/
def ReadsOn (r : Reading) (before : Text) (items : List Derivation) : Prop :=
  ∀ {more blank rest : Text}, moreLines .indentation more = (blank, rest) →
    r.tabWidth.measure (Text.lastLine blank) = 0 →
    ∃ firsts b, Between r (before ++ '\n' :: more) firsts b items ∧
      b.cursor = Lexer.Cursor.move (Place.shift (before.length + 1) (before.count '\n' + 1))
        ⟨rest, Place.start.advance blank⟩ ∧
      (blank = [] → tokensOf (Layout.run r.tabWidth .start firsts).1 = yields items)

/-- A source that ends with a line break is read on. -/
theorem exists_readsOn (vyper : r.Vyper) (clean : (r.parseText (before ++ ['\n'])).errors = [])
    (reads : r.Reads (before ++ ['\n']) tokens) (member : t ∈ tokens) (newline : t.kind = .newline)
    (start : t.place.start.offset ≤ before.length) (past : before.length < t.place.stop.offset) :
    ∃ (items : List Derivation) (extent : Option Extent), (∀ d ∈ items, d.IsItem) ∧
      (r.parseText (before ++ ['\n'])).root = .node .sourceFile extent (items.flatMap shown) ∧
      ReadsOn r before items := by
  obtain ⟨_, items, extent, same, silent, all, yields, root⟩ := exists_items vyper clean
  have ended : ended (before ++ ['\n']) = before ++ ['\n'] := by simp [ended, Text.endsLine]
  rw [ended] at same
  obtain rfl := reads.unique same
  refine ⟨items, extent, all, root, fun {more blank rest} taken flat => ?_⟩
  obtain ⟨front, p, skipped, lead, rfl, onward⟩ := reads.exists_line vyper member newline start past
  have width (blank : Text) : widthAfter r.tabWidth (Lexer.breakToken p skipped lead blank) =
      r.tabWidth.measure (Text.lastLine blank) := by
    rw [widthAfter, Lexer.breakToken, Text.lastLine_append_feed]
  have breaks (blank : Text) : '\n' ∈ (Lexer.breakToken p skipped lead blank).text := by
    simp [Lexer.breakToken]
  have goesOn := onward more
  rw [taken, width] at goesOn
  obtain ⟨b, passes, cursor⟩ := goesOn flat
  have alike : List.Forall₂ (Alike r.tabWidth) (front ++ [Lexer.breakToken p skipped lead []])
      (front ++ [Lexer.breakToken p skipped lead blank]) := by
    apply List.rel_append (List.forall₂_same.mpr fun u _ => ⟨rfl, rfl, Iff.rfl⟩)
    refine .cons ⟨rfl, ?_, iff_of_true (breaks _) (breaks _)⟩ .nil
    rw [width, flat, width]
    simp [Text.lastLine, TabWidth.measure]
  have kinds := (sameKinds_scan alike).kinds
  rw [← yields] at kinds
  obtain ⟨d, _, derives, _⟩ := exists_derives all
  obtain ⟨e, derived⟩ := derives.exists_of_kinds kinds
  have flat : widthAfter r.tabWidth (Lexer.breakToken p skipped lead blank) = 0 := by
    rw [width, flat]
  obtain ⟨layout, outputs, _⟩ := passes.at_line rfl (breaks _) flat derived
  obtain ⟨rests, admits⟩ := passes.rests_at_line rfl (breaks _) flat derived
  rw [outputs] at kinds
  refine ⟨_, b, ⟨passes, layout, rests, admits, kinds⟩, cursor, ?_⟩
  rintro rfl
  rw [← outputs, yields]

variable {items : List Derivation} {lexeme rest : Text}

/-- A source that begins with something else than a line break is read to the same items after
others as it is alone. -/
theorem ReadsOn.parseText_plain (vyper : r.Vyper) (readsOn : ReadsOn r before items)
    (first : ∀ d ∈ items, d.IsItem) (clean : (r.parseText second).errors = [])
    (some : second ≠ []) (plain : moreLines .indentation (ended second) = ([], ended second))
    (reads : r.Reads (ended second) others)
    (apart : ∀ u ∈ (others.dropWhile (·.kind = .newline)).head?, ¬ Continues u) :
    (r.parseText (before ++ '\n' :: second)).errors = [] ∧
      ∃ (extent : Option Extent) (more : List Derivation) (other : Option Extent),
        (r.parseText second).root = .node .sourceFile other (more.flatMap shown) ∧
        (∀ d ∈ more, d.IsItem) ∧
        (r.parseText (before ++ '\n' :: second)).root =
          .node .sourceFile extent (items.flatMap shown ++ (more.flatMap shown).map (.recast
            (.move (Place.shift (before.length + 1) (before.count '\n' + 1))))) := by
  obtain ⟨_, more, other, same, silent, all, yields, root⟩ := exists_items vyper clean
  obtain rfl := same.unique reads
  obtain ⟨firsts, b, between, cursor, outputs⟩ := readsOn plain
    (by simp [Text.lastLine, TabWidth.measure])
  obtain ⟨c, there, finished⟩ := (reads_iff vyper).mp reads
  have whole := between.passes.onward vyper between.layout between.rests there finished rfl
    idle_nil.rests idle_nil.awaits (Place.moves_shift _ _ _) cursor fun u member =>
      between.admits u (there.not_continues apart u member)
  generalize Place.shift (before.length + 1) (before.count '\n' + 1) = f at whole ⊢
  obtain ⟨quiet, laidOut⟩ := between.passes.scan_move between.layout silent f
  rw [← ended_after_feed some] at whole
  obtain ⟨clean, extent, shown⟩ := parseText_of_items vyper whole quiet
    (List.forall_mem_append.mpr ⟨first, List.forall_mem_map.mpr fun d member =>
      (all d member).recast (m := .move f)⟩) (by
    rw [laidOut, yields_append, yields_recast all, outputs rfl, yields])
  rw [List.flatMap_append, shown_recast all] at shown
  exact ⟨clean, extent, more, other, root, all, shown⟩

/-- A source that begins with a line break is read to the same items after others, but for that
line break. -/
theorem ReadsOn.parseText_break (vyper : r.Vyper) (readsOn : ReadsOn r before items)
    (first : ∀ d ∈ items, d.IsItem) (clean : (r.parseText second).errors = []) (some : second ≠ [])
    (begins : Lexeme.newline (ended second) = .some (lexeme, rest))
    (reads : r.Reads (ended second) others)
    (apart : ∀ u ∈ (others.dropWhile (·.kind = .newline)).head?, ¬ Continues u) :
    (r.parseText (before ++ '\n' :: second)).errors = [] ∧
      ∃ (extent : Option Extent) (more : List Derivation) (other : Option Extent),
        (r.parseText second).root = .node .sourceFile other (more.flatMap shown) ∧
        (∀ d ∈ more, d.IsItem) ∧
        (r.parseText (before ++ '\n' :: second)).root.recast .bare =
          (Tree.node .sourceFile extent (items.flatMap shown ++ more.flatMap shown)).recast .bare := by
  obtain ⟨_, listed, other, same, silent, all, yields, root⟩ := exists_items vyper clean
  obtain rfl := same.unique reads
  obtain ⟨c, there, finished⟩ := (reads_iff vyper).mp reads
  have read (wanted : TerminalSet) (isWanted : wanted.contains .newline = true) :=
    Lexer.next_of_token (c := ⟨ended second, .start⟩)
      ((Lexer.piece_eq_newline_iff isWanted).mpr begins)
  cases there with
  | nil =>
    have stops := (read .spelled (by decide)).symm.trans finished
    cases stops
  | @cons _ u a later _ goes after =>
    obtain ⟨token, cursor⟩ := Lexer.Next.token.inj
      ((read _ (contains_wants_newline r [])).symm.trans goes.read)
    have newline : u.kind = .newline := by rw [← token]
    have text : u.text = lexeme := by rw [← token]
    have breaks : '\n' ∈ u.text := text ▸ feed_mem_of_newline begins (endsLine_ended second)
    obtain ⟨flat, out, layout, rests, awaits⟩ := goes.first_line newline breaks
    rw [widthAfter, text] at flat
    obtain ⟨firsts, b, between, before, _⟩ := readsOn (moreLines_of_newline begins) flat
    rw [List.dropWhile_cons_of_pos (by simp [newline])] at apart
    have whole := between.passes.onward vyper between.layout between.rests after finished layout
      rests awaits (Place.moves_shift _ _ _) (before.trans (by rw [← cursor]))
      fun t member => between.admits t (after.not_continues apart t member)
    rw [← ended_after_feed some] at whole
    generalize Place.shift _ _ = f at whole
    obtain ⟨_, alone⟩ := @Passes.scan_append _ _ _ later _ (.cons goes .nil) layout
    rw [List.singleton_append] at alone
    obtain ⟨more, rfl, left⟩ := eq_token_of_newline all (yields.trans (by
      rw [alone, tokensOf_append, Layout.run, Layout.run_nil, List.append_nil, out]
      rfl)) newline
    rw [alone, failureOf?_append, Option.or_eq_none_iff] at silent
    obtain ⟨quiet, laidOut⟩ := between.passes.scan_move between.layout silent.2 f
    obtain ⟨_, all⟩ := List.forall_mem_cons.mp all
    obtain ⟨clean, extent, bare⟩ := @parseText_of_kinds _ _ _ (items ++ more) vyper whole quiet
      (List.forall_mem_append.mpr ⟨first, all⟩) (by
        rw [laidOut, yields_append, List.map_append, List.map_append, between.kinds, left,
          List.map_map]
        rfl)
    rw [List.flatMap_append] at bare
    exact ⟨clean, extent, more, other, root, all, bare⟩

end Reading

namespace Parser

variable {c : Config} {before second : Text} {p q : Parse} {tokens others : List SourceToken}
  {t : SourceToken}

theorem outline_of_clean {trees : List Tree} {extent : Option Extent} (clean : p.errors = [])
    (root : p.root = .node .sourceFile extent trees) (named : ∀ t ∈ trees, t.isNamed = true) :
    p.outline = trees.filterMap (Outline.declaration? p.text) := by
  have outcome := Parse.outcome_eq_ok_iff.mp ⟨clean, root⟩
  rw [Parse.outline, outcome]
  dsimp only
  rw [Outline.parts, Tree.filter_of_named named]

theorem stop_le {source : Source} {trees : List Tree} {extent : Option Extent}
    (parsed : (Parser.empty.setLanguage (Artifact.language c)).parse source = .ok p)
    (clean : p.errors = []) (root : p.root = .node .sourceFile extent trees) :
    ∀ t ∈ trees, ∀ s ∈ t.nodes, ∀ e ∈ s.extent?,
      e.stop.offset ≤ (Reading.ended p.text).length := by
  intro t member s inside e found
  obtain ⟨_, _, _, empty | settled⟩ := exists_settled parsed clean
  · rw [root] at empty
    cases empty
    cases member
  · have below : s ∈ p.root.nodes := by
      rw [root, Tree.nodes]
      exact List.mem_cons_of_mem _ (Tree.mem_nodesOf.mpr ⟨t, member, inside⟩)
    obtain ⟨_, same, placed, _⟩ := settled s below
    obtain rfl := Option.some.inj (same.symm.trans found)
    exact placed.stop.offset_le

/-- Sources are parsed one after the other as they are alone, if the first ends with a line feed
that the lexer reads in a run of line breaks, and the second neither begins with an indented
line nor goes on with a condition. The children of the root are those of both; and so are the
declarations, if the second does not begin with a line break or a comment. -/
theorem parse_append
    (parsed : (Parser.empty.setLanguage (Artifact.language c)).parse
      (.text (before ++ ['\n'])) = .ok p) (clean : p.errors = [])
    (reads : (Artifact.language c).handle.reading.Reads (Reading.ended p.text) tokens)
    (member : t ∈ tokens) (newline : t.kind = .newline)
    (start : t.place.start.offset ≤ before.length) (past : before.length < t.place.stop.offset)
    (also : (Parser.empty.setLanguage (Artifact.language c)).parse (.text second) = .ok q)
    (alsoClean : q.errors = [])
    (readsAlso : (Artifact.language c).handle.reading.Reads (Reading.ended q.text) others)
    (flush : ∀ c ∈ second.head?, c ≠ ' ' ∧ c ≠ '\t')
    (apart : ∀ u ∈ (others.dropWhile (·.kind = .newline)).head?,
      u.text ≠ "elif".toList ∧ u.text ≠ "else".toList) :
    ∃ whole, (Parser.empty.setLanguage (Artifact.language c)).parse
        (.text (before ++ '\n' :: second)) = .ok whole ∧
      whole.errors = [] ∧
      whole.root.childSexps = p.root.childSexps ++ q.root.childSexps ∧
      ((∀ c ∈ second.head?, c ≠ '\n' ∧ c ≠ '\r' ∧ c ≠ '#') →
        whole.outline = p.outline ++ q.outline) := by
  have settled := fun {trees extent} => @stop_le _ _ _ trees extent parsed clean
  obtain rfl := parsed_iff.mp parsed
  obtain rfl := parsed_iff.mp also
  rw [Reading.text_parseText] at reads readsAlso
  have apart : ∀ u ∈ (others.dropWhile (·.kind = .newline)).head?, ¬ Continues u := by
    rintro u first (same | same)
    · exact (apart u first).1 same
    · exact (apart u first).2 same
  have ends : Reading.ended (before ++ ['\n']) = before ++ ['\n'] := by
    simp [Reading.ended, Text.endsLine]
  rw [ends] at reads
  have vyper : Reading.Vyper ⟨automaton, c.lexer, c.tabWidth⟩ := rfl
  obtain ⟨items, extent, all, root, readsOn⟩ :=
    Reading.exists_readsOn vyper clean reads member newline start past
  refine ⟨_, parsed_iff.mpr rfl, ?_⟩
  by_cases none : second = []
  · subst none
    obtain ⟨_, _, rootAlso⟩ := Reading.parseText_nil vyper
    rw [rootAlso, outline_of_clean alsoClean rootAlso (List.forall_mem_nil _)]
    exact ⟨clean, (List.append_nil _).symm, fun _ => (List.append_nil _).symm⟩
  have head := Reading.head?_ended none
  have named := isNamed_shown all
  have within := settled root
  rw [Reading.text_parseText, ends] at within
  cases begins : Lexeme.newline (Reading.ended second) with
  | none =>
    have plain := moreLines_of_none begins (head ▸ flush)
    obtain ⟨right, wide, more, other, rootAlso, allMore, rootWhole⟩ :=
      readsOn.parseText_plain vyper all alsoClean none plain readsAlso apart
    have namedMore := isNamed_shown allMore
    have first : before ++ '\n' :: second = (before ++ ['\n']) ++ second := List.append_cons ..
    have length : before.length + 1 = (before ++ ['\n']).length := by simp
    rw [length] at rootWhole
    have namedMoved := Tree.forall_isNamed_recast (m := .move (Place.shift
      (before ++ ['\n']).length (before.count '\n' + 1))) namedMore
    refine ⟨right, ?_, fun _ => ?_⟩
    · rw [rootWhole, root, rootAlso, Tree.childSexps_append extent wide named namedMoved,
        Tree.childSexps_recast wide namedMore]
    · rw [outline_of_clean right rootWhole (List.forall_mem_append.mpr ⟨named, namedMoved⟩),
        outline_of_clean clean root named, outline_of_clean alsoClean rootAlso namedMore]
      simp only [Reading.text_parseText]
      rw [first]
      exact Outline.declarations_append _ second within
  | some reading =>
    obtain ⟨right, wide, more, other, rootAlso, allMore, bare⟩ :=
      readsOn.parseText_break vyper all alsoClean none begins readsAlso apart
    have namedMore := isNamed_shown allMore
    refine ⟨right, ?_, fun plain => ?_⟩
    · rw [Tree.childSexps_of_bare (List.forall_mem_append.mpr ⟨named, namedMore⟩) bare, root,
        rootAlso, Tree.childSexps_append extent other named namedMore]
    · obtain ⟨c, first, line⟩ := head_of_newline begins
      obtain ⟨noFeed, noReturn, noComment⟩ := plain c (head ▸ first)
      simp [noFeed, noReturn, noComment] at line

/-- The same lines twice. The dedent between them is at the end of the first ones. -/
theorem parse_append_lines : ∃ p whole : Parse,
    (Parser.empty.setLanguage (Artifact.language .default)).parse (.text Sample.lines) = .ok p ∧
      p.errors = [] ∧
      (Artifact.language .default).handle.reading.Reads (Reading.ended p.text) Sample.tokens ∧
      (Parser.empty.setLanguage (Artifact.language .default)).parse
          (.text "if a:\n b += c\nif a:\n b += c\n".toList) = .ok whole ∧
        whole.errors = [] ∧
        whole.root.childSexps = p.root.childSexps ++ p.root.childSexps ∧
        whole.outline = p.outline ++ p.outline := by
  obtain ⟨p, parsed, clean, _, text⟩ := Sample.exists_parse Sample.lines rfl
  have reads := Sample.reads .default rfl
  have ended : Reading.ended p.text = Sample.lines := by
    rw [text]
    rfl
  rw [← ended] at reads
  obtain ⟨whole, also, right, children, outline⟩ :=
    @parse_append _ "if a:\n b += c".toList Sample.lines _ _ _ _ Sample.tokens[7] parsed clean
      reads (by decide) rfl (by decide) (by decide) parsed clean reads (by rintro _ ⟨⟩; decide)
      (by decide)
  exact ⟨p, whole, parsed, clean, reads, also, right, children,
    outline (by rintro _ ⟨⟩; decide)⟩

end Parser

end VyperFront
