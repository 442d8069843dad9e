import VyperFront.Proofs.Lexeme.Return
import VyperFront.Proofs.Parser.Items
import VyperFront.Proofs.Reader.Recast

namespace VyperFront

open Layout Text

namespace Text

theorem paired_withReturns {t : Text} (plain : '\r' ∉ t) (more : Text) (paired : Paired more) :
    Paired (withReturns t ++ more) := by
  rw [paired_iff, withoutReturns_withReturns plain, List.mem_append, not_or]
  exact ⟨plain, paired_iff.mp paired⟩

theorem endsLine_withoutReturns (t : Text) : (withoutReturns t).endsLine = t.endsLine := by
  have last {c : Char} {t : Text} (full : t ≠ []) : endsLine (c :: t) = endsLine t := by
    rw [endsLine, endsLine, List.getLast?_cons, List.getLast?_eq_some_getLast full,
      Option.getD_some]
  fun_induction withoutReturns t with
  | case1 => rfl
  | case2 rest ih =>
    by_cases empty : rest = []
    · rw [empty]
      rfl
    · have full := mt withoutReturns_eq_nil_iff.mp empty
      rw [last full, ih, last (List.cons_ne_nil _ _), last empty]
  | case3 c rest _ ih =>
    by_cases empty : rest = []
    · rw [empty]
      rfl
    · have full := mt withoutReturns_eq_nil_iff.mp empty
      rw [last full, ih, last empty]

end Text

namespace Recast

/-- The tokens of a text without the carriage returns in it. -/
def unreturned (text : Text) : Recast :=
  ⟨withoutReturns, fun p => ⟨(withoutReturns (text.take p.offset)).length, p.line, p.column⟩⟩

variable {text : Text}

theorem keeps_unreturned (text : Text) : (unreturned text).Keeps where
  empty := rfl
  breaks _ := feed_mem_withoutReturns_iff
  lastLine t := (lastLine_withoutReturns t).trans (withoutReturns_lastLine t).symm
  width w t := congrArg w.measure (withoutReturns_lastLine t)

/-- The cursor is in the text, and not between a carriage return and its line feed. -/
def Apart (text : Text) (c : Lexer.Cursor) : Prop :=
  ∃ before, text = before ++ c.rest ∧ c.place.offset = before.length ∧ Paired before

theorem carries_unreturned (paired : Paired text) : (unreturned text).Carries (Apart text) where
  empty := withoutReturns_eq_nil_iff
  piece {c} inside wanted := by
    obtain ⟨before, rfl, _, front⟩ := inside
    have left := front.append_iff.mp paired
    exact (Lexeme.changes_unreturned left).piece fun _ => Lexeme.longString_withoutReturns left
  goes {c _ lexeme rest} inside _ splits recast := by
    obtain ⟨before, same, offset, front⟩ := inside
    have left := front.append_iff.mp (same ▸ paired)
    have read : Paired lexeme := by
      have parts : withoutReturns lexeme ++ withoutReturns rest = withoutReturns c.rest := recast
      have plain := paired_iff.mp left
      rw [← parts, List.mem_append, not_or] at plain
      exact paired_iff.mpr plain.1
    have whole : text = (before ++ lexeme) ++ rest := by rw [same, ← splits, List.append_assoc]
    have next : (c.place.advance lexeme).offset = (before ++ lexeme).length := by
      rw [Place.offset_advance, offset, List.length_append]
    refine ⟨⟨before ++ lexeme, whole, next, front.append_iff.mpr read⟩, ?_⟩
    have here : text.take c.place.offset = before := by rw [offset, same, List.take_left]
    have there : text.take (c.place.advance lexeme).offset = before ++ lexeme := by
      rw [next, whole, List.take_left]
    obtain ⟨line, column⟩ := Place.advance_withoutReturns read
      (p := c.place) (q := (unreturned text).place c.place) rfl rfl
    have characters := Place.offset_advance ((unreturned text).place c.place) (withoutReturns lexeme)
    simp only [unreturned, here, there, front.withoutReturns_append, List.length_append]
      at line column characters ⊢
    rw [← characters, ← line, ← column]

end Recast

namespace Failure

variable {m : Recast} {source other text also : Text}

theorem line_recast (lines : ∀ p, (m.place p).line = p.line) (f : Failure) :
    (f.recast m).line = f.line := by
  cases f with
  | unexpectedToken t _ _ => exact lines t.place.start
  | unexpectedText c _ => exact lines c.place
  | badDedent e => exact lines e.place.stop

theorem column_recast (columns : ∀ p, (m.place p).column = p.column) (f : Failure) :
    (f.recast m).column = f.column := by
  cases f with
  | unexpectedToken t _ _ => exact columns t.place.start
  | unexpectedText c _ => exact columns c.place
  | badDedent e => rfl

/-- A failure over tokens that stay in their lines and columns is reported there, with the same
line of the source. -/
theorem toError_recast (lines : ∀ p, (m.place p).line = p.line)
    (columns : ∀ p, (m.place p).column = p.column)
    (context : ∀ line : Int, other.lineAt? line = source.lineAt? line) (f : Failure) :
    ((f.recast m).toError other also).line = (f.toError source text).line ∧
      ((f.recast m).toError other also).column = (f.toError source text).column ∧
      ((f.recast m).toError other also).context = (f.toError source text).context := by
  simp only [toError, line_recast lines, column_recast columns, Option.bind_some, context, and_self]

end Failure

/-- The errors of a parse, each by its line and column and the line of the source. -/
def Parse.spots (p : Parse) : List (Option Int × Option Int × Option String) :=
  p.errors.map fun e => (e.line, e.column, e.context)

namespace Reading

variable {r : Reading} {source : Text}

theorem withoutReturns_ended (paired : Paired source) :
    Paired (ended source) ∧ withoutReturns (ended source) = ended (withoutReturns source) := by
  rw [ended, ended, endsLine_withoutReturns]
  split
  · exact ⟨paired, rfl⟩
  · exact ⟨paired.append_iff.mpr (.cons (by decide) .nil), paired.withoutReturns_append _⟩

/-- Reading the text without the carriage returns comes to the same, but for these. -/
theorem read_unreturned {text : Text} (paired : Paired text) :
    r.read (withoutReturns text) = recastResult (.unreturned text) (r.read text) :=
  @run_recast _ _ _ ⟨.start, none, []⟩ _ ⟨text, .start⟩ none (Recast.carries_unreturned paired)
    (Recast.keeps_unreturned text) rfl _ _ ⟨[], rfl, rfl, .nil⟩
    (Nat.lt_succ_self _) (Nat.lt_succ_self _)

theorem isNamed_root (vyper : r.Vyper) (clean : (r.parseText source).errors = []) :
    (r.parseText source).root.isNamed = true := by
  obtain ⟨_, _, _, _, _, _, _, root⟩ := exists_items vyper clean
  rw [root]
  rfl

theorem treeOf_recast {m : Recast} (f : Fragment) : treeOf (f.recast m) = (treeOf f).recast m := by
  obtain ⟨trees, extent⟩ := f
  cases trees <;> rfl

theorem outcome_parseText (source : Text) : (r.parseText source).outcome =
    match r.read (ended source) with
    | .ok (fragment, _) => .ok (treeOf fragment)
    | .error stop => .error (stop.failure.toError source (ended source)) := by
  rw [parseText]
  cases r.read (ended source) <;> rfl

theorem parseText_withoutReturns (vyper : r.Vyper) (paired : Paired source) :
    ((r.parseText (withoutReturns source)).errors = [] ↔ (r.parseText source).errors = []) ∧
      (r.parseText (withoutReturns source)).sexp = (r.parseText source).sexp ∧
      (r.parseText (withoutReturns source)).spots = (r.parseText source).spots := by
  obtain ⟨whole, same⟩ := withoutReturns_ended paired
  have without := read_unreturned (r := r) whole
  rw [same] at without
  have outcome := outcome_parseText (r := r) (withoutReturns source)
  have returned := outcome_parseText (r := r) source
  have named := @isNamed_root _ source vyper
  rw [without] at outcome
  cases read : r.read (ended source) with
  | ok result =>
    obtain ⟨fragment, notes⟩ := result
    simp only [read, recastResult, recastWith, treeOf_recast] at outcome returned
    simp only [Parse.errors, Parse.root, returned, forall_const] at named
    simp [Parse.errors, Parse.spots, Parse.sexp, Parse.root, outcome, returned,
      Tree.sexp_recast named]
  | error stop =>
    obtain ⟨line, column, context⟩ := @Failure.toError_recast
      (.unreturned (ended source)) _ _ (ended source) (ended (withoutReturns source))
      (fun _ => rfl) (fun _ => rfl) (lineAt?_withoutReturns source) stop.failure
    simp only [read, recastResult, recastWith, Stop.recast] at outcome returned
    simp [Parse.errors, Parse.sexp, Parse.root, Parse.spots, outcome, returned, line, column,
      context]

/-- With carriage returns a source is parsed just if it is without, and to a tree with the same
S-expression. If not, both fail on the same line, in the same column. -/
theorem parseText_withReturns (vyper : r.Vyper) (plain : '\r' ∉ source) :
    ((r.parseText (withReturns source)).errors = [] ↔ (r.parseText source).errors = []) ∧
      ((r.parseText source).errors = [] →
        (r.parseText (withReturns source)).sexp = (r.parseText source).sexp) ∧
      (r.parseText (withReturns source)).spots = (r.parseText source).spots := by
  have paired := paired_withReturns plain [] .nil
  have same := withoutReturns_withReturns plain []
  rw [List.append_nil] at paired same
  rw [withoutReturns, List.append_nil] at same
  obtain ⟨parses, sexp, spots⟩ := parseText_withoutReturns vyper paired
  rw [same] at parses sexp spots
  exact ⟨parses.symm, fun _ => sexp.symm, spots.symm⟩

end Reading

namespace Parser

/-- Line ends make no difference. A source whose lines end with a carriage return and a line feed
is parsed just if it is with line feeds alone, and then to a tree with the same S-expression. If
it is not, the errors are in the same line and column, and show the same line. -/
theorem parse_withReturns {c : Config} {source : Text} {p q : Parse} (plain : '\r' ∉ source)
    (parsed : (Parser.empty.setLanguage (Artifact.language c)).parse (.text source) = .ok p)
    (also : (Parser.empty.setLanguage (Artifact.language c)).parse (.text (withReturns source)) =
      .ok q) :
    (q.errors = [] ↔ p.errors = []) ∧ (p.errors = [] → q.sexp = p.sexp) ∧ q.spots = p.spots := by
  obtain rfl := parsed_iff.mp parsed
  obtain rfl := parsed_iff.mp also
  exact Reading.parseText_withReturns rfl plain

theorem parse_withReturns_lines : '\r' ∉ Sample.lines ∧ ∃ p q : Parse,
    (Parser.empty.setLanguage (Artifact.language .default)).parse (.text Sample.lines) = .ok p ∧
      p.errors = [] ∧
      (Parser.empty.setLanguage (Artifact.language .default)).parse
          (.text "if a:\r\n b += c\r\n".toList) = .ok q ∧
        q.errors = [] ∧ q.sexp = p.sexp ∧ q.spots = p.spots := by
  have plain : '\r' ∉ Sample.lines := by decide
  obtain ⟨p, parsed, clean, _⟩ := Sample.exists_parse Sample.lines rfl
  have also := parsed_iff.mpr
    (rfl : _ = Reading.parseText ⟨automaton, Config.default.lexer, Config.default.tabWidth⟩
      (withReturns Sample.lines))
  obtain ⟨parses, sexp, spots⟩ := parse_withReturns plain parsed also
  exact ⟨plain, p, _, parsed, clean, also, parses.mpr clean, sexp clean, spots⟩

end Parser

end VyperFront
