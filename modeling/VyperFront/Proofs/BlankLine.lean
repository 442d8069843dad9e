import VyperFront.Proofs.Parser.Items

/-! Blank lines and comments. Where a run of line breaks goes over a line feed, it goes over
a blank line that is put there, too, and the layout sees no difference. -/

namespace VyperFront

open Layout Lexeme Stack

namespace Reading

/-- How a text that goes on after a line feed is ended does not depend on what is before. -/
theorem exists_tail (after : Text) :
    ∃ tail, ∀ before, ended (before ++ '\n' :: after) = before ++ '\n' :: tail := by
  cases last : after.getLast? with
  | none =>
    obtain rfl := List.getLast?_eq_none_iff.mp last
    exact ⟨[], fun before => by simp [ended, Text.endsLine]⟩
  | some c =>
    have ends (before : Text) : Text.endsLine (before ++ '\n' :: after) = (c == '\n') := by
      simp [Text.endsLine, List.getLast?_append, List.getLast?_cons, last]
    by_cases feed : c = '\n'
    · exact ⟨after, fun before => by simp [ended, ends, feed]⟩
    · exact ⟨after ++ ['\n'], fun before => by simp [ended, ends, feed]⟩

variable {r : Reading} {before after line : Text} {tokens : List SourceToken} {t : SourceToken}

private theorem advance_blank_line (p : Place) (u x : Text) (one : '\n' ∉ line) :
    p.advance (u ++ '\n' :: (line ++ '\n' :: x)) =
      (p.advance (u ++ '\n' :: x)).shift (line.length + 1) 1 := by
  have feeds : p.advance (u ++ '\n' :: line ++ ['\n']) =
      (p.advance (u ++ ['\n'])).shift (line.length + 1) 1 := by
    rw [Place.advance_feed, Place.advance_feed]
    simp only [Place.shift, Place.mk.injEq, List.length_append, List.length_cons,
      List.count_append, List.count_cons_self, List.count_eq_zero.mpr one, and_true]
    omega
  have left : u ++ '\n' :: (line ++ '\n' :: x) = (u ++ '\n' :: line ++ ['\n']) ++ x := by simp
  have right : u ++ '\n' :: x = (u ++ ['\n']) ++ x := by simp
  rw [left, right, Place.advance_append p (u ++ '\n' :: line ++ ['\n']) x, feeds,
    Place.advance_append p (u ++ ['\n']) x, Place.advance_shift]

/-- With a blank line after a line feed in a run of line breaks, the tokens are alike. -/
theorem Reads.insert_blank (vyper : r.Vyper) (blank : Blank line)
    (reads : r.Reads (before ++ '\n' :: after) tokens) (member : t ∈ tokens)
    (newline : t.kind = .newline) (start : t.place.start.offset ≤ before.length)
    (past : before.length < t.place.stop.offset) :
    ∃ others, r.Reads (before ++ '\n' :: (line ++ '\n' :: after)) others ∧
      List.Forall₂ (Alike r.tabWidth) tokens others := by
  obtain ⟨front, back, m, next, b, skipped, lead, rfl, goes, rest, finished, token, cursor,
      crosses⟩ :=
    reads.exists_over vyper member newline start past
  obtain ⟨first, changed⟩ := crosses (line ++ '\n' :: after)
  have one : '\n' ∉ line := by
    obtain ⟨blanks, comment, rfl, spaces, inside, _⟩ := blank
    simp only [List.mem_append, not_or]
    exact ⟨fun feed => by simpa using spaces _ feed, inside⟩
  have goesOn : moreLines .indentation (line ++ '\n' :: after) =
      (line ++ '\n' :: (moreLines .indentation after).1, (moreLines .indentation after).2) := by
    rw [moreLines_blank blank]
    simp [append]
  rw [goesOn] at changed
  have alike : Alike r.tabWidth t (Lexer.breakToken m.cursor.place skipped lead
      (line ++ '\n' :: (moreLines .indentation after).1)) := by
    subst token
    refine .of_lastLine rfl ?_ (by simp [Lexer.breakToken])
    have split : lead ++ '\n' :: (line ++ '\n' :: (moreLines .indentation after).1) =
        (lead ++ '\n' :: line) ++ '\n' :: (moreLines .indentation after).1 := by simp
    rw [Lexer.breakToken, Lexer.breakToken, split, Text.lastLine_append_feed,
      Text.lastLine_append_feed]
  obtain ⟨also, moves, states⟩ := goes.follow (simulates_states r) rfl alike changed
  obtain ⟨final, later, _⟩ := rest.follow (simulates_states r) states
    (Place.moves_shift (line.length + 1) 1 _)
  rw [cursor, token, Lexer.Cursor.move, Lexer.breakToken, ← advance_blank_line _ _ _ one] at later
  refine ⟨_, (reads_iff vyper).mpr
    ⟨_, passes_append_iff.mpr ⟨_, first, .cons moves later⟩, finished.move _ _ _⟩, ?_⟩
  apply List.rel_append
  · exact List.forall₂_same.mpr fun u _ => ⟨rfl, rfl, Iff.rfl⟩
  · refine .cons alike (List.forall₂_map_right_iff.mpr ?_)
    exact List.forall₂_same.mpr fun u _ => alike_move _ _ u

end Reading

namespace Parser

/-- A blank line or a comment changes no parse, wherever it is put after a line feed that the
lexer reads in a run of line breaks. -/
theorem parse_blank_line {c : Config} {before after line : Text} {p : Parse}
    {tokens : List SourceToken} {t : SourceToken}
    (parsed : (Parser.empty.setLanguage (Artifact.language c)).parse
      (.text (before ++ '\n' :: after)) = .ok p) (clean : p.errors = [])
    (reads : (Artifact.language c).handle.reading.Reads (Reading.ended p.text) tokens)
    (member : t ∈ tokens) (newline : t.kind = .newline)
    (start : t.place.start.offset ≤ before.length) (past : before.length < t.place.stop.offset)
    (blank : Blank line) :
    ∃ q, (Parser.empty.setLanguage (Artifact.language c)).parse
        (.text (before ++ '\n' :: (line ++ '\n' :: after))) = .ok q ∧
      q.errors = [] ∧ q.sexp = p.sexp := by
  obtain rfl := parsed_iff.mp parsed
  rw [Reading.text_parseText] at reads
  obtain ⟨tail, ends⟩ := Reading.exists_tail after
  have text : Reading.ended (before ++ '\n' :: (line ++ '\n' :: after)) =
      before ++ '\n' :: (line ++ '\n' :: tail) := by
    have same := ends (before ++ '\n' :: line)
    rwa [List.append_assoc, List.append_assoc, List.cons_append, List.cons_append] at same
  rw [ends] at reads
  obtain ⟨others, also, alike⟩ :=
    Reading.Reads.insert_blank (r := ⟨automaton, c.lexer, c.tabWidth⟩) rfl blank reads member
      newline start past
  refine ⟨_, parsed_iff.mpr rfl, ?_⟩
  exact Reading.parseText_of_alike rfl clean (ends before ▸ reads) (text ▸ also) alike

/-- A line with a comment, after the first line. -/
theorem parse_blank_line_lines : ∃ p q : Parse,
    (Parser.empty.setLanguage (Artifact.language .default)).parse (.text Sample.lines) = .ok p ∧
      p.errors = [] ∧
      (Artifact.language .default).handle.reading.Reads (Reading.ended p.text) Sample.tokens ∧
      Blank "\t  # (".toList ∧
      (Parser.empty.setLanguage (Artifact.language .default)).parse
          (.text "if a:\n\t  # (\n b += c\n".toList) = .ok q ∧
        q.errors = [] ∧ q.sexp = p.sexp := by
  obtain ⟨p, parsed, clean, _, text⟩ := Sample.exists_parse Sample.lines rfl
  have reads := Sample.reads .default rfl
  have ended : Reading.ended p.text = Sample.lines := by
    rw [text]
    rfl
  rw [← ended] at reads
  have blank : Blank "\t  # (".toList :=
    ⟨"\t  ".toList, "# (".toList, rfl, by simp, by simp, .inr rfl⟩
  obtain ⟨q, also, right, same⟩ :=
    @parse_blank_line _ "if a:".toList " b += c\n".toList _ _ _ Sample.tokens[3] parsed clean reads
      (by decide) rfl (by decide) (by decide) blank
  exact ⟨p, q, parsed, clean, reads, blank, also, right, same⟩

end Parser

end VyperFront
