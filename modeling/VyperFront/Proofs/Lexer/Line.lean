import VyperFront.Proofs.Lexeme.Within
import VyperFront.Proofs.Lexer.Alone

namespace VyperFront.Lexeme

variable {t lexeme rest : Text} {quote : Char} {r : Recognizer}

theorem not_endsLine_of_stopped (stopped : Stopped r) (proper : Proper r)
    (found : r t = some (lexeme, rest)) : lexeme.endsLine = false := by
  rw [← Bool.not_eq_true]
  intro ends
  obtain ⟨u, rfl⟩ : ∃ u, lexeme = u ++ ['\n'] := by
    simpa [Text.endsLine, List.getLast?_eq_some_iff] using ends
  have parted : Parted ('\n' :: rest) := .cons (by simp [separators]) rest
  have splits : u ++ ['\n'] ++ rest = t := (proper found).2
  rw [← splits, List.append_assoc, List.singleton_append, stopped parted] at found
  obtain ⟨⟨front, left⟩, _, same⟩ := Option.map_eq_some_iff.mp found
  have length := congrArg List.length (Prod.mk.inj same).2
  rw [List.length_append, List.length_cons] at length
  omega

private theorem getLast?_of_cons {reading : Option (Text × Text)} {c : Char}
    (ends : ∀ {lexeme rest : Text}, reading = some (lexeme, rest) → lexeme.getLast? = some quote)
    (found : reading.map (cons c) = some (lexeme, rest)) : lexeme.getLast? = some quote := by
  obtain ⟨⟨front, left⟩, read, same⟩ := Option.map_eq_some_iff.mp found
  obtain ⟨rfl, rfl⟩ := Prod.mk.inj same
  simp [List.getLast?_cons, ends read]

theorem getLast?_untilQuote (found : untilQuote quote t = some (lexeme, rest)) :
    lexeme.getLast? = some quote := by
  fun_induction untilQuote quote t generalizing lexeme rest with
  | case1 => cases found
  | case2 =>
    cases found
    rfl
  | case3 => cases found
  | case4 => cases found
  | case5 => cases found
  | case6 d after _ _ _ ih =>
    rw [← Option.map_map] at found
    exact getLast?_of_cons (getLast?_of_cons ih) found
  | case7 c after _ _ _ ih => exact getLast?_of_cons ih found

theorem getLast?_untilTripleQuote (found : untilTripleQuote quote t = some (lexeme, rest)) :
    lexeme.getLast? = some quote := by
  fun_induction untilTripleQuote quote t generalizing lexeme rest with
  | case1 => cases found
  | case2 =>
    cases found
    rfl
  | case3 => cases found
  | case4 d after _ ih =>
    rw [← Option.map_map] at found
    exact getLast?_of_cons (getLast?_of_cons ih) found
  | case5 c after _ _ ih => exact getLast?_of_cons ih found

private theorem not_endsLine_of_getLast? (isQuote : isQuote quote = true)
    (last : lexeme.getLast? = some quote) : lexeme.endsLine = false := by
  have other : quote ≠ '\n' := (ne_of_isQuote isQuote rfl).symm
  simp [Text.endsLine, last, other]

theorem not_endsLine_of_string (found : string t = some (lexeme, rest)) :
    lexeme.endsLine = false := by
  unfold string at found
  split at found
  · split at found
    · next short =>
      obtain ⟨⟨body, left⟩, read, same⟩ := Option.map_eq_some_iff.mp found
      cases same
      refine not_endsLine_of_getLast? (Bool.and_eq_true_iff.mp short).1 ?_
      simp [cons, List.getLast?_append, List.getLast?_cons, getLast?_untilQuote read]
    · cases found
  · cases found

theorem not_endsLine_of_longString (found : longString t = some (lexeme, rest)) :
    lexeme.endsLine = false := by
  unfold longString at found
  split at found
  · split at found
    · next triple =>
      obtain ⟨⟨body, left⟩, read, same⟩ := Option.map_eq_some_iff.mp found
      cases same
      refine not_endsLine_of_getLast? (Bool.and_eq_true_iff.mp triple).1 ?_
      simp [List.getLast?_append, List.getLast?_cons, getLast?_untilTripleQuote read]
    · cases found
  · cases found

end VyperFront.Lexeme

/-! Tokens with single spaces between them, on a line. The lexer reads these tokens there, and
then the end of the line. None of the tokens ends the line itself. -/

namespace VyperFront

/-- The texts of the tokens with a space between each and the next. -/
def spaced (tokens : List SourceToken) : Text := List.intercalate [' '] (tokens.map (·.text))

namespace Lexer

open Lexeme

variable {t u : SourceToken} {tokens : List SourceToken} {p : Place}

theorem spaced_cons_cons (t u : SourceToken) (tokens : List SourceToken) :
    spaced (t :: u :: tokens) = t.text ++ ' ' :: spaced (u :: tokens) := by
  simp [spaced, List.intercalate_cons_cons]

private theorem not_endsLine_of_class {kind : Terminal} {r : Recognizer} {text lexeme rest : Text}
    (listed : (kind, r) ∈ numbersAndStrings) (solid : kind ≠ .newline)
    (found : r text = some (lexeme, rest)) : lexeme.endsLine = false := by
  have proper : Proper r := proper_numbersAndStrings listed
  simp only [numbersAndStrings, List.mem_cons, Prod.mk.injEq, List.not_mem_nil, or_false] at listed
  rcases listed with ⟨rfl, rfl⟩ | ⟨rfl, rfl⟩ | ⟨rfl, rfl⟩ | ⟨rfl, rfl⟩ | ⟨rfl, rfl⟩ | ⟨rfl, rfl⟩ |
    ⟨rfl, rfl⟩ | ⟨rfl, rfl⟩
  · exact not_endsLine_of_stopped stopped_floatNumber proper found
  · exact not_endsLine_of_stopped stopped_hexNumber proper found
  · exact not_endsLine_of_stopped stopped_binNumber proper found
  · exact not_endsLine_of_stopped stopped_octNumber proper found
  · exact not_endsLine_of_string found
  · exact not_endsLine_of_longString found
  · exact not_endsLine_of_stopped stopped_decNumber proper found
  · exact absurd rfl solid

/-- A token that is no line break does not end with a line feed. -/
theorem not_endsLine_of_legible (legible : t.Legible) : t.text.endsLine = false := by
  obtain ⟨solid, read⟩ := legible
  have reads := readBy_of_piece read
  generalize t.kind = kind at solid reads
  cases reads with
  | pattern _ listed found => exact not_endsLine_of_class listed solid found
  | name _ named | keyword _ named => exact not_endsLine_of_stopped stopped_name proper_name named
  | fixed _ _ listed found =>
    exact not_endsLine_of_stopped (stopped_of_mem_literals listed)
      (proper_literal (spelling_ne_nil listed)) found

theorem not_endsLine_spaced (legible : ∀ t ∈ tokens, t.Legible) (some : tokens ≠ []) :
    (spaced tokens).endsLine = false := by
  induction tokens with
  | nil => exact absurd rfl some
  | cons t rest ih =>
    obtain ⟨here, later⟩ := List.forall_mem_cons.mp legible
    cases rest with
    | nil => simpa [spaced] using not_endsLine_of_legible here
    | cons u rest =>
      have ends := ih later (List.cons_ne_nil _ _)
      rw [spaced_cons_cons]
      simp only [Text.endsLine, List.getLast?_append, List.getLast?_cons] at ends ⊢
      cases last : (spaced (u :: rest)).getLast? with
      | none => rfl
      | some c =>
        rw [last] at ends
        exact ends

private theorem solid_spaced (legible : ∀ t ∈ tokens, t.Legible) (after : Text)
    (some : tokens ≠ []) : Solid (spaced tokens ++ after) := by
  cases tokens with
  | nil => exact absurd rfl some
  | cons t rest =>
    obtain ⟨c, more, same, head⟩ := exists_head_of_legible (legible t List.mem_cons_self)
    obtain ⟨left, text⟩ : ∃ left, spaced (t :: rest) ++ after = c :: left := by
      cases rest with
      | nil => exact ⟨more ++ after, by simp [spaced, same]⟩
      | cons u rest => exact ⟨_, by rw [spaced_cons_cons, same]; rfl⟩
    rw [text]
    exact solid_of_spacing (none_of_head head left).2.2

private theorem Tokenizes.space {text : Text}
    (tokenizes : Tokenizes .spelled ⟨text, p.advance [' ']⟩ tokens) (solid : Solid text) :
    Tokenizes .spelled ⟨' ' :: text, p⟩ tokens := by
  have blank : spacing ([' '] ++ text) = some ([' '], text) :=
    spacing_eq_some_iff.mpr ⟨rfl, List.cons_ne_nil _ _, by simp [isSpacing], solid⟩
  have skip : next .spelled ⟨' ' :: text, p⟩ = next .spelled ⟨text, p.advance [' ']⟩ :=
    next_of_ignored (piece_eq_ignored_iff.mpr (.inr blank))
  exact tokenizes.of_next skip

/-- The lexer reads the tokens of a line where they are. -/
theorem exists_tokenizes (legible : ∀ t ∈ tokens, t.Legible) (some : tokens ≠ []) (p : Place) :
    ∃ others last, Tokenizes .spelled ⟨spaced tokens ++ ['\n'], p⟩ (others ++ [last]) ∧
      others.map (fun t => (t.kind, t.text)) = tokens.map (fun t => (t.kind, t.text)) ∧
      last.kind = .newline ∧ last.text = ['\n'] := by
  induction tokens generalizing p with
  | nil => exact absurd rfl some
  | cons t rest ih =>
    obtain ⟨here, later⟩ := List.forall_mem_cons.mp legible
    cases rest with
    | nil =>
      have parted : Parted ['\n'] := .cons (by simp [separators]) _
      have read := next_of_token (c := ⟨t.text ++ ['\n'], p⟩) (piece_of_legible here parted)
      let last : SourceToken :=
        ⟨.newline, ['\n'], ⟨p.advance t.text, (p.advance t.text).advance ['\n']⟩⟩
      have breaks : next .spelled ⟨['\n'], p.advance t.text⟩ = .token last ⟨[], last.place.stop⟩ :=
        next_of_token ((piece_eq_newline_iff (by decide)).mpr rfl)
      refine ⟨[⟨t.kind, t.text, ⟨p, p.advance t.text⟩⟩], last, ?_, rfl, rfl, rfl⟩
      simpa [spaced] using Tokenizes.more read (.more breaks (.done (next_of_nil rfl)))
    | cons u rest =>
      have read := next_of_token (c := ⟨t.text ++ ' ' :: (spaced (u :: rest) ++ ['\n']), p⟩)
        (piece_of_legible here (parted_space _))
      obtain ⟨others, last, tokenizes, same, newline, text⟩ :=
        ih later (List.cons_ne_nil _ _) ((p.advance t.text).advance [' '])
      have solid := solid_spaced later ['\n'] (List.cons_ne_nil _ _)
      refine ⟨⟨t.kind, t.text, ⟨p, p.advance t.text⟩⟩ :: others, last, ?_, ?_, newline, text⟩
      · rw [spaced_cons_cons, List.append_assoc]
        exact .more read (tokenizes.space solid)
      · rw [List.map_cons, same]
        rfl

end Lexer

end VyperFront
