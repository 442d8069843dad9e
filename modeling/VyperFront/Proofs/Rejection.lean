import VyperFront.Proofs.FirstLine
import VyperFront.Proofs.Reader.Taken

/-! Sources that are rejected. Up to the failure they could have become a source file, with
other tokens from there on; an unexpected token is one that no source file has there. So the
place of an error is the first place where there is one. -/

namespace VyperFront

namespace Reading

variable {r : Reading} {text : Text} {stop : Stop}

/-- Where reading fails, what the machine has taken can be completed to a source file, and no
source file goes on with a token that is unexpected. -/
theorem completes_of_read_error (vyper : r.Vyper) (fails : r.read text = .error stop) :
    (∃ (rest : List SourceToken) (d : Derivation), d.Derives .sourceFile (r.taken text ++ rest)) ∧
      ∀ t expected history, stop.failure = .unexpectedToken t expected history →
        if t.kind = .endOfInput then ∀ d : Derivation, ¬ d.Derives .sourceFile (r.taken text)
        else ∀ (u : SourceToken) (rest : List SourceToken) (d : Derivation), u.kind = t.kind →
          ¬ d.Derives .sourceFile (r.taken text ++ u :: rest) := by
  obtain ⟨moved, shifts, sharp⟩ := (failsAfter_of_read fails).shifts vyper .nil rfl
  constructor
  · obtain ⟨rest, d, derives⟩ := (shifts.sound .nil).exists_derives
    rw [shifts.tokens .nil] at derives
    exact ⟨rest, d, derives⟩
  · intro t expected history failure
    have refuses := sharp t expected history failure
    split
    · next last => exact shifts.not_derives_end refuses last
    · exact fun u rest d same => shifts.not_derives (refuses.of_kind_eq same) rest d

/-- A source with errors is none of text, or it is one that cannot be read to its end. -/
theorem exists_stop {source : Source} (fails : (r.parse source).errors ≠ []) :
    (∃ bytes e, source = .bytes bytes ∧ Utf8.decode bytes = .error e) ∨
      ∃ stop, r.read (ended (r.parse source).text) = .error stop ∧
        (r.parse source).errors = [stop.failure.toError (r.parse source).text
          (ended (r.parse source).text)] := by
  have text (source : Text) (fails : (r.parseText source).errors ≠ []) :
      ∃ stop, r.read (ended (r.parseText source).text) = .error stop ∧
        (r.parseText source).errors = [stop.failure.toError (r.parseText source).text
          (ended (r.parseText source).text)] := by
    rw [text_parseText]
    rw [parseText] at fails ⊢
    cases came : r.read (ended source) with
    | ok result => simp [came, Parse.errors] at fails
    | error stop => exact ⟨stop, rfl, by simp [Parse.errors]⟩
  cases source with
  | text source => exact .inr (text source fails)
  | bytes bytes =>
    cases decoded : Utf8.decode bytes with
    | error e => exact .inl ⟨bytes, e, rfl, decoded⟩
    | ok source =>
      have same : r.parse (.bytes bytes) = r.parseText source := by rw [parse, decoded]
      rw [same] at fails ⊢
      exact .inr (text source fails)

end Reading

namespace Parser

/-- Errors are found at once. If a source is rejected, and not because it is no text, then the
tokens that were taken before the failure can be completed to a source file. If the failure
is an unexpected token, they cannot with such a token as the next one, and if it is the end
of the input, they are no source file. -/
theorem completes_of_errors {c : Config} {source : Source} {p : Parse}
    (parsed : (Parser.empty.setLanguage (Artifact.language c)).parse source = .ok p)
    (fails : p.errors ≠ []) :
    (∃ bytes e, source = .bytes bytes ∧ Utf8.decode bytes = .error e) ∨
      ∃ stop taken,
        (Artifact.language c).handle.reading.read (Reading.ended p.text) = .error stop ∧
        (Artifact.language c).handle.reading.taken (Reading.ended p.text) = taken ∧
        p.errors = [stop.failure.toError p.text (Reading.ended p.text)] ∧
        (∃ (rest : List SourceToken) (d : Derivation), d.Derives .sourceFile (taken ++ rest)) ∧
        ∀ t expected history, stop.failure = .unexpectedToken t expected history →
          if t.kind = .endOfInput then ∀ d : Derivation, ¬ d.Derives .sourceFile taken
          else ∀ (u : SourceToken) (rest : List SourceToken) (d : Derivation), u.kind = t.kind →
            ¬ d.Derives .sourceFile (taken ++ u :: rest) := by
  cases parsed
  refine (Reading.exists_stop fails).imp_right ?_
  rintro ⟨stop, read, errors⟩
  exact ⟨stop, _, read, rfl, errors,
    Reading.completes_of_read_error (r := ⟨automaton, c.lexer, c.tabWidth⟩) rfl read⟩

theorem completes_of_errors_indented : ∃ p : Parse,
    (Parser.empty.setLanguage (Artifact.language .default)).parse
        (.text ('\n' :: " pass\n".toList)) = .ok p ∧
      p.errors ≠ [] ∧ ∃ (rest : List SourceToken) (d : Derivation), d.Derives .sourceFile
        ((Artifact.language .default).handle.reading.taken (Reading.ended p.text) ++ rest) := by
  have fails := Sample.errors_indented
  rcases completes_of_errors (parsed_iff.mpr rfl) fails with ⟨_, _, wrong, _⟩ | completes
  · cases wrong
  · obtain ⟨_, _, _, rfl, _, derived, _⟩ := completes
    exact ⟨_, parsed_iff.mpr rfl, fails, derived⟩

end Parser

end VyperFront
