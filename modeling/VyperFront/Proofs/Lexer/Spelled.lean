import VyperFront.Proofs.Reader

namespace VyperFront

/-- Whether the token has the fixed text of its kind, if there is one. -/
def Token.Spelled (t : SourceToken) : Prop :=
  ∀ spelling, t.kind.spelling? = some spelling → t.text = spelling.toList

namespace Lexer

variable {wanted : TerminalSet} {t lexeme rest : Text} {kind : Terminal} {c after : Cursor}
  {token : SourceToken} {spelling : String}

theorem spelling?_of_mem_numbersAndStrings {r : Recognizer}
    (listed : (kind, r) ∈ numbersAndStrings) : kind.spelling? = none := by
  have kinds : ∀ k ∈ numbersAndStrings.map Prod.fst, k.spelling? = none := by decide
  exact kinds kind (List.mem_map_of_mem listed)

theorem eq_of_mem_literals {text : Text} (listed : (kind, text) ∈ literals)
    (spelled : kind.spelling? = some spelling) : text = spelling.toList := by
  obtain ⟨_, same, rfl⟩ := mem_literals.mp listed
  rw [Option.some.inj (same.symm.trans spelled)]

theorem spelled_piece (found : piece wanted t = .token kind lexeme rest)
    (spelled : kind.spelling? = some spelling) : lexeme = spelling.toList := by
  cases readBy_of_piece found with
  | pattern _ listed =>
    rw [spelling?_of_mem_numbersAndStrings listed] at spelled
    cases spelled
  | name => cases spelled
  | keyword _ _ _ listed => exact eq_of_mem_literals listed spelled
  | fixed _ _ listed read =>
    rw [(Lexeme.literal_eq_some read).1]
    exact eq_of_mem_literals listed spelled

theorem next_spelled (read : next wanted c = .token token after) : token.Spelled := by
  obtain ⟨_, _, _, first, _⟩ := exists_piece_of_next read
  exact fun spelling spelled => spelled_piece first spelled

end Lexer

namespace Reading

/-- The tokens of a text have the texts of their kinds. -/
theorem Tokenizes.spelled {r : Reading} {c : Lexer.Cursor} {s : Layout.State} {p : Progress}
    {tokens : List SourceToken} (tokenizes : r.Tokenizes c s p tokens) :
    ∀ t ∈ tokens, t.Spelled := by
  induction tokenizes with
  | done => exact nofun
  | more read _ _ ih => exact List.forall_mem_cons.mpr ⟨Lexer.next_spelled read, ih⟩

end Reading

end VyperFront
