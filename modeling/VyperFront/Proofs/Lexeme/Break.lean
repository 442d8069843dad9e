import VyperFront.Proofs.Lexeme
import VyperFront.Proofs.Text.Place

namespace VyperFront.Lexeme

variable {t lexeme rest : Text}

theorem moreLines_of_newline (found : newline t = some (lexeme, rest)) :
    moreLines .indentation t = (lexeme, rest) := by
  unfold newline at found
  split at found
  · rw [moreLines]
    · simpa using found
    · simp
  · rw [moreLines]
    exact Option.some.inj found
  · rw [moreLines]
    · simpa using found
    · simp
  · cases found

theorem head_of_newline (found : newline t = some (lexeme, rest)) :
    ∃ c ∈ t.head?, c = '\n' ∨ c = '\r' ∨ c = '#' := by
  unfold newline at found
  split at found
  · exact ⟨_, rfl, .inl rfl⟩
  · exact ⟨_, rfl, .inr (.inl rfl)⟩
  · exact ⟨_, rfl, .inr (.inr rfl)⟩
  · cases found

theorem moreLines_of_none (none : newline t = none)
    (solid : ∀ c ∈ t.head?, c ≠ ' ' ∧ c ≠ '\t') : moreLines .indentation t = ([], t) := by
  unfold newline at none
  split at none
  · cases none
  · cases none
  · cases none
  · next noFeed noReturn noComment =>
    cases t with
    | nil => rfl
    | cons c more =>
      obtain ⟨noSpace, noTab⟩ := solid c rfl
      have feed : c ≠ '\n' := fun same => noFeed more (by rw [same])
      have comment : c ≠ '#' := fun same => noComment more (by rw [same])
      rw [moreLines]
      · simp [feed, noSpace, noTab, comment]
      · rintro tail rfl rfl
        exact noReturn tail rfl

private theorem feed_mem_of_comment (ends : t.endsLine = true) :
    '\n' ∈ (moreLines .comment t).1 := by
  induction t with
  | nil => cases ends
  | cons c rest ih =>
    rw [moreLines]
    by_cases feed : c = '\n'
    · exact feed ▸ List.mem_cons_self
    · rw [if_neg feed]
      rcases Text.endsLine_cons ends with ⟨_, same⟩ | later
      · exact absurd same feed
      · exact List.mem_cons_of_mem c (ih later)

theorem feed_mem_of_newline (found : newline t = some (lexeme, rest)) (ends : t.endsLine = true) :
    '\n' ∈ lexeme := by
  unfold newline at found
  split at found
  · cases found
    exact List.mem_cons_self
  · cases found
    exact List.mem_cons_of_mem _ List.mem_cons_self
  · next comment =>
    cases found
    rcases Text.endsLine_cons ends with ⟨_, feed⟩ | later
    · cases feed
    · exact List.mem_cons_of_mem _ (feed_mem_of_comment later)
  · cases found

/-- A run of line breaks takes in all the indentation after it. -/
theorem head_of_moreLines (mode : LineMode) (t : Text) :
    ∀ c ∈ (moreLines mode t).2.head?, c ≠ ' ' ∧ c ≠ '\t' := by
  fun_induction moreLines mode t with
  | case1 => exact fun c none => absurd none (Option.not_mem_none c)
  | case2 _ _ ih => exact ih
  | case3 _ ih => exact ih
  | case4 _ _ _ _ ih => exact ih
  | case5 _ _ _ ih => exact ih
  | case6 c rest _ solid _ =>
    intro first same
    obtain rfl := Option.some.inj same
    exact ⟨fun space => solid (.inr (.inl space)), fun tab => solid (.inr (.inr tab))⟩

theorem blank_of_moreLines (mode : LineMode) (ends : t = [] ∨ t.endsLine = true) :
    ∀ c ∈ Text.lastLine (moreLines mode t).1, c = ' ' ∨ c = '\t' := by
  have tail {c : Char} {rest : Text} (ends : c :: rest = [] ∨ Text.endsLine (c :: rest) = true) :
      rest = [] ∨ rest.endsLine = true :=
    (Text.endsLine_cons (ends.resolve_left (List.cons_ne_nil c rest))).imp_left And.left
  fun_induction moreLines mode t with
  | case1 => exact List.forall_mem_nil _
  | case2 c rest ih =>
    intro d member
    rcases Text.mem_lastLine_cons member with later | ⟨_, none⟩
    · exact ih (tail ends) d later
    · exact absurd (feed_mem_of_comment (ends.resolve_left (List.cons_ne_nil c rest))) none
  | case3 rest ih =>
    intro d member
    rw [cons, cons, Text.lastLine_cons List.mem_cons_self] at member
    rcases Text.mem_lastLine_cons member with later | ⟨_, none⟩
    · exact ih (tail (.inr (by simpa [Text.endsLine] using ends))) d later
    · exact absurd List.mem_cons_self none
  | case4 c rest broken blank ih =>
    intro d member
    rcases Text.mem_lastLine_cons member with later | ⟨rfl, none⟩
    · exact ih (tail ends) d later
    · exact blank.resolve_left fun feed => none (feed ▸ List.mem_cons_self)
  | case5 rest _ _ ih =>
    intro d member
    rcases Text.mem_lastLine_cons member with later | ⟨_, none⟩
    · exact ih (tail ends) d later
    · rcases Text.endsLine_cons (ends.resolve_left (List.cons_ne_nil '#' rest)) with ⟨_, feed⟩ | ends
      · cases feed
      · exact absurd (List.mem_cons_of_mem '#' (feed_mem_of_comment ends)) none
  | case6 c rest => exact List.forall_mem_nil _

/-- A run of line breaks ends with indentation after a line feed, and all of it, where the text
ends with a line feed. -/
theorem indentation_of_newline (found : newline t = some (lexeme, rest))
    (ends : t.endsLine = true) :
    '\n' ∈ lexeme ∧ (∀ c ∈ Text.lastLine lexeme, c = ' ' ∨ c = '\t') ∧
      ∀ c ∈ rest.head?, c ≠ ' ' ∧ c ≠ '\t' := by
  have whole := moreLines_of_newline found
  have blank := blank_of_moreLines .indentation (.inr ends)
  have stops := head_of_moreLines .indentation t
  rw [whole] at blank stops
  exact ⟨feed_mem_of_newline found ends, blank, stops⟩

end VyperFront.Lexeme
