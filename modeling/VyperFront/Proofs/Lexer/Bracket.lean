import VyperFront.Proofs.Layout.Order
import VyperFront.Proofs.Lexeme.Bracket
import VyperFront.Proofs.Lexer.Skip
import VyperFront.Proofs.Lexer.Spelled
import VyperFront.Proofs.Reader.Found

namespace VyperFront

open Layout Lexeme

/-- No strings and no comments begin in the text. -/
def Text.Unquoted (t : Text) : Prop := ∀ c ∈ t, c ≠ '#' ∧ isQuote c = false

instance (t : Text) : Decidable t.Unquoted := List.decidableBAll ..

/-- The brackets in the text of the terminal. -/
def Terminal.brackets (kind : Terminal) : Text :=
  match kind.spelling? with
  | some spelling => Text.brackets spelling.toList
  | none => []

/-- The brackets among the tokens. -/
def bracketsOf (tokens : List SourceToken) : Text := tokens.flatMap (·.kind.brackets)

section Tokens

variable {tokens more : List SourceToken} {t : SourceToken} {p : SourceToken → Bool}

@[simp] theorem bracketsOf_append : bracketsOf (tokens ++ more) =
    bracketsOf tokens ++ bracketsOf more := List.flatMap_append

theorem bracketsOf_cons : bracketsOf (t :: more) = t.kind.brackets ++ bracketsOf more :=
  List.flatMap_cons

theorem bracketsOf_filter (chosen : ∀ t ∈ tokens, t.kind.brackets ≠ [] → p t = true) :
    bracketsOf (tokens.filter p) = bracketsOf tokens := by
  induction tokens with
  | nil => rfl
  | cons t rest ih =>
    obtain ⟨here, later⟩ := List.forall_mem_cons.mp chosen
    cases passes : p t with
    | true => rw [List.filter_cons_of_pos passes, bracketsOf_cons, bracketsOf_cons, ih later]
    | false =>
      have none : t.kind.brackets = [] := by
        by_contra bracket
        rw [here bracket] at passes
        cases passes
      rw [List.filter_cons_of_neg (by simp [passes]), bracketsOf_cons, none, ih later]
      rfl

theorem bracketsOf_filter_eq_nil (omitted : ∀ t ∈ tokens, t.kind.brackets ≠ [] → p t = false) :
    bracketsOf (tokens.filter p) = [] := by
  rw [bracketsOf, List.flatMap_eq_nil_iff]
  intro t member
  obtain ⟨inside, passes⟩ := List.mem_filter.mp member
  by_contra bracket
  rw [omitted t inside bracket] at passes
  cases passes

end Tokens

theorem Terminal.brackets_cases (kind : Terminal) :
    kind.brackets = [] ∨ ∃ s, kind.spelling? = some s ∧ s.toList.length = 1 := by
  have checked : ∀ kind ∈ Terminal.all, kind.brackets = [] ∨
      ∃ s ∈ kind.spelling?, s.toList.length = 1 := by decide
  exact checked kind kind.mem_all

namespace Lexer

variable {wanted : TerminalSet} {t lexeme rest skipped : Text} {kind : Terminal}

/-- Classes read no brackets, unless they read quotes or comments. -/
theorem brackets_of_class {r : Recognizer} (listed : (kind, r) ∈ numbersAndStrings)
    (unquoted : t.Unquoted) (read : r t = some (lexeme, rest)) : lexeme.brackets = [] := by
  have closed : ¬ ∃ c ∈ t, isQuote c = true := by
    rintro ⟨c, member, quote⟩
    rw [(unquoted c member).2] at quote
    cases quote
  simp only [numbersAndStrings, List.mem_cons, Prod.mk.injEq, List.not_mem_nil, or_false] at listed
  rcases listed with ⟨_, rfl⟩ | ⟨_, rfl⟩ | ⟨_, rfl⟩ | ⟨_, rfl⟩ | ⟨_, rfl⟩ | ⟨_, rfl⟩ | ⟨_, rfl⟩ |
    ⟨_, rfl⟩
  · exact bare_floatNumber read
  · exact bare_based (by decide) (by decide) read
  · exact bare_based (by decide) (by decide) read
  · exact bare_based (by decide) (by decide) read
  · exact absurd (exists_quote_of_string read) closed
  · exact absurd (exists_quote_of_longString read) closed
  · exact bare_decNumber read
  · exact brackets_newline (fun member => (unquoted _ member).1 rfl) read

/-- A token has the brackets of its kind. -/
theorem brackets_piece (unquoted : t.Unquoted)
    (found : piece wanted t = .token kind lexeme rest) : lexeme.brackets = kind.brackets := by
  cases spelled : kind.spelling? with
  | some spelling => rw [Terminal.brackets, spelled, spelled_piece found spelled]
  | none =>
    rw [Terminal.brackets, spelled]
    cases readBy_of_piece found with
    | pattern _ listed read => exact brackets_of_class listed unquoted read
    | name _ named => exact bare_name named
    | keyword _ _ _ listed | fixed _ _ listed =>
      obtain ⟨_, spells, _⟩ := mem_literals.mp listed
      rw [spelled] at spells
      cases spells

theorem Skips.brackets (skips : Skips t skipped rest) : skipped.brackets = [] := by
  induction skips with
  | nil => rfl
  | cons ignored _ ih =>
    rw [Text.brackets_append, ih]
    rcases ignored with continued | spaced
    · rw [bare_continuation continued]
      rfl
    · rw [bare_spacing spaced]
      rfl

end Lexer

theorem Text.brackets_take {t : Text} (none : t.brackets = []) (n : Nat) :
    Text.brackets (t.take n) = [] :=
  Text.brackets_eq_nil_iff.mpr fun c member =>
    Text.brackets_eq_nil_iff.mp none c (List.mem_of_mem_take member)

/-- The front of a token has its bracket, if there is any of the token. -/
theorem Token.brackets_take {t : SourceToken} (spelled : t.Spelled)
    (same : t.text.brackets = t.kind.brackets) (n : Nat) :
    Text.brackets (t.text.take n) = if 0 < n then t.kind.brackets else [] := by
  rcases t.kind.brackets_cases with none | ⟨spelling, spells, single⟩
  · rw [none] at same ⊢
    rw [Text.brackets_take same, ite_self]
  · split
    · next some =>
      rw [List.take_of_length_le, same]
      rw [spelled spelling spells, single]
      exact some
    · next none =>
      rw [Nat.eq_zero_of_not_pos none]
      rfl

theorem Lexer.exists_split {wanted : TerminalSet} {c after : Cursor} {t : SourceToken}
    (read : next wanted c = .token t after) :
    ∃ skipped, Skips c.rest skipped (t.text ++ after.rest) ∧
      piece wanted (t.text ++ after.rest) = .token t.kind t.text after.rest ∧
      t.place.start = c.place.advance skipped ∧
      after.place = c.place.advance (skipped ++ t.text) := by
  obtain ⟨skipped, left, skips, piece, place, stop⟩ := next_eq_token_iff.mp read
  have splits : t.text ++ after.rest = left := by
    have front := frontOf_piece wanted left
    rw [piece] at front
    exact front.2.2
  rw [place, splits]
  exact ⟨skipped, skips, piece, rfl, stop⟩

/-- What is before an offset has the bracket of the next token, if that begins before it, and what
brackets there are after the token. -/
theorem Lexer.brackets_next {wanted : TerminalSet} {c after : Cursor} {t : SourceToken}
    (read : next wanted c = .token t after) (unquoted : c.rest.Unquoted) (n : Nat) :
    Text.brackets (c.rest.take n) =
      (if t.place.start.offset < c.place.offset + n then t.kind.brackets else []) ++
        Text.brackets (after.rest.take (c.place.offset + n - after.place.offset)) := by
  obtain ⟨skipped, skips, piece, place, stop⟩ := exists_split read
  have same := brackets_piece (fun d member => unquoted d (by simp [← skips.splits, member])) piece
  have start : t.place.start.offset < c.place.offset + n ↔ 0 < n - skipped.length := by
    rw [place, Place.offset_advance]
    omega
  have stop : c.place.offset + n - after.place.offset = n - skipped.length - t.text.length := by
    rw [stop, Place.offset_advance, List.length_append]
    omega
  rw [← skips.splits, List.take_append, List.take_append, Text.brackets_append,
    Text.brackets_append, Text.brackets_take skips.brackets,
    Token.brackets_take (next_spelled read) same, stop, if_congr start rfl rfl]
  rfl

namespace Reading

variable {r : Reading} {c : Lexer.Cursor} {s : Layout.State} {p : Progress} {text : Text}
  {tokens : List SourceToken}

/-- The brackets before an offset are those of the tokens that begin before it. -/
theorem Tokenizes.brackets_take (tokenizes : r.Tokenizes c s p tokens) (here : c.In text)
    (unquoted : c.rest.Unquoted) (n : Nat) :
    Text.brackets (c.rest.take n) =
      bracketsOf (tokens.filter fun t => t.place.start.offset < c.place.offset + n) := by
  induction tokenizes generalizing n with
  | done finished =>
    obtain ⟨skipped, skips⟩ := Lexer.next_eq_finished_iff.mp finished
    have none := skips.brackets
    rw [← List.append_nil skipped, skips.splits] at none
    exact Text.brackets_take none n
  | @more c t after p s q later read _ rest ih =>
    obtain ⟨found, _, goes, next⟩ := Lexer.next_found here read
    have forward := found.placed.forward
    have beyond (u : SourceToken) (member : u ∈ later) := ((rest.found next).1 u member).2
    have inside : after.rest.Unquoted := by
      obtain ⟨skipped, skips, _⟩ := Lexer.exists_split read
      exact fun d member => unquoted d (by simp [← skips.splits, member])
    -- No later token begins before this one has ended.
    have others : later.filter (fun u => u.place.start.offset <
          after.place.offset + (c.place.offset + n - after.place.offset)) =
        later.filter fun u => u.place.start.offset < c.place.offset + n := by
      apply List.filter_congr
      intro u member
      have := beyond u member
      rw [decide_eq_decide]
      omega
    rw [Lexer.brackets_next read unquoted, ih next inside, others]
    by_cases begun : t.place.start.offset < c.place.offset + n
    · rw [if_pos begun, List.filter_cons_of_pos (by simpa using begun), bracketsOf_cons]
    · rw [if_neg begun, List.filter_cons_of_neg (by simpa using begun)]
      rfl

/-- The brackets before an offset of a text are those of the tokens that begin before it. -/
theorem Reads.brackets_take (reads : r.Reads text tokens) (unquoted : text.Unquoted) (n : Nat) :
    Text.brackets (text.take n) =
      bracketsOf (tokens.filter fun t => t.place.start.offset < n) := by
  have counted := Tokenizes.brackets_take reads (Lexer.Cursor.in_start text) unquoted n
  have origin : Place.start.offset + n = n := Nat.zero_add n
  rw [origin] at counted
  exact counted

/-- The layout changes nothing about brackets. -/
theorem bracketsOf_scan {w : TabWidth} (silent : failureOf? (scan w tokens) = none)
    (p : SourceToken → Bool) :
    bracketsOf ((tokensOf (scan w tokens)).filter p) = bracketsOf (tokens.filter p) := by
  have plain (t : SourceToken) (chosen : (decide (t.kind.brackets ≠ []) && p t) = true) :
      Kind.role t.kind ≠ .newline ∧ ¬ Added t := by
    have checked : ∀ kind ∈ Terminal.all, kind.brackets ≠ [] →
        Kind.role kind ≠ .newline ∧ ¬ (kind = .indent ∨ kind = .dedent) := by decide
    rw [Bool.and_eq_true, decide_eq_true_eq] at chosen
    exact checked t.kind t.kind.mem_all chosen.1
  have same := filter_scanFrom plain silent
  rw [← List.filter_filter, ← List.filter_filter] at same
  have chosen (tokens : List SourceToken) : bracketsOf ((tokens.filter p).filter fun t =>
      decide (t.kind.brackets ≠ [])) = bracketsOf (tokens.filter p) :=
    bracketsOf_filter fun t _ bracket => decide_eq_true bracket
  rw [← chosen, ← chosen tokens]
  exact congrArg bracketsOf same

end Reading

end VyperFront
