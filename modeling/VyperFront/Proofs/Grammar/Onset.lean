import VyperFront.Proofs.Automaton.Certificate
import VyperFront.Proofs.Grammar.Derivation

namespace VyperFront

namespace Onset

/-- What the onset says of the tokens is so. -/
def Covers (onset : Onset) : List SourceToken → Prop
  | [] => onset.empty = true
  | t :: _ => onset.first.contains t.kind = true

variable {onset other : Onset} {tokens more : List SourceToken}

theorem Covers.followedBy (first : onset.Covers tokens) (second : other.Covers more) :
    (onset.followedBy other).Covers (tokens ++ more) := by
  unfold Onset.followedBy
  cases tokens with
  | nil =>
    have empty : onset.empty = true := first
    rw [if_pos empty]
    cases more with
    | nil => exact second
    | cons t rest =>
      have later : other.first.contains t.kind = true := second
      simp [Covers, later]
  | cons t rest =>
    have here : onset.first.contains t.kind = true := first
    split
    · simp [Covers, here]
    · exact here

theorem Covers.within (covers : onset.Covers tokens)
    (first : onset.first.within other.first = true)
    (empty : onset.empty = true → other.empty = true) : other.Covers tokens := by
  cases tokens with
  | nil => exact empty covers
  | cons t rest => exact TerminalSet.contains_of_within first covers

theorem ofSymbols_covers {onsets : Table Onset} {parts : List Derivation}
    (covers : ∀ d ∈ parts, (ofSymbol onsets d.symbol).Covers d.yield) :
    (ofSymbols onsets (parts.map Derivation.symbol)).Covers (Derivation.yields parts) := by
  induction parts with
  | nil => rfl
  | cons d rest ih =>
    have later := ih fun e member => covers e (List.mem_cons_of_mem d member)
    exact (covers d List.mem_cons_self).followedBy later

end Onset

namespace Derivation

private theorem onsets_settled : Grammar.onsetsSettled = true := by
  have checked := Graph.certified
  simp only [Graph.certificate, Bool.and_eq_true] at checked
  exact checked.1.1.2

theorem Valid.covers {d : Derivation} (valid : d.Valid) :
    (Onset.ofSymbol Grammar.onsets d.symbol).Covers d.yield := by
  induction valid with
  | token t => exact (TerminalSet.contains_singleton ..).trans (decide_eq_true rfl)
  | @phrase p parts member body _ ih =>
    have settled := onsets_settled
    simp only [Grammar.onsetsSettled, List.all_eq_true, Bool.and_eq_true, Bool.or_eq_true,
      Bool.not_eq_true'] at settled
    obtain ⟨first, empty⟩ := settled p member
    have covers := Onset.ofSymbols_covers ih
    rw [body] at covers
    refine covers.within first fun here => ?_
    rcases empty with full | also
    · rw [full] at here
      cases here
    · exact also

/-- The onset of symbols is right about all their derivations. -/
theorem covers_yields {parts : List Derivation} (valid : ∀ d ∈ parts, d.Valid) :
    (Onset.ofSymbols Grammar.onsets (parts.map symbol)).Covers (yields parts) :=
  Onset.ofSymbols_covers fun d member => (valid d member).covers

end Derivation

end VyperFront
