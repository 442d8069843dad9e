import VyperFront.Proofs.Layout
import VyperFront.Text.Place

namespace VyperFront

/-- Whether a token ends before the other begins. -/
def Token.Before (t u : Token κ Extent) : Prop :=
  t.place.stop.offset ≤ u.place.start.offset

namespace Layout

variable {κ : Type} [Kind κ]

/-- Whether a token is one that the layout adds. -/
def Added (t : Token κ π) : Prop := t.kind = Kind.indent ∨ t.kind = Kind.dedent

/-- How a token stands to one that comes later. -/
structure Precedes (t u : Token κ Extent) : Prop where
  start_le : t.place.start.offset ≤ u.place.start.offset
  stop_le : t.place.stop.offset ≤ u.place.stop.offset
  before : ¬ Added u → t.Before u

variable {w : TabWidth} {s : State} {t u : Token κ Extent} {tokens : List (Token κ Extent)}
  {last : Option Extent} {place : Extent}

theorem Precedes.of_place_eq (same : t.place = u.place) (added : Added u) : Precedes t u where
  start_le := same ▸ Nat.le_refl _
  stop_le := same ▸ Nat.le_refl _
  before := fun real => absurd added real

theorem place_of_mem_indentation (member : u ∈ tokensOf (indentation w s t).1) :
    u.place = t.place := by
  by_cases deeper : s.current < widthAfter w t
  · rw [tokensOf_indentation_of_lt deeper, List.mem_singleton] at member
    rw [member]
  · rw [tokensOf_indentation_of_le (Nat.le_of_not_lt deeper)] at member
    rw [List.eq_of_mem_replicate member]

/-- A token brings out nothing, or itself before what is added at its place. -/
theorem tokensOf_step_cases (w : TabWidth) (s : State) (t : Token κ Extent) :
    (tokensOf (step w s t).1 = [] ∧ Kind.role t.kind = .newline) ∨
      ∃ more, tokensOf (step w s t).1 = t :: more ∧
        ∀ u ∈ more, Added u ∧ u.place = t.place := by
  rcases step_cases w s t with ⟨dropped, same⟩ | ⟨_, same⟩ | ⟨_, _, same⟩
  · exact .inl ⟨by rw [same]; rfl, dropped.1⟩
  · refine .inr ⟨_, by rw [same, tokensOf_token], fun u member => ?_⟩
    exact ⟨kind_of_mem_indentation member, place_of_mem_indentation member⟩
  · exact .inr ⟨[], by rw [same]; rfl, nofun⟩

theorem pairwise_of_place_eq
    (added : ∀ u ∈ tokens, Added u ∧ u.place = place) : tokens.Pairwise Precedes :=
  List.Pairwise.imp_of_mem (R := fun _ _ => True)
    (fun first second _ =>
      .of_place_eq ((added _ first).2.trans (added _ second).2.symm) (added _ second).1)
    (List.pairwise_of_forall fun _ _ => trivial)

theorem pairwise_step : (tokensOf (step w s t).1).Pairwise Precedes := by
  rcases tokensOf_step_cases w s t with ⟨none, _⟩ | ⟨more, same, added⟩
  · rw [none]
    exact .nil
  · rw [same]
    exact .cons (fun u member => .of_place_eq (added u member).2.symm (added u member).1)
      (pairwise_of_place_eq added)

theorem mem_step (member : u ∈ tokensOf (step w s t).1) :
    u.place = t.place ∧ (Added u ∨ u = t) := by
  rcases tokensOf_step_cases w s t with ⟨none, _⟩ | ⟨more, same, added⟩
  · rw [none] at member
    cases member
  · rw [same] at member
    rcases List.mem_cons.mp member with rfl | later
    · exact ⟨rfl, .inr rfl⟩
    · exact ⟨(added u later).2, .inl (added u later).1⟩

theorem mem_finish {levels : List Nat} (member : u ∈ tokensOf (finish place levels)) :
    Added u ∧ u.place = place := by
  induction levels with
  | nil => cases member
  | cons level rest ih =>
    rcases List.mem_cons.mp member with rfl | later
    · exact ⟨.inr rfl, rfl⟩
    · exact ih later

theorem mem_scanFrom (member : u ∈ tokensOf (scanFrom w s last tokens)) :
    u ∈ tokens ∨
      (Added u ∧ (last = some u.place ∨ ∃ t ∈ tokens, u.place = t.place)) := by
  induction tokens generalizing s last with
  | nil =>
    cases last with
    | none => cases member
    | some place =>
      obtain ⟨added, same⟩ := mem_finish member
      exact .inr ⟨added, .inl (congrArg some same.symm)⟩
  | cons t rest ih =>
    have here (first : u ∈ tokensOf (step w s t).1) : u ∈ t :: rest ∨
        (Added u ∧ (last = some u.place ∨ ∃ v ∈ t :: rest, u.place = v.place)) := by
      obtain ⟨same, added | rfl⟩ := mem_step first
      · exact .inr ⟨added, .inr ⟨t, List.mem_cons_self, same⟩⟩
      · exact .inl List.mem_cons_self
    rw [scanFrom_cons] at member
    split at member
    · rw [tokensOf_append] at member
      rcases List.mem_append.mp member with first | later
      · exact here first
      · rcases ih later with inside | ⟨added, same | ⟨v, inside, same⟩⟩
        · exact .inl (List.mem_cons_of_mem t inside)
        · exact .inr ⟨added, .inr ⟨t, List.mem_cons_self, (Option.some.inj same).symm⟩⟩
        · exact .inr ⟨added, .inr ⟨v, List.mem_cons_of_mem t inside, same⟩⟩
    · exact here member

/-- Tokens that stand one after the other come out of the layout in order. -/
theorem pairwise_scanFrom (ordered : tokens.Pairwise Token.Before)
    (forward : ∀ t ∈ tokens, t.place.start.offset ≤ t.place.stop.offset) :
    (tokensOf (scanFrom w s last tokens)).Pairwise Precedes := by
  induction tokens generalizing s last with
  | nil =>
    cases last with
    | none => exact .nil
    | some place => exact pairwise_of_place_eq fun u => mem_finish
  | cons t rest ih =>
    obtain ⟨apart, ordered⟩ := List.pairwise_cons.mp ordered
    obtain ⟨first, forward⟩ := List.forall_mem_cons.mp forward
    rw [scanFrom_cons]
    split
    · rw [tokensOf_append]
      refine List.pairwise_append.mpr ⟨pairwise_step, ih ordered forward, ?_⟩
      intro u here v later
      have place := (mem_step here).1
      have after (x : Token κ Extent) (inside : x ∈ rest) (same : v.place = x.place) :
          Precedes u v := by
        have before : t.place.stop.offset ≤ v.place.start.offset := by
          rw [same]
          exact apart x inside
        have further : v.place.start.offset ≤ v.place.stop.offset := by
          rw [same]
          exact forward x inside
        rw [← place] at before first
        exact ⟨Nat.le_trans first before, Nat.le_trans before further, fun _ => before⟩
      rcases mem_scanFrom later with inside | ⟨added, same | ⟨x, inside, same⟩⟩
      · exact after v inside rfl
      · exact .of_place_eq (place.trans (Option.some.inj same)) added
      · exact after x inside same
    · exact pairwise_step

section Filter

variable {chosen : Token κ Extent → Bool}
  (plain : ∀ t, chosen t = true → Kind.role t.kind ≠ .newline ∧ ¬ Added t)

include plain

theorem filter_added (added : ∀ u ∈ tokens, Added u) : tokens.filter chosen = [] :=
  List.filter_eq_nil_iff.mpr fun u member here => (plain u here).2 (added u member)

theorem filter_step : (tokensOf (step w s t).1).filter chosen = [t].filter chosen := by
  rcases tokensOf_step_cases w s t with ⟨dropped, newline⟩ | ⟨more, same, added⟩
  · have other : ¬ chosen t = true := fun here => (plain t here).1 newline
    rw [dropped, List.filter_cons_of_neg other]
  · rw [same, ← List.singleton_append, List.filter_append,
      filter_added plain fun u member => (added u member).1, List.append_nil]

theorem filter_scanFrom (silent : failureOf? (scanFrom w s last tokens) = none) :
    (tokensOf (scanFrom w s last tokens)).filter chosen = tokens.filter chosen := by
  induction tokens generalizing s last with
  | nil =>
    cases last with
    | none => rfl
    | some place => exact filter_added plain fun u member => (mem_finish member).1
  | cons t rest ih =>
    rw [scanFrom_cons] at silent ⊢
    by_cases quiet : failureOf? (step w s t).1 = none
    · rw [if_pos quiet, failureOf?_append, quiet, Option.none_or] at silent
      rw [if_pos quiet, tokensOf_append, List.filter_append, filter_step plain, ih silent,
        ← List.filter_append, List.singleton_append]
    · rw [if_neg quiet] at silent
      exact absurd silent quiet

end Filter

end Layout

end VyperFront
