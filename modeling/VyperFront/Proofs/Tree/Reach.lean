import VyperFront.Proofs.Grammar.LineEnd
import VyperFront.Proofs.Reader.Found
import VyperFront.Proofs.Tree.Kept
import VyperFront.Proofs.Tree.Spaced

/-! How the trees of a derivation lie in the text. A node reaches over more than its trees, since
brackets, keywords and line breaks count for it. What it reaches over begins with a token that
was read in the text, and so what came before it has ended there. -/

namespace VyperFront

open Layout

namespace Symbol

/-- Whether all that the symbol derives begins with a token that was read in the text. -/
def begins : Symbol → Bool
  | terminal t => t ≠ .indent ∧ t ≠ .dedent
  | nonterminal n => n ≠ .program ∧ n ≠ .sourceFile

end Symbol

namespace Grammar

/-- Whether the production begins so, and all that it keeps. -/
private def opens (p : Production) : Bool :=
  p.head = .program ||
    (p.head = .sourceFile || p.body.head?.any Symbol.begins) &&
      p.slots.all fun | .kept s => s.begins | _ => true

set_option maxRecDepth 10000 in
private theorem opens_checked : productions.all opens = true := by
  decide

variable {p : Production} {s : Symbol}

private theorem opens_of_mem (member : p ∈ productions) (inner : p.head ≠ .program) :
    (p.head = .sourceFile ∨ ∃ s ∈ p.body.head?, s.begins = true) ∧
      ∀ s, .kept s ∈ p.slots → s.begins = true := by
  have checked := List.all_eq_true.mp opens_checked p member
  simp only [opens, Bool.or_eq_true, decide_eq_true_eq, inner, false_or, Bool.and_eq_true,
    Option.any_eq_true, List.all_eq_true] at checked
  obtain ⟨first, kept⟩ := checked
  exact ⟨first, fun s inside => kept _ inside⟩

theorem begins_of_kept (member : p ∈ productions) (inner : p.head ≠ .program)
    (kept : .kept s ∈ p.slots) : s.begins = true :=
  (opens_of_mem member inner).2 s kept

theorem begins_of_head? (member : p ∈ productions)
    (begins : (Symbol.nonterminal p.head).begins = true) :
    ∃ s ∈ p.body.head?, s.begins = true := by
  have inner : p.head ≠ .program ∧ p.head ≠ .sourceFile := of_decide_eq_true begins
  exact (opens_of_mem member inner.1).1.resolve_left inner.2

end Grammar

namespace Derivation

variable {text : Text} {tokens : List SourceToken} {d : Derivation} {parts : List Derivation}
  {slots : List Slot} {row : List Tree} {lo hi : Nat}

/-- The extent goes from the first of the tokens to the end of the last. -/
structure Spans (tokens : List SourceToken) (e : Extent) : Prop where
  start_le : ∀ t ∈ tokens, e.start.offset ≤ t.place.start.offset
  le_stop : ∀ t ∈ tokens, t.place.stop.offset ≤ e.stop.offset
  first : ∃ t ∈ tokens.head?, e.start = t.place.start
  last : ∃ t ∈ tokens, e.stop = t.place.stop

/-- The stretch of tokens in order goes over all of them. -/
theorem exists_stretch (laid : Laid text tokens) (nonempty : tokens ≠ []) :
    ∃ e, stretch tokens = some e ∧ e.In text ∧ Spans tokens e := by
  obtain ⟨t, rest, rfl⟩ := List.exists_cons_of_ne_nil nonempty
  have placed := laid.placed t List.mem_cons_self
  rcases List.eq_nil_or_concat' rest with rfl | ⟨front, u, rfl⟩
  · exact ⟨t.place, rfl, placed, by simp, by simp, ⟨t, rfl, rfl⟩, t, List.mem_cons_self, rfl⟩
  · have member : u ∈ t :: (front ++ [u]) := by simp
    have first := (List.pairwise_cons.mp laid.ordered).1
    have last : ∀ v ∈ t :: front, Precedes v u := fun v before =>
      (List.pairwise_append.mp laid.ordered).2.2 v before u List.mem_cons_self
    have stop := (last t List.mem_cons_self).stop_le
    refine ⟨⟨t.place.start, u.place.stop⟩, by simp [stretch, Extent.span?], ?_, ?_, ?_,
      ⟨t, rfl, rfl⟩, u, member, rfl⟩
    · exact ⟨placed.start, (laid.placed u member).stop, Nat.lt_of_lt_of_le placed.forward stop⟩
    · exact List.forall_mem_cons.mpr ⟨Nat.le_refl _, fun v later => (first v later).start_le⟩
    · rw [← List.cons_append]
      exact List.forall_mem_append.mpr ⟨fun v before => (last v before).stop_le, by simp⟩

/-- Whether the derivation begins with a token that was read in the text. -/
def Begins (d : Derivation) : Prop := ∃ t ∈ d.reach.head?, ¬ Added t

/-- Whatever is around the derivation's tokens is around its trees, and those are spaced. -/
def Enclosed (text : Text) (d : Derivation) : Prop :=
  ∀ lo hi, (∀ t ∈ d.reach, ¬ Added t → lo ≤ t.place.start.offset) →
    (∀ t ∈ d.reach, t.place.stop.offset ≤ hi) → Tree.Spaced text lo d.trees hi

/-- What is kept of parts is spaced, between any offsets that the tokens of the parts are. -/
theorem Sifts.spaced (sifts : Sifts slots parts row) (laid : Laid text (reaches parts))
    (enclosed : ∀ d ∈ parts, .kept d.symbol ∈ slots → d.Begins ∧ d.Enclosed text) (le : lo ≤ hi)
    (after : ∀ t ∈ reaches parts, ¬ Added t → lo ≤ t.place.start.offset)
    (before : ∀ t ∈ reaches parts, t.place.stop.offset ≤ hi) : Tree.Spaced text lo row hi := by
  induction sifts generalizing lo with
  | nil => exact .nil le
  | gap _ ih =>
    exact .gap (ih laid (fun d part inside => enclosed d part (List.mem_cons_of_mem _ inside)) le
      after before)
  | @kept slots parts row d _ ih =>
    rw [reaches] at laid after before
    obtain ⟨afterHere, afterLater⟩ := List.forall_mem_append.mp after
    obtain ⟨beforeHere, beforeLater⟩ := List.forall_mem_append.mp before
    obtain ⟨here, later⟩ := List.forall_mem_cons.mp enclosed
    obtain ⟨⟨t, head, _⟩, enclosed⟩ := here List.mem_cons_self
    have nonempty : d.reach ≠ [] := by
      rintro none
      rw [none] at head
      cases head
    obtain ⟨e, _, _, spans⟩ := exists_stretch (laid.sublist (List.sublist_append_left ..)) nonempty
    obtain ⟨u, member, stop⟩ := spans.last
    have apart := (List.pairwise_append.mp laid.ordered).2.2 u member
    -- What comes later and was read in the text begins where these trees have ended.
    refine (enclosed lo e.stop.offset afterHere spans.le_stop).append ?_
    exact ih (laid.sublist (List.sublist_append_right ..))
      (fun e part inside => later e part (List.mem_cons_of_mem _ inside))
      (stop ▸ beforeHere u member) (fun v inside real => stop ▸ (apart v inside).before real)
      beforeLater
  | dropped d _ ih =>
    rw [reaches] at laid after before
    obtain ⟨_, enclosed⟩ := List.forall_mem_cons.mp enclosed
    exact ih (laid.sublist (List.sublist_append_right ..))
      (fun e part inside => enclosed e part (List.mem_cons_of_mem _ inside)) le
      (List.forall_mem_append.mp after).2 (List.forall_mem_append.mp before).2

theorem reaches_eq_flatMap (parts : List Derivation) : reaches parts = parts.flatMap reach := by
  induction parts with
  | nil => rfl
  | cons d rest ih => rw [reaches, ih, List.flatMap_cons]

theorem reach_sublist_reaches (part : d ∈ parts) : d.reach.Sublist (reaches parts) := by
  rw [reaches_eq_flatMap, List.flatMap_def]
  exact List.sublist_flatten_of_mem (List.mem_map_of_mem part)

theorem eq_singleton_of_passed? {shape : Shape} {t : SourceToken}
    (passed : passed? shape row = some t) : shape = .pass ∧ row = [.leaf t] := by
  unfold passed? at passed
  split at passed
  · cases passed
    exact ⟨rfl, rfl⟩
  · cases passed

/-- A phrase reaches over all of its parts, unless it only passes on a token. -/
theorem reach_phrase (p : Production) (parts : List Derivation) :
    (∃ t, (phrase p parts).trees = [.leaf t] ∧ (phrase p parts).reach = [t]) ∨
      (phrase p parts).reach = reaches parts := by
  rw [reach]
  cases passed : passed? p.shape (keep p.slots (treesOf parts)) with
  | none => exact .inr rfl
  | some t =>
    obtain ⟨shape, alone⟩ := eq_singleton_of_passed? passed
    refine .inl ⟨t, ?_, rfl⟩
    rw [trees, shape]
    exact alone

theorem not_added_of_canBeLeaf {t : SourceToken} (leaf : t.kind.canBeLeaf = true) : ¬ Added t := by
  obtain ⟨_, indent, dedent⟩ := Terminal.not_layout_of_canBeLeaf leaf
  exact not_or.mpr ⟨indent, dedent⟩

/-- All that such a symbol derives begins with a token that was read in the text. -/
theorem Valid.begins (valid : d.Valid) (begins : d.symbol.begins = true) : d.Begins := by
  have checked := valid
  induction valid with
  | token t => exact ⟨t, rfl, not_or.mpr (of_decide_eq_true begins)⟩
  | @phrase p parts member body valid ih =>
    rcases reach_phrase p parts with ⟨t, trees, reach⟩ | reach
    · have leaf := checked.canBeLeaf nofun t (by rw [trees]; exact List.mem_singleton_self t)
      exact ⟨t, by rw [reach]; rfl, not_added_of_canBeLeaf leaf⟩
    · obtain ⟨s, first, begins⟩ := Grammar.begins_of_head? member begins
      obtain ⟨more, split⟩ := List.head?_eq_some_iff.mp first
      obtain ⟨d, rest, rfl, rfl, _⟩ := List.map_eq_cons_iff.mp (body.trans split)
      have part : d ∈ d :: rest := List.mem_cons_self
      obtain ⟨t, head, real⟩ := ih d part begins (valid d part)
      refine ⟨t, ?_, real⟩
      rw [reach, reaches, List.head?_append, Option.mem_def.mp head]
      rfl

theorem enclosed_of_leaf {t : SourceToken} (trees : d.trees = [.leaf t]) (reach : d.reach = [t])
    (laid : Laid text d.reach) (begins : d.Begins) : d.Enclosed text := by
  intro lo hi after before
  obtain ⟨u, head, real⟩ := begins
  rw [reach] at laid after before head
  cases head
  rw [trees]
  exact .leaf (laid.placed t List.mem_cons_self) (after t List.mem_cons_self real)
    (.nil (before t List.mem_cons_self))

/-- A node over tokens is where they are, if what is below it is spaced from end to end. -/
theorem spaced_node {kind : NodeKind} {first : SourceToken} (laid : Laid text tokens)
    (head : first ∈ tokens.head?) (after : lo ≤ first.place.start.offset)
    (before : ∀ t ∈ tokens, t.place.stop.offset ≤ hi)
    (below : ∀ e, e.In text → Spans tokens e →
      Tree.Spaced text e.start.offset row e.stop.offset) :
    Tree.Spaced text lo [.node kind (stretch tokens) row] hi := by
  have nonempty := List.ne_nil_of_mem (List.mem_of_head? head)
  obtain ⟨e, stretch, placed, spans⟩ := exists_stretch laid nonempty
  obtain ⟨_, same, start⟩ := spans.first
  obtain ⟨last, ends, stop⟩ := spans.last
  cases head.symm.trans same
  rw [stretch]
  exact .node placed (start ▸ after) (below e placed spans) (.nil (stop ▸ before last ends))

/-- Whatever is around the tokens of a phrase is around its trees. -/
theorem Valid.enclosed (valid : d.Valid) (inner : d.symbol ≠ .nonterminal .program)
    (laid : Laid text d.reach) (begins : d.Begins) : d.Enclosed text := by
  induction valid with
  | token t => exact enclosed_of_leaf rfl rfl laid begins
  | @phrase p parts member body valid ih =>
    rcases reach_phrase p parts with ⟨t, trees, reach⟩ | reach
    -- Of brackets around a single token only that token counts.
    · exact enclosed_of_leaf trees reach laid begins
    · intro lo hi after before
      obtain ⟨first, head, real⟩ := begins
      rw [reach] at laid after before head
      have enclosed (d : Derivation) (part : d ∈ parts) (kept : .kept d.symbol ∈ p.slots) :
          d.Begins ∧ d.Enclosed text := by
        have begins := Grammar.begins_of_kept member (inner <| congrArg _ ·) kept
        have begun := (valid d part).begins begins
        refine ⟨begun, ih d part ?_ (laid.sublist (reach_sublist_reaches part)) begun⟩
        rintro program
        rw [program] at begins
        cases begins
      have sifts := sifts_keep body
      have inside := List.mem_of_head? head
      rcases trees_phrase p parts with ⟨kind, _, trees⟩ | ⟨_, trees⟩
      · rw [trees]
        refine spaced_node laid head (after first inside real) before fun e placed spans => ?_
        exact sifts.spaced laid enclosed placed.forward.le (fun t part _ => spans.start_le t part)
          spans.le_stop
      · have start := after first inside real
        have stop := before first inside
        have forward := (laid.placed first inside).forward
        rw [trees]
        exact sifts.spaced laid enclosed (by omega) after before

theorem reaches_sublist (reach : ∀ d ∈ parts, d.reach.Sublist d.yield) :
    (reaches parts).Sublist (yields parts) := by
  induction parts with
  | nil => exact .slnil
  | cons d rest ih =>
    obtain ⟨here, later⟩ := List.forall_mem_cons.mp reach
    exact here.append (ih later)

theorem Valid.reach_sublist (valid : d.Valid) : d.reach.Sublist d.yield := by
  have whole := valid
  induction valid with
  | token t => exact .refl _
  | @phrase p parts member body valid ih =>
    rcases reach_phrase p parts with ⟨t, trees, reach⟩ | reach
    · have leaves := whole.thins.sublist
      rw [trees] at leaves
      exact reach ▸ leaves
    · rw [reach]
      exact reaches_sublist fun d part => ih d part (valid d part)

/-- A source file is empty, or all nodes of its tree are settled in the text. -/
theorem Derives.settled (derives : d.Derives .sourceFile tokens) (laid : Laid text tokens) :
    d.trees = [.node .sourceFile none []] ∨ ∀ t ∈ Tree.nodesOf d.trees, t.Settled text := by
  obtain ⟨valid, _, rfl⟩ := id derives
  obtain rfl | ⟨items, inside, symbol, rfl⟩ := derives.cases_sourceFile
  · exact .inl rfl
  · refine .inr ?_
    obtain ⟨t, head, real⟩ := inside.begins (by rw [symbol]; rfl)
    have alone : reaches [items] = items.reach := List.append_nil _
    have laid := laid.sublist valid.reach_sublist
    have enclosed := valid.enclosed nofun laid ⟨t, (congrArg List.head? alone).trans head, real⟩
    exact (enclosed 0 text.length (fun _ _ _ => Nat.zero_le _)
      fun t member => (laid.placed t member).stop.offset_le).settled

end Derivation

end VyperFront
