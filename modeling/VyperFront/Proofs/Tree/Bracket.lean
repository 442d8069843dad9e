import VyperFront.Proofs.Tree.Ends
import VyperFront.Proofs.Tree.Geometry

/-! The brackets in the text of a node. They are those of the tokens that the node was derived to,
and so they are balanced, unless the node is cut: it begins or ends at a token that stands alone in
brackets, and goes on beyond it. Then a bracket in it has its partner outside. -/

namespace VyperFront

open Layout

theorem Text.take_append_slice (t : Text) {lo hi : Nat} (le : lo ≤ hi) :
    t.take lo ++ t.slice lo hi = t.take hi := by
  rw [Text.slice, ← List.take_add, Nat.add_sub_cancel' le]

theorem Text.slice_append_slice (t : Text) {lo mid hi : Nat} (lower : lo ≤ mid)
    (upper : mid ≤ hi) : t.slice lo mid ++ t.slice mid hi = t.slice lo hi := by
  have whole := t.take_append_slice (Nat.le_trans lower upper)
  rw [← t.take_append_slice upper, ← t.take_append_slice lower, List.append_assoc] at whole
  exact (List.append_cancel_left whole).symm

/-- Tokens that are laid out in a text, and have the brackets of it. -/
structure Braced (text : Text) (tokens : List SourceToken) : Prop extends Laid text tokens where
  brackets_take : ∀ n, Text.brackets (text.take n) =
    bracketsOf (tokens.filter fun t => t.place.start.offset < n)

section Offsets

variable {text : Text} {tokens before inside after : List SourceToken} {t u : SourceToken}
  {lo hi : Nat}

/-- Tokens in order that begin before the second offset begin before the first, or after it. -/
theorem filter_lt_append (le : lo ≤ hi)
    (ordered : tokens.Pairwise fun t u => t.place.start.offset ≤ u.place.start.offset) :
    tokens.filter (fun t => t.place.start.offset < lo) ++
        tokens.filter (fun t => lo ≤ t.place.start.offset ∧ t.place.start.offset < hi) =
      tokens.filter fun t => t.place.start.offset < hi := by
  induction tokens with
  | nil => rfl
  | cons t rest ih =>
    obtain ⟨first, ordered⟩ := List.pairwise_cons.mp ordered
    by_cases early : t.place.start.offset < lo
    · have late : ¬ (lo ≤ t.place.start.offset ∧ t.place.start.offset < hi) := by omega
      have within : t.place.start.offset < hi := by omega
      rw [List.filter_cons_of_pos (by simpa using early),
        List.filter_cons_of_neg (by simpa using late),
        List.filter_cons_of_pos (by simpa using within), List.cons_append, ih ordered]
    · have none : (t :: rest).filter (fun t => t.place.start.offset < lo) = [] := by
        refine List.filter_eq_nil_iff.mpr (List.forall_mem_cons.mpr ⟨by simpa using early, ?_⟩)
        intro u member
        have := first u member
        simp only [decide_eq_true_eq]
        omega
      rw [none, List.nil_append]
      apply List.filter_congr
      intro u member
      have beyond : t.place.start.offset ≤ u.place.start.offset := by
        rcases List.mem_cons.mp member with rfl | later
        · exact Nat.le_refl _
        · exact first u later
      rw [decide_eq_decide]
      omega

theorem not_added_of_brackets (bracket : t.kind.brackets ≠ []) : ¬ Added t := by
  rintro (indent | dedent)
  · exact bracket (indent ▸ rfl)
  · exact bracket (dedent ▸ rfl)

namespace Braced

/-- The brackets between two offsets are those of the tokens that begin there. -/
theorem brackets_slice (braced : Braced text tokens) (le : lo ≤ hi) :
    Text.brackets (text.slice lo hi) = bracketsOf (tokens.filter fun t =>
      lo ≤ t.place.start.offset ∧ t.place.start.offset < hi) := by
  have whole := braced.brackets_take hi
  rw [← Text.take_append_slice text le, Text.brackets_append, braced.brackets_take lo,
    ← filter_lt_append le (braced.ordered.imp Precedes.start_le), bracketsOf_append] at whole
  exact List.append_cancel_left whole

/-- Between offsets that some of the tokens in a row have around them there are their brackets,
and none of the others. -/
theorem brackets_between (braced : Braced text (before ++ inside ++ after)) (le : lo ≤ hi)
    (within : ∀ t ∈ inside, t.kind.brackets ≠ [] →
      lo ≤ t.place.start.offset ∧ t.place.start.offset < hi)
    (earlier : ∀ t ∈ before, t.kind.brackets ≠ [] → t.place.start.offset < lo)
    (later : ∀ t ∈ after, t.kind.brackets ≠ [] → hi ≤ t.place.start.offset) :
    Text.brackets (text.slice lo hi) = bracketsOf inside := by
  let there (t : SourceToken) : Bool :=
    decide (lo ≤ t.place.start.offset ∧ t.place.start.offset < hi)
  have own : bracketsOf (inside.filter there) = bracketsOf inside :=
    bracketsOf_filter fun t member bracket => decide_eq_true (within t member bracket)
  have front : bracketsOf (before.filter there) = [] := by
    apply bracketsOf_filter_eq_nil
    intro t member bracket
    have := earlier t member bracket
    rw [decide_eq_false_iff_not]
    omega
  have back : bracketsOf (after.filter there) = [] := by
    apply bracketsOf_filter_eq_nil
    intro t member bracket
    have := later t member bracket
    rw [decide_eq_false_iff_not]
    omega
  rw [braced.brackets_slice le, List.filter_append, List.filter_append, bracketsOf_append,
    bracketsOf_append, own, front, back, List.nil_append, List.append_nil]

/-- From the start of the first to the end of the last of some tokens in a row there are their
brackets. -/
theorem brackets_stretch (braced : Braced text (before ++ inside ++ after))
    (first : t ∈ inside.head?) (last : u ∈ inside.getLast?) (real : ¬ Added t) :
    Text.brackets (text.slice t.place.start.offset u.place.stop.offset) = bracketsOf inside := by
  obtain ⟨rest, opened⟩ := List.head?_eq_some_iff.mp first
  obtain ⟨front, closed⟩ := List.getLast?_eq_some_iff.mp last
  have ordered := List.pairwise_append.mp braced.ordered
  have outer := List.pairwise_append.mp ordered.1
  have placed (v : SourceToken) (member : v ∈ inside) := (braced.placed v (by simp [member])).forward
  -- Nothing within begins before the first or ends after the last.
  have from_first : ∀ v ∈ inside, t.place.start.offset ≤ v.place.start.offset := by
    have inner := outer.2.1
    rw [opened] at inner ⊢
    exact List.forall_mem_cons.mpr
      ⟨Nat.le_refl _, fun v later => ((List.pairwise_cons.mp inner).1 v later).start_le⟩
  have to_last : ∀ v ∈ inside, v.place.stop.offset ≤ u.place.stop.offset := by
    have inner := outer.2.1
    rw [closed] at inner ⊢
    exact List.forall_mem_append.mpr ⟨fun v earlier =>
      ((List.pairwise_append.mp inner).2.2 v earlier u List.mem_cons_self).stop_le, by simp⟩
  have begins := List.mem_of_head? first
  have ends := List.mem_of_getLast? last
  apply braced.brackets_between
  · have := to_last t begins
    have := placed t begins
    omega
  · intro v member _
    have := from_first v member
    have := to_last v member
    have := placed v member
    omega
  · intro v member _
    have apart : v.place.stop.offset ≤ t.place.start.offset :=
      (outer.2.2 v member t begins).before real
    have := (braced.placed v (by simp [member])).forward
    omega
  · intro v member bracket
    exact (ordered.2.2 u (by simp [ends]) v member).before (not_added_of_brackets bracket)

end Braced

end Offsets

set_option maxRecDepth 10000 in
private theorem Grammar.solid_checked : (productions.all (·.slots.all fun
    | .kept (.terminal t) => t.isSolid
    | _ => true)) = true := by
  decide

theorem Grammar.isSolid_of_kept {p : Production} {t : Terminal} (member : p ∈ productions)
    (kept : .kept (.terminal t) ∈ p.slots) : t.isSolid = true :=
  List.all_eq_true.mp (List.all_eq_true.mp solid_checked p member) _ kept

namespace Derivation

variable {text : Text} {tokens : List SourceToken} {d e : Derivation} {t : Tree} {span : Extent}

/-- A token or a node is all the tree of the derivation. -/
structure Makes (e : Derivation) (t : Tree) : Prop where
  valid : e.Valid
  core : e.IsCore
  trees : e.trees = [t]

/-- The tree is that of a derivation of some of the tokens in a row. -/
structure Origin (tokens : List SourceToken) (t : Tree) (e : Derivation) : Prop
    extends e.Makes t where
  begins : e.symbol.begins = true
  part : e.yield <:+: tokens

theorem yield_part {parts : List Derivation} (part : d ∈ parts) : d.yield <:+: yields parts := by
  obtain ⟨before, after, rfl⟩ := List.append_of_mem part
  rw [yields_eq_flatMap]
  exact ⟨before.flatMap yield, after.flatMap yield, by simp⟩

/-- Each node of what is derived comes from some of its tokens in a row. -/
theorem Valid.exists_origin (valid : d.Valid) (begins : d.symbol.begins = true)
    (solid : ∀ kind, d.symbol = .terminal kind → kind.isSolid = true) :
    ∀ t ∈ Tree.nodesOf d.trees, ∃ e, Origin d.yield t e := by
  induction valid with
  | token u =>
    intro t member
    obtain rfl := List.mem_singleton.mp member
    exact ⟨.token u, ⟨.token u, solid u.kind rfl, rfl⟩, begins, List.infix_rfl⟩
  | @phrase p parts member body valid ih =>
    have inner : p.head ≠ .program := (of_decide_eq_true begins : _ ∧ _).1
    refine forall_node_phrase body ?_ ?_
    · intro kind shape
      refine ⟨.phrase p parts, ⟨.phrase member body valid, ⟨kind, shape⟩, ?_⟩, begins,
        List.infix_rfl⟩
      rw [trees, shape]
    · intro d part kept t inside
      have begins := Grammar.begins_of_kept member inner kept
      obtain ⟨e, origin⟩ := ih d part begins (fun kind terminal =>
        Grammar.isSolid_of_kept member (terminal ▸ kept)) t inside
      exact ⟨e, { origin with part := origin.part.trans (yield_part part) }⟩

theorem stretch_eq {first last : SourceToken} (head : first ∈ tokens.head?)
    (tail : last ∈ tokens.getLast?) :
    stretch tokens = some ⟨first.place.start, last.place.stop⟩ := by
  obtain ⟨rest, rfl⟩ := List.head?_eq_some_iff.mp head
  rw [List.getLast?_cons] at tail
  obtain rfl := Option.some.inj tail
  rw [stretch, List.map_cons, Extent.span?, List.getLastD_eq_getLast?, List.getLast?_map,
    Option.getD_map]

theorem Makes.extent_eq (makes : e.Makes t) : t.extent? = stretch e.reach := by
  have trees := makes.trees
  cases e with
  | token u =>
    cases trees
    rfl
  | phrase p parts =>
    obtain ⟨kind, shape⟩ := makes.core
    rw [Derivation.trees, shape] at trees
    cases trees
    rw [reach, shape]
    rfl

theorem Makes.balanced (makes : e.Makes t) : (bracketsOf e.yield).Balanced := by
  have core := makes.core
  have valid := makes.valid
  cases e with
  | token u =>
    have none : u.kind.brackets = [] := Terminal.brackets_of_isSolid core
    have alone : bracketsOf [u] = [] := by
      rw [bracketsOf_cons, none]
      rfl
    exact alone ▸ Text.Balanced.nil
  | phrase p parts => exact valid.balanced rfl

/-- The tree goes from the first token to the last one that its derivation reaches over. -/
theorem Origin.exists_ends (origin : Origin tokens t e) :
    ∃ first ∈ e.reach.head?, ∃ last ∈ e.reach.getLast?, ¬ Added first ∧
      t.extent? = some ⟨first.place.start, last.place.stop⟩ := by
  obtain ⟨first, head, real⟩ := origin.valid.begins origin.begins
  have nonempty : e.reach ≠ [] := List.ne_nil_of_mem (List.mem_of_head? head)
  have tail := List.getLast?_eq_some_getLast nonempty
  exact ⟨first, head, _, tail, real, origin.extent_eq.trans (stretch_eq head tail)⟩

end Derivation

/-- Whether the tree begins or ends at a token that stands alone in brackets, but is more than
that token. -/
def Tree.IsCut (tokens : List SourceToken) (t : Tree) : Prop :=
  ∃ e ∈ t.extent?, ∃ u, Bracketed tokens u ∧
    ¬ (e.start.offset = u.place.start.offset ↔ e.stop.offset = u.place.stop.offset)

theorem not_added_of_isSolid {t : SourceToken} (solid : t.kind.isSolid = true) : ¬ Added t :=
  Derivation.not_added_of_canBeLeaf (Bool.and_eq_true_iff.mp solid).1

namespace Bracketed

variable {text : Text} {tokens : List SourceToken} {u : SourceToken}

theorem brackets_slice (bracketed : Bracketed tokens u) (braced : Braced text tokens) :
    Text.brackets (text.slice u.place.start.offset u.place.stop.offset) = [] := by
  obtain ⟨solid, left, right, ⟨before, after, rfl⟩, _⟩ := id bracketed
  have split : before ++ [left, u, right] ++ after =
      (before ++ [left]) ++ [u] ++ ([right] ++ after) := by simp
  rw [split] at braced
  have own : Text.brackets (text.slice u.place.start.offset u.place.stop.offset) =
      bracketsOf [u] := braced.brackets_stretch rfl rfl (not_added_of_isSolid solid)
  rw [own, bracketsOf_cons, Terminal.brackets_of_isSolid solid]
  rfl

end Bracketed

section Alone

variable {text : Text} {before after : List SourceToken} {left u right t : SourceToken}
  {lo hi : Nat} (braced : Braced text (before ++ [left, u, right] ++ after))
  (solid : u.kind.isSolid = true)

include braced solid

/-- What begins at a token alone in brackets, and goes on beyond it, closes a bracket that it does
not open. -/
theorem not_balanced_from (closes : right.kind = .rightParen)
    (beyond : right.place.stop.offset ≤ hi) :
    ¬ Text.Balanced (text.slice u.place.start.offset hi) := by
  have ordered := braced.ordered
  simp only [List.append_assoc, List.cons_append, List.nil_append, List.pairwise_append,
    List.pairwise_cons, List.forall_mem_cons] at ordered
  obtain ⟨_, ⟨_, ⟨next, _⟩, _⟩, _⟩ := ordered
  have forward := (braced.placed right (by simp)).forward
  have le : u.place.start.offset ≤ right.place.stop.offset :=
    Nat.le_trans next.start_le forward.le
  have split : before ++ [left, u, right] ++ after = (before ++ [left]) ++ [u, right] ++ after := by
    simp
  have own : Text.brackets (text.slice u.place.start.offset right.place.stop.offset) =
      bracketsOf [u, right] :=
    (split ▸ braced).brackets_stretch rfl rfl (not_added_of_isSolid solid)
  rw [bracketsOf_cons, Terminal.brackets_of_isSolid solid, bracketsOf_cons, closes] at own
  apply Text.Balanced.not_of_closes
  rw [← text.slice_append_slice le beyond, Text.brackets_append, own]
  rfl

/-- What ends at a token alone in brackets, and begins before it, opens a bracket that it does not
close. -/
theorem not_balanced_to (opens : left.kind = .leftParen)
    (beyond : lo ≤ left.place.start.offset) :
    ¬ Text.Balanced (text.slice lo u.place.stop.offset) := by
  have real : ¬ Added left := not_added_of_brackets (by rw [opens]; decide)
  have ordered := braced.ordered
  simp only [List.append_assoc, List.cons_append, List.nil_append, List.pairwise_append,
    List.pairwise_cons, List.forall_mem_cons] at ordered
  obtain ⟨_, ⟨⟨next, _⟩, _⟩, _⟩ := ordered
  have forward := (braced.placed u (by simp)).forward
  have le : left.place.start.offset ≤ u.place.stop.offset :=
    Nat.le_trans next.start_le forward.le
  have split : before ++ [left, u, right] ++ after = before ++ [left, u] ++ ([right] ++ after) := by
    simp
  have own : Text.brackets (text.slice left.place.start.offset u.place.stop.offset) =
      bracketsOf [left, u] := (split ▸ braced).brackets_stretch rfl rfl real
  rw [bracketsOf_cons, opens, bracketsOf_cons, Terminal.brackets_of_isSolid solid] at own
  apply Text.Balanced.not_of_opens
  rw [← text.slice_append_slice beyond le, Text.brackets_append, own]
  rfl

theorem around_alone (member : t ∈ before ++ [left, u, right] ++ after) (other : t ≠ u) :
    (t.place.start.offset ≤ left.place.start.offset ∧
        t.place.stop.offset ≤ u.place.start.offset) ∨
      right.place.stop.offset ≤ t.place.stop.offset ∧
        (¬ Added t → u.place.stop.offset ≤ t.place.start.offset) := by
  have real := not_added_of_isSolid solid
  have ordered := braced.ordered
  simp only [List.append_assoc, List.cons_append, List.nil_append, List.pairwise_append,
    List.pairwise_cons, List.forall_mem_cons] at ordered
  obtain ⟨_, ⟨⟨leftU, _⟩, ⟨uRight, uAfter⟩, rightAfter, _⟩, earlier⟩ := ordered
  rw [List.append_assoc, List.mem_append] at member
  rcases member with first | later
  · obtain ⟨toLeft, toU, _⟩ := earlier t first
    exact .inl ⟨toLeft.start_le, toU.before real⟩
  · simp only [List.cons_append, List.nil_append, List.mem_cons] at later
    rcases later with rfl | rfl | rfl | later
    · exact .inl ⟨Nat.le_refl _, leftU.before real⟩
    · exact absurd rfl other
    · exact .inr ⟨Nat.le_refl _, uRight.before⟩
    · exact .inr ⟨(rightAfter t later).stop_le, (uAfter t later).before⟩

end Alone

namespace Derivation.Origin

variable {text : Text} {tokens : List SourceToken} {e : Derivation} {t : Tree} {span : Extent}

/-- In the text of a tree that is not cut there are the brackets of its tokens, or none. -/
theorem brackets_slice (origin : Origin tokens t e) (braced : Braced text tokens)
    (found : t.extent? = some span) (whole : ¬ t.IsCut tokens) :
    Text.brackets (text.slice span.start.offset span.stop.offset) = bracketsOf e.yield ∨
      Text.brackets (text.slice span.start.offset span.stop.offset) = [] := by
  obtain ⟨first, head, last, tail, real, extent⟩ := origin.exists_ends
  obtain rfl := Option.some.inj (found.symm.trans extent)
  have only (u : SourceToken) (bracketed : Bracketed tokens u) :
      first.place.start.offset = u.place.start.offset ↔
        last.place.stop.offset = u.place.stop.offset := by
    by_contra cut
    exact whole ⟨_, extent, u, bracketed, cut⟩
  obtain ⟨begun, ended⟩ := origin.valid.ends
  rcases begun with begun | ⟨u, bracketed, alone⟩
  · rcases ended with ended | ⟨u, bracketed, alone⟩
    · obtain ⟨before, after, rfl⟩ := origin.part
      exact .inl (braced.brackets_stretch (begun ▸ head) (ended ▸ tail) real)
    · obtain rfl := Option.some.inj (alone.symm.trans tail)
      have bracketed := bracketed.mono origin.part
      rw [(only u bracketed).mpr rfl]
      exact .inr (bracketed.brackets_slice braced)
  · obtain rfl := Option.some.inj (alone.symm.trans head)
    have bracketed := bracketed.mono origin.part
    refine .inr ?_
    rw [(only u bracketed).mp rfl]
    exact bracketed.brackets_slice braced

theorem forward (origin : Origin tokens t e) (laid : Laid text tokens)
    (found : t.extent? = some span) : span.start.offset < span.stop.offset := by
  obtain ⟨first, head, _⟩ := origin.exists_ends
  have nonempty : e.reach ≠ [] := List.ne_nil_of_mem (List.mem_of_head? head)
  have part := origin.valid.reach_sublist.trans origin.part.sublist
  obtain ⟨_, same, placed, _⟩ := exists_stretch (laid.sublist part) nonempty
  obtain rfl := Option.some.inj ((found.symm.trans origin.extent_eq).trans same)
  exact placed.forward

theorem not_balanced (origin : Origin tokens t e) (braced : Braced text tokens)
    (found : t.extent? = some span) (cut : t.IsCut tokens) :
    ¬ Text.Balanced (text.slice span.start.offset span.stop.offset) := by
  obtain ⟨first, head, last, tail, real, extent⟩ := origin.exists_ends
  have forward := origin.forward braced.toLaid found
  obtain rfl := Option.some.inj (found.symm.trans extent)
  obtain ⟨_, same, u, ⟨solid, left, right, ⟨before, after, rfl⟩, opens, closes⟩, apart⟩ := cut
  obtain rfl := Option.some.inj (found.symm.trans same)
  have part := origin.valid.reach_sublist.trans origin.part.sublist
  have inside := part.subset (List.mem_of_head? head)
  have within := part.subset (List.mem_of_getLast? tail)
  dsimp only at forward apart ⊢
  by_cases start : first.place.start.offset = u.place.start.offset
  · have stop : last.place.stop.offset ≠ u.place.stop.offset := fun stop =>
      apart ⟨fun _ => stop, fun _ => start⟩
    have other : last ≠ u := fun same => stop (same ▸ rfl)
    rw [start] at forward ⊢
    rcases around_alone braced solid within other with ⟨_, before⟩ | ⟨beyond, _⟩
    · omega
    · exact not_balanced_from braced solid closes beyond
  · have stop : last.place.stop.offset = u.place.stop.offset := by
      by_contra stop
      exact apart ⟨fun same => absurd same start, fun same => absurd same stop⟩
    have other : first ≠ u := fun same => start (same ▸ rfl)
    rw [stop] at forward ⊢
    rcases around_alone braced solid inside other with ⟨beyond, _⟩ | ⟨_, after⟩
    · exact not_balanced_to braced solid opens beyond
    · have := after real
      omega

/-- The text of a tree is balanced if and only if the tree is not cut. -/
theorem balanced_iff (origin : Origin tokens t e) (braced : Braced text tokens)
    (found : t.extent? = some span) :
    Text.Balanced (text.slice span.start.offset span.stop.offset) ↔ ¬ t.IsCut tokens := by
  refine ⟨fun balanced cut => origin.not_balanced braced found cut balanced, fun whole => ?_⟩
  rcases origin.brackets_slice braced found whole with own | none
  · rw [← Text.balanced_brackets, own]
    exact origin.balanced
  · exact .of_brackets none

end Derivation.Origin

end VyperFront
