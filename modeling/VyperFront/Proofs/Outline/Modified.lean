import VyperFront.Proofs.Outline.Balanced

/-! The modifiers of a declared type, as the tree has them: calls of a modifier on one argument, one
within the other. The outline reads them off the text of the type. -/

namespace VyperFront

namespace Text

/-- What stands between the first round bracket that opens and the last character. -/
def bracketed (t : Text) : Text := (t.dropWhile (· ≠ '(')).tail.dropLast

/-- How many characters are no blanks. -/
def solids (t : Text) : Nat := t.countP (!isBlank ·)

variable {t u : Text}

@[simp] theorem solids_append : solids (t ++ u) = t.solids + u.solids := List.countP_append

theorem solids_eq_zero_iff : t.solids = 0 ↔ t.Blanks := by
  simp [solids, Blanks, List.countP_eq_zero]

theorem solids_trim (t : Text) : t.trim.solids = t.solids := by
  obtain ⟨before, after, front, back, same⟩ := t.exists_trim
  have whole := congrArg solids same
  rw [solids_append, solids_append, solids_eq_zero_iff.mpr front,
    solids_eq_zero_iff.mpr back] at whole
  omega

end Text

namespace Modifier

/-- The modifier of a name. -/
def ofText? (t : Text) : Option Modifier := all.find? fun m => m.text.toList == t

/-- How much modifiers add to a text: their names, and two brackets for each. -/
def weight (ms : List Modifier) : Nat := (ms.map fun m => m.text.toList.length + 2).sum

variable {m : Modifier} {ms : List Modifier} {t type : Text}

theorem text_of_ofText? (found : ofText? t = some m) : m.text.toList = t := by
  have checked := List.find?_some found
  exact eq_of_beq checked

theorem weight_cons : weight (m :: ms) = m.text.toList.length + 2 + weight ms := rfl

theorem solids_text (m : Modifier) : Text.solids m.text.toList = m.text.toList.length := by
  cases m <;> decide

theorem solids_call (m : Modifier) (t : Text) :
    (m.call t).solids = m.text.toList.length + 2 + t.solids := by
  have opens : Text.solids ['('] = 1 := by decide
  have closes : Text.solids [')'] = 1 := by decide
  rw [call, Text.solids_append, Text.solids_append, Text.solids_append, solids_text, opens, closes]
  omega

theorem bracketed_call (m : Modifier) (t : Text) : (m.call t).bracketed = t := by
  have rest : (m.call t).dropWhile (· ≠ '(') = '(' :: (t ++ [')']) := by
    cases m <;> rfl
  rw [Text.bracketed, rest, List.tail_cons, List.dropLast_concat]

theorem Wraps.solids_eq (wraps : Wraps ms type t) : t.solids = weight ms + type.solids := by
  induction wraps with
  | bare front back =>
    rw [Text.solids_append, Text.solids_append, Text.solids_eq_zero_iff.mpr front,
      Text.solids_eq_zero_iff.mpr back]
    exact Nat.add_zero _
  | call m _ front back ih =>
    rw [Text.solids_append, Text.solids_append, Text.solids_eq_zero_iff.mpr front,
      Text.solids_eq_zero_iff.mpr back, solids_call, ih, weight_cons]
    omega

/-- Nothing but blanks is lost when a text is split. -/
theorem solids_split (t : Text) : t.solids = weight (split t).1 + (split t).2.solids := by
  obtain ⟨ms, type, wraps, trimmed, plain⟩ := exists_wraps t
  rw [wraps.split_eq trimmed plain]
  exact wraps.solids_eq

end Modifier

namespace Tree

/-- The modifier that the tree is a call of, and the argument, if there is one and it has no
name. -/
def modifier? : Tree → Option (Modifier × Tree)
  | node .call _ [leaf name, node .argumentList _ [argument]] =>
    if (leaf name).kind? = some .identifier ∧ argument.kind? ≠ some .keywordArgument then
      (Modifier.ofText? name.text).map (·, argument)
    else none
  | _ => none

/-- The modifiers of the tree are written directly before their brackets, and alone in those of the
one around them. What is left in the innermost brackets is no modifier before brackets. -/
inductive Direct (source : Text) : Text → Tree → Prop where
  | last {around : Text} {t : Tree} (other : t.modifier? = none)
    (plain : Modifier.Plain around.trim) : Direct source around t
  | call {around : Text} {t : Tree} {m : Modifier} {a : Tree} (found : t.modifier? = some (m, a))
    (alone : around.trim = t.textIn source) (opens : m.text.toList ++ ['('] <+: t.textIn source)
    (rest : Direct source (t.textIn source).bracketed a) : Direct source around t

variable {source around front back : Text} {t a : Tree} {m : Modifier}

theorem shape_of_modifier? (found : t.modifier? = some (m, a)) :
    ∃ extent place name, t = node .call extent [leaf name, node .argumentList place [a]] ∧
      m.text.toList = name.text := by
  unfold modifier? at found
  split at found
  · next extent name place argument =>
    split at found
    · obtain ⟨n, named, same⟩ := Option.map_eq_some_iff.mp found
      cases same
      exact ⟨extent, place, name, rfl, Modifier.text_of_ofText? named⟩
    · cases found
  · cases found

theorem mem_nodes_of_modifier? (found : t.modifier? = some (m, a)) (solid : a.isGap = false) :
    a ∈ t.nodes := by
  obtain ⟨extent, place, name, rfl, _⟩ := shape_of_modifier? found
  simp [nodes, nodesOf, mem_nodes_self solid]

theorem sizeOf_of_modifier? (found : t.modifier? = some (m, a)) : sizeOf a < sizeOf t := by
  obtain ⟨extent, place, name, rfl, _⟩ := shape_of_modifier? found
  simp
  omega

/-- The modifiers of a tree, from the outside in: as long as it is a call of one, its argument is
gone on with. -/
def modifiers (t : Tree) : List Modifier :=
  match _found : t.modifier? with
  | some (m, argument) => m :: argument.modifiers
  | none => []
termination_by sizeOf t
decreasing_by exact sizeOf_of_modifier? _found

/-- What stands in the brackets of the innermost modifier. Without any it is what the tree stands
in. -/
def unmodified (source : Text) (around : Text) (t : Tree) : Text :=
  match _found : t.modifier? with
  | some (_, argument) => argument.unmodified source (t.textIn source).bracketed
  | none => around.trim
termination_by sizeOf t
decreasing_by exact sizeOf_of_modifier? _found

theorem modifiers_of_some (found : t.modifier? = some (m, a)) :
    t.modifiers = m :: a.modifiers := by
  rw [modifiers]
  split
  · next same => cases found.symm.trans same; rfl
  · next same => cases found.symm.trans same

theorem modifiers_of_none (none : t.modifier? = none) : t.modifiers = [] := by
  rw [modifiers]
  split
  · next same => cases none.symm.trans same
  · rfl

theorem unmodified_of_some (found : t.modifier? = some (m, a)) :
    t.unmodified source around = a.unmodified source (t.textIn source).bracketed := by
  rw [unmodified]
  split
  · next same => cases found.symm.trans same; rfl
  · next same => cases found.symm.trans same

theorem unmodified_of_none (none : t.modifier? = none) :
    t.unmodified source around = around.trim := by
  rw [unmodified]
  split
  · next same => cases none.symm.trans same
  · rfl

/-- What holds of a tree if it holds of its argument, and of all trees that are no modifier's call,
holds of all trees. -/
theorem inductModifiers {motive : Tree → Prop}
    (some : ∀ t m a, t.modifier? = some (m, a) → motive a → motive t)
    (none : ∀ t, t.modifier? = none → motive t) (t : Tree) : motive t := by
  induction t using modifiers.induct with
  | case1 t m a found ih => exact some t m a found ih
  | case2 t found => exact none t found

/-- The text of a call begins with the modifier and ends with a bracket. The text of the argument is
somewhere in the brackets. -/
def Encloses (source : Text) (t : Tree) (m : Modifier) (a : Tree) : Prop :=
  ∃ apart front back : Text, '(' ∉ apart ∧
    t.textIn source = m.text.toList ++ apart ++ ['('] ++ (front ++ a.textIn source ++ back) ++ [')']

/-- All calls of modifiers in the tree have such texts. -/
def Formed (source : Text) (t : Tree) : Prop :=
  ∀ s ∈ t.nodes, ∀ m a, s.modifier? = some (m, a) → s.Encloses source m a

theorem Formed.encloses (formed : t.Formed source) (found : t.modifier? = some (m, a)) :
    t.Encloses source m a := by
  obtain ⟨extent, place, name, rfl, _⟩ := shape_of_modifier? found
  exact formed _ List.mem_cons_self m a found

theorem Formed.argument (formed : t.Formed source) (found : t.modifier? = some (m, a)) :
    a.Formed source := by
  intro s inside
  obtain ⟨extent, place, name, rfl, _⟩ := shape_of_modifier? found
  exact formed s (by simp [nodes, nodesOf, inside])

namespace Encloses

variable (encloses : t.Encloses source m a)

include encloses

theorem trim_eq : (t.textIn source).trim = t.textIn source := by
  obtain ⟨apart, front, back, _, text⟩ := encloses
  rw [text, List.append_assoc m.text.toList, List.append_assoc m.text.toList]
  exact m.trim_text_append _

/-- The modifier and the brackets come on top of what is in the brackets, and there is the
argument. -/
theorem exists_inside : ∃ front back : Text,
    (t.textIn source).bracketed = front ++ a.textIn source ++ back ∧
      m.text.toList.length + 2 + (t.textIn source).bracketed.solids ≤ (t.textIn source).solids := by
  obtain ⟨apart, front, back, none, text⟩ := encloses
  have name : (m.text.toList.all (· ≠ '(')) = true := by
    cases m <;> decide
  have plain : ∀ c ∈ m.text.toList ++ apart, (decide (c ≠ '(')) = true :=
    fun c member => (List.mem_append.mp member).elim (List.all_eq_true.mp name c)
      fun inside => decide_eq_true fun same => none (same ▸ inside)
  have inside : (t.textIn source).bracketed = front ++ a.textIn source ++ back := by
    rw [text, Text.bracketed, List.append_assoc, List.append_assoc (m.text.toList ++ apart),
      List.dropWhile_append_of_pos plain]
    exact List.dropLast_concat
  have opens : Text.solids ['('] = 1 := by decide
  have closes : Text.solids [')'] = 1 := by decide
  refine ⟨front, back, inside, ?_⟩
  rw [inside, text]
  simp only [Text.solids_append, Modifier.solids_text, opens, closes]
  omega

theorem eq_call (opens : m.text.toList ++ ['('] <+: t.textIn source) :
    t.textIn source = m.call (t.textIn source).bracketed := by
  obtain ⟨apart, front, back, none, text⟩ := encloses
  obtain ⟨rest, same⟩ := opens
  rw [text, List.append_assoc, List.append_assoc, List.append_assoc, List.append_assoc] at same
  have direct := List.append_cancel_left same
  cases apart with
  | nil =>
    have called : t.textIn source = m.call (front ++ a.textIn source ++ back) := by
      rw [text, List.append_nil, Modifier.call]
    rw [called, Modifier.bracketed_call]
  | cons c apart =>
    obtain rfl : '(' = c := (List.cons.inj direct).1
    exact absurd List.mem_cons_self none

end Encloses

theorem split_of_direct (formed : t.Formed source) (direct : t.Direct source around) :
    Modifier.split around = (t.modifiers, t.unmodified source around) := by
  induction direct with
  | last other plain =>
    rw [modifiers_of_none other, unmodified_of_none other, Modifier.split_of_plain_trim plain]
  | @call around t m a found alone opens _ ih =>
    have inner := ih (formed.argument found)
    calc Modifier.split around
      _ = Modifier.split (t.textIn source) := by rw [← Modifier.split_trim, alone]
      _ = Modifier.split (m.call (t.textIn source).bracketed) :=
        congrArg _ ((formed.encloses found).eq_call opens)
      _ = (t.modifiers, t.unmodified source around) := by
        rw [Modifier.split_call, inner, modifiers_of_some found, unmodified_of_some found]

/-- The modifiers of the tree and what is left are all in the text. -/
theorem weight_le (formed : t.Formed source) (whole : around = front ++ t.textIn source ++ back) :
    Modifier.weight t.modifiers + (t.unmodified source around).solids ≤ around.solids := by
  induction t using inductModifiers generalizing around front back with
  | none t other =>
    rw [modifiers_of_none other, unmodified_of_none other, Text.solids_trim]
    exact Nat.le_of_eq (Nat.zero_add _)
  | some t m a found ih =>
    obtain ⟨_, _, inside, fits⟩ := (formed.encloses found).exists_inside
    have inner := ih (formed.argument found) inside
    have outer := congrArg Text.solids whole
    rw [Text.solids_append, Text.solids_append] at outer
    rw [modifiers_of_some found, unmodified_of_some found, Modifier.weight_cons]
    omega

theorem direct_of_split (formed : t.Formed source)
    (whole : around = front ++ t.textIn source ++ back)
    (same : Modifier.split around = (t.modifiers, t.unmodified source around)) :
    t.Direct source around := by
  induction t using inductModifiers generalizing around front back with
  | none t other =>
    refine .last other fun m a called => ?_
    rw [← Modifier.split_trim, called, Modifier.split_call, modifiers_of_none other] at same
    cases same
  | some t m a found ih =>
    rw [modifiers_of_some found, unmodified_of_some found] at same
    obtain ⟨b, called, rest⟩ := Modifier.exists_of_split same
    have encloses := formed.encloses found
    obtain ⟨_, _, inside, fits⟩ := encloses.exists_inside
    -- The text has no room for anything but the modifiers and blanks around the call.
    have room : front.solids = 0 ∧ back.solids = 0 := by
      have least := weight_le (formed.argument found) inside
      have all := Modifier.solids_split b
      have outer := around.solids_trim
      rw [called, Modifier.solids_call, whole, Text.solids_append, Text.solids_append] at outer
      rw [rest] at all
      dsimp only at all
      omega
    have alone : around.trim = t.textIn source := by
      rw [whole, Text.trim_surrounded (Text.solids_eq_zero_iff.mp room.1)
        (Text.solids_eq_zero_iff.mp room.2), encloses.trim_eq]
    have text : t.textIn source = m.call b := alone.symm.trans called
    have argument : (t.textIn source).bracketed = b := by rw [text, Modifier.bracketed_call]
    refine .call found alone ⟨b ++ [')'], ?_⟩ (ih (formed.argument found) inside ?_)
    · rw [text, Modifier.call, List.append_assoc _ b]
    · rw [argument] at rest ⊢
      exact rest

/-- The modifiers in the text, and what they are put on, are those of the tree just if these are
written directly. -/
theorem split_eq_iff (formed : t.Formed source) :
    Modifier.split (t.textIn source) = (t.modifiers, t.unmodified source (t.textIn source)) ↔
      t.Direct source (t.textIn source) := by
  have whole : t.textIn source = [] ++ t.textIn source ++ [] := (List.append_nil _).symm
  exact ⟨direct_of_split formed whole, split_of_direct formed⟩

theorem Declares.exists_storage {d : Outline.Declaration} (declares : t.Declares source d)
    (kind : t.kind? = some .annotatedAssignment) :
    ∃ v, d = .storage v ∧ t.DeclaresVariable source v := by
  cases declares with
  | storage declares => exact ⟨_, rfl, declares⟩
  | function either =>
    rcases either with plain | decorated
    · cases kind.symm.trans plain.kind
    · cases kind.symm.trans decorated.kind
  | implements other => cases kind.symm.trans other
  | event defines | struct defines | flag defines | interface defines =>
    cases kind.symm.trans defines.kind

end Tree

namespace Derivation

open Layout

variable {text : Text} {tokens : List SourceToken} {e : Derivation} {t a : Tree} {m : Modifier}

theorem Makes.isGap_eq_false (makes : e.Makes t) : t.isGap = false := by
  obtain ⟨_, core, trees⟩ := makes
  cases e with
  | token u =>
    cases trees
    rfl
  | phrase p parts =>
    obtain ⟨kind, shape⟩ := core
    rw [Derivation.trees, shape] at trees
    cases trees
    rfl

/-- The call of a modifier is derived from the name and what is in the brackets. It reaches from the
name to the closing bracket. -/
theorem Makes.exists_modifier (makes : e.Makes t) (found : t.modifier? = some (m, a)) :
    ∃ (called args : Derivation) (name left right : SourceToken),
      e.yield = called.yield ++ ([left] ++ args.yield ++ [right]) ∧ name ∈ called.yield ∧
      name.kind.isSolid = true ∧ name.text = m.text.toList ∧ left.kind = .leftParen ∧
      right.kind = .rightParen ∧ stretch e.reach = some ⟨name.place.start, right.place.stop⟩ ∧
      args.Valid ∧ args.symbol = .nonterminal .arguments ∧ args.trees = [a] := by
  obtain ⟨extent, place, name, rfl, text⟩ := Tree.shape_of_modifier? found
  obtain ⟨called, d, valid, single, inner, symbol, whole, row, reach⟩ := makes.exists_parts
  obtain ⟨_, only⟩ := valid.exists_tree single
  rw [only] at row
  obtain ⟨rfl, made⟩ := List.cons.inj row
  obtain ⟨p, left, right, shape, opens, closes, ⟨args, rfl, inner, phrase, below⟩ | ⟨_, none⟩⟩ :=
    inner.argumentList_cases symbol made
  · have alone := reach_of_leaf single only
    have named : name ∈ called.yield :=
      valid.reach_sublist.subset (alone ▸ List.mem_singleton_self name)
    have around : e.reach = name :: left :: args.reach ++ [right] := by
      rw [reach, alone, Derivation.reach, shape]
      rfl
    have extent : stretch e.reach = some ⟨name.place.start, right.place.stop⟩ := by
      rw [around]
      exact stretch_eq rfl List.getLast?_concat
    rw [yield_bracketed] at whole
    exact ⟨called, args, name, left, right, whole, named, (valid.leaf_cases single only).1,
      text.symm, opens, closes, extent, inner, phrase, below⟩
  · cases none

/-- A call of a modifier goes from the name to the closing bracket, and the argument is in the
brackets. -/
theorem Origin.exists_argument (origin : Origin tokens t e) (laid : Laid text tokens)
    (found : t.modifier? = some (m, a)) :
    ∃ (name left right : SourceToken) (span : Extent),
      (name ∈ tokens ∧ name.kind.isSolid = true ∧ name.text = m.text.toList) ∧
      (left ∈ tokens ∧ left.kind = .leftParen) ∧ (right ∈ tokens ∧ right.kind = .rightParen) ∧
      t.extent? = some ⟨name.place.start, right.place.stop⟩ ∧
      a.isGap = false ∧ a.extent? = some span ∧
      name.place.stop.offset ≤ left.place.start.offset ∧
      left.place.stop.offset ≤ span.start.offset ∧ span.start.offset < span.stop.offset ∧
      span.stop.offset ≤ right.place.start.offset := by
  obtain ⟨called, args, name, left, right, whole, named, solid, text, opens, closes, extent, valid,
    phrase, below⟩ := origin.exists_modifier found
  have symbols : ∀ kind, args.symbol = .terminal kind → kind.isSolid = true :=
    fun kind terminal => Symbol.noConfusion (phrase.symm.trans terminal)
  obtain ⟨_, _, makes, _, _⟩ := valid.exists_makes symbols below
  have member : a ∈ Tree.nodesOf args.trees := by
    rw [below]
    exact Tree.mem_nodesOf.mpr ⟨a, List.mem_cons_self, Tree.mem_nodes_self makes.isGap_eq_false⟩
  obtain ⟨f, argument⟩ := valid.exists_origin (by rw [phrase]; rfl) symbols a member
  obtain ⟨first, head, last, tail, real, placed⟩ := argument.exists_ends
  have part := argument.valid.reach_sublist.subset
  have begins := argument.part.subset (part (List.mem_of_head? head))
  have ends := argument.part.subset (part (List.mem_of_getLast? tail))
  have laid := laid.sublist origin.part.sublist
  have inside := origin.part.subset
  rw [whole] at laid inside
  have forward := argument.forward (laid.sublist
    (((List.sublist_append_right ..).trans (List.sublist_append_left ..)).trans
      (List.sublist_append_right ..))) placed
  -- The tokens stand one after the other.
  obtain ⟨_, within, apart⟩ := List.pairwise_append.mp laid.ordered
  obtain ⟨opened, _, closed⟩ := List.pairwise_append.mp within
  have opening : ¬ Added left := not_added_of_brackets (by rw [opens]; decide)
  have closing : ¬ Added right := not_added_of_brackets (by rw [closes]; decide)
  refine ⟨name, left, right, _, ⟨inside (by simp [named]), solid, text⟩, ⟨inside (by simp), opens⟩,
    ⟨inside (by simp), closes⟩, origin.extent_eq.trans extent, makes.isGap_eq_false, placed, ?_, ?_,
    forward, ?_⟩
  · exact (apart name named left (by simp)).before opening
  · exact ((List.pairwise_append.mp opened).2.2 left (by simp) first begins).before real
  · exact (closed last (by simp [ends]) right (by simp)).before closing

end Derivation

namespace Parser

open Outline Layout

variable {c : Config} {source : Source} {p : Parse}

/-- The texts of all calls are what the tree says. -/
theorem formed (parsed : (Parser.empty.setLanguage (Artifact.language c)).parse source = .ok p)
    (clean : p.errors = []) : ∀ child ∈ p.root.children.map Prod.snd, child.Formed p.text := by
  obtain ⟨tokens, reads, _, laid, settled, known⟩ := exists_laid parsed clean
  intro child below t inside m a found
  obtain ⟨_, e, origin, _, extent, text⟩ := known child below t inside
  obtain ⟨name, left, right, span, ⟨named, solid, spelled⟩, ⟨opening, opens⟩, ⟨closing, closes⟩,
    reach, plain, place, before, first, forward, last⟩ := origin.exists_argument laid found
  obtain rfl := Option.some.inj (extent.symm.trans reach)
  have argument := Tree.mem_nodes_of_modifier? found plain
  obtain ⟨_, _, _, _, placed, inner⟩ :=
    known child below a (Tree.mem_nodes_trans argument inside)
  obtain rfl := Option.some.inj (place.symm.trans placed)
  obtain ⟨_, nameAt⟩ := settled name named (Bool.and_eq_true_iff.mp solid).1
  obtain ⟨leftText, leftAt⟩ := settled left opening (by rw [opens]; decide)
  obtain ⟨rightText, rightAt⟩ := settled right closing (by rw [closes]; decide)
  rw [spelled] at nameAt
  rw [leftText "(" (by rw [opens]; rfl)] at leftAt
  rw [rightText ")" (by rw [closes]; rfl)] at rightAt
  -- The first bracket after the name may be in a comment.
  have bracket : '(' ∈ p.text.slice name.place.stop.offset left.place.start.offset ++ ['('] :=
    List.mem_append_right _ (List.mem_singleton_self _)
  obtain ⟨apart, rest, split, none⟩ := List.eq_append_cons_of_mem bracket
  refine ⟨apart, rest ++ p.text.slice left.place.stop.offset span.start.offset,
    p.text.slice span.stop.offset right.place.start.offset, none, ?_⟩
  have nameForward := (laid.placed name named).forward
  have leftForward := (laid.placed left opening).forward
  have rightForward := (laid.placed right closing).forward
  calc t.textIn p.text
    _ = p.text.slice name.place.start.offset name.place.stop.offset ++
        (p.text.slice name.place.stop.offset left.place.start.offset ++
          (p.text.slice left.place.start.offset left.place.stop.offset ++
            (p.text.slice left.place.stop.offset span.start.offset ++
              (p.text.slice span.start.offset span.stop.offset ++
                (p.text.slice span.stop.offset right.place.start.offset ++
                  p.text.slice right.place.start.offset right.place.stop.offset))))) := by
      rw [text]
      repeat rw [Text.slice_append_slice _ (by omega) (by omega)]
    _ = m.text.toList ++ (p.text.slice name.place.stop.offset left.place.start.offset ++ ['(']) ++
        (p.text.slice left.place.stop.offset span.start.offset ++ a.textIn p.text ++
          p.text.slice span.stop.offset right.place.start.offset) ++ [')'] := by
      rw [nameAt, leftAt, rightAt, inner]
      simp
    _ = _ := by
      rw [split]
      simp

/-- For every declared variable the outline has the modifiers of the type in the tree, and what they
are put on, just if the modifiers are written directly. -/
theorem outline_modifiers
    (parsed : (Parser.empty.setLanguage (Artifact.language c)).parse source = .ok p)
    (clean : p.errors = []) :
    List.Forall₂ (fun t d => t.kind? = some .annotatedAssignment →
        ∃ v e, d = .storage v ∧ t.childIn? .type = some e ∧
          (v.modifiers = e.modifiers ∧ v.type = e.unmodified p.text (e.textIn p.text) ↔
            e.Direct p.text (e.textIn p.text)))
      (p.root.childrenOf Tree.declaring) p.outline := by
  have each : ∀ t ∈ p.root.childrenOf Tree.declaring, t.isGap = false ∧ t.Formed p.text := by
    intro t member
    obtain ⟨below, declaring⟩ := List.mem_filter.mp member
    exact ⟨solid_of_isOf declaring, formed parsed clean t below⟩
  refine (List.forall₂_and_left _ _ |>.mpr ⟨each, declares_outline parsed clean⟩).imp
    fun t d ⟨⟨solid, formed⟩, declares⟩ kind => ?_
  obtain ⟨v, rfl, stored⟩ := declares.exists_storage kind
  obtain ⟨text, type, same⟩ := Option.map_eq_some_iff.mp stored.type
  obtain ⟨e, child, rfl⟩ := Option.map_eq_some_iff.mp type
  have within : e ∈ t.nodes := mem_nodes_of_childIn? (Tree.mem_nodes_self solid) child
  have formed : e.Formed p.text := fun s inside => formed s (Tree.mem_nodes_trans inside within)
  refine ⟨v, e, rfl, child, ?_⟩
  rw [← Tree.split_eq_iff formed, same, Prod.mk.injEq]

theorem outline_modifiers_storage : ∃ p : Parse,
    (Parser.empty.setLanguage (Artifact.language .default)).parse (.text Sample.storage) = .ok p ∧
      p.errors = [] ∧
      (∃ t e, p.root.childrenOf Tree.declaring = [t] ∧ t.kind? = some .annotatedAssignment ∧
        t.childIn? .type = some e ∧ e.Direct p.text (e.textIn p.text)) ∧
      List.Forall₂ (fun t d => t.kind? = some .annotatedAssignment →
          ∃ v e, d = .storage v ∧ t.childIn? .type = some e ∧
            (v.modifiers = e.modifiers ∧ v.type = e.unmodified p.text (e.textIn p.text) ↔
              e.Direct p.text (e.textIn p.text)))
        (p.root.childrenOf Tree.declaring) p.outline := by
  obtain ⟨p, parsed, clean, root, text, _⟩ := Sample.exists_parse_storage
  refine ⟨p, parsed, clean, ?_, outline_modifiers parsed clean⟩
  rw [root, text]
  have plain : Modifier.Plain "t".toList := Modifier.outermost?_eq_none_iff.mp rfl
  exact ⟨_, _, rfl, rfl, rfl, .call rfl (by decide) ⟨"t)".toList, rfl⟩ (.last rfl plain)⟩

/-! A source where what is called is itself a call. -/

namespace Sample

def calledTwice : Text := "x: public(a)(b)\n".toList

/-- What the lexer reads in it. -/
def calledTwiceTokens : List SourceToken :=
  [⟨.name, "x".toList, ⟨⟨0, 1, 1⟩, ⟨1, 1, 2⟩⟩⟩,
    ⟨.colon, ":".toList, ⟨⟨1, 1, 2⟩, ⟨2, 1, 3⟩⟩⟩,
    ⟨.name, "public".toList, ⟨⟨3, 1, 4⟩, ⟨9, 1, 10⟩⟩⟩,
    ⟨.leftParen, "(".toList, ⟨⟨9, 1, 10⟩, ⟨10, 1, 11⟩⟩⟩,
    ⟨.name, "a".toList, ⟨⟨10, 1, 11⟩, ⟨11, 1, 12⟩⟩⟩,
    ⟨.rightParen, ")".toList, ⟨⟨11, 1, 12⟩, ⟨12, 1, 13⟩⟩⟩,
    ⟨.leftParen, "(".toList, ⟨⟨12, 1, 13⟩, ⟨13, 1, 14⟩⟩⟩,
    ⟨.name, "b".toList, ⟨⟨13, 1, 14⟩, ⟨14, 1, 15⟩⟩⟩,
    ⟨.rightParen, ")".toList, ⟨⟨14, 1, 15⟩, ⟨15, 1, 16⟩⟩⟩,
    ⟨.newline, "\n".toList, ⟨⟨15, 1, 16⟩, ⟨16, 2, 1⟩⟩⟩]

theorem tokenizes_calledTwice :
    Lexer.Tokenizes .spelled ⟨calledTwice, .start⟩ calledTwiceTokens :=
  Lexer.tokenizes_of_parts rfl rfl rfl

/-- A call on one name. -/
private def callOn (called : Derivation) (left argument right : SourceToken) : Derivation :=
  .phrase ⟨.primary, .node .call,
      [.kept (.nonterminal .primary), .kept (.nonterminal .argumentList)]⟩
    [called,
      .phrase ⟨.argumentList, .node .argumentList, [.dropped (.terminal .leftParen),
          .kept (.nonterminal .arguments), .dropped (.terminal .rightParen)]⟩
        [.token left, splice (single (test argument) .argument) .arguments, .token right]]

private def calledTwiceType : Derivation :=
  let first := callOn (climb (.token calledTwiceTokens[2]) [.atom, .primary]) calledTwiceTokens[3]
    calledTwiceTokens[4] calledTwiceTokens[5]
  testOf (callOn first calledTwiceTokens[6] calledTwiceTokens[7] calledTwiceTokens[8])

private def calledTwiceDerivation : Derivation :=
  let declared : Derivation :=
    .phrase ⟨.annotatedAssignment, .node .annotatedAssignment, [.kept (.nonterminal .testlist),
        .dropped (.terminal .colon), .kept (.nonterminal .test), .gap]⟩
      [single (test calledTwiceTokens[0]) .testlist, .token calledTwiceTokens[1], calledTwiceType]
  let line : Derivation :=
    .phrase ⟨.simpleStatements, .splice,
        [.kept (.nonterminal .smallStatement), .dropped (.terminal .newline)]⟩
      [splice declared .smallStatement, .token calledTwiceTokens[9]]
  .phrase ⟨.sourceFile, .node .sourceFile, [.kept (.nonterminal .fileItems)]⟩
    [[.statement, .fileItems].foldl splice line]

end Sample

set_option maxRecDepth 4000 in
/-- The type in the tree has no modifiers, as what is called is no name. Its text begins with a
modifier before a bracket and ends with a bracket, and the outline has the modifier. -/
theorem outline_modifiers_calledTwice : ∃ p : Parse,
    (Parser.empty.setLanguage (Artifact.language .default)).parse (.text Sample.calledTwice) =
        .ok p ∧
      p.errors = [] ∧
      (∃ t e, p.root.childrenOf Tree.declaring = [t] ∧ t.kind? = some .annotatedAssignment ∧
        t.childIn? .type = some e ∧ e.modifiers = []) ∧
      p.outline = [.storage ⟨"x".toList, "a)(b".toList, [.public], none⟩] := by
  have derived : Reading.Derived .eight Sample.calledTwice Sample.calledTwiceDerivation :=
    ⟨Sample.calledTwiceTokens, Sample.tokenizes_calledTwice, by decide, by decide, rfl, rfl⟩
  obtain ⟨p, parsed, clean, root, text⟩ := Parser.exists_parse .default derived rfl
  refine ⟨p, parsed, clean, ?_, ?_⟩
  · rw [root]
    exact ⟨_, _, rfl, rfl, rfl, Tree.modifiers_of_none rfl⟩
  · rw [Parse.outline_eq clean, root, text]
    rfl

end Parser

end VyperFront
