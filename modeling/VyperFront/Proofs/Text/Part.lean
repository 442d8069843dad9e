import Mathlib.Data.List.Basic
import Mathlib.Data.List.Infix
import VyperFront.Text.Quoted

namespace VyperFront

namespace Text

variable {part t u : Text} {c d : Char}

theorem holds_iff : holds part t = true ↔ part <:+: t := by
  induction t with
  | nil => rw [holds, List.isEmpty_iff, List.infix_nil]
  | cons c rest ih =>
    rw [holds, Bool.or_eq_true, List.isPrefixOf_iff_prefix, ih, List.infix_cons_iff]

theorem prefix_append_cons_iff (apart : c ∉ part) : part <+: t ++ c :: u ↔ part <+: t := by
  refine ⟨fun begins => ?_, fun begins => begins.trans (List.prefix_append ..)⟩
  induction t generalizing part with
  | nil =>
    rcases List.prefix_cons_iff.mp begins with rfl | ⟨rest, rfl, -⟩
    · exact List.nil_prefix
    · exact absurd List.mem_cons_self apart
  | cons d t ih =>
    rcases List.prefix_cons_iff.mp begins with rfl | ⟨rest, rfl, more⟩
    · exact List.nil_prefix
    · exact List.cons_prefix_cons.mpr ⟨rfl, ih (List.not_mem_of_not_mem_cons apart) more⟩

theorem infix_append_cons_iff (some : part ≠ []) (apart : c ∉ part) :
    part <:+: t ++ c :: u ↔ part <:+: t ∨ part <:+: u := by
  induction t with
  | nil =>
    have begins : ¬ part <+: c :: u := fun begins =>
      some (List.prefix_nil.mp ((prefix_append_cons_iff (t := []) apart).mp begins))
    rw [List.nil_append, List.infix_cons_iff, List.infix_nil]
    simp [begins, some]
  | cons d t ih =>
    rw [List.cons_append, List.infix_cons_iff, ih, ← List.cons_append, prefix_append_cons_iff apart,
      List.infix_cons_iff, or_assoc]

theorem infix_cons_of_head_iff (some : part ≠ []) (head : part.head? ≠ Option.some c) :
    part <:+: c :: t ↔ part <:+: t := by
  rw [List.infix_cons_iff, or_iff_right]
  intro begins
  rcases List.prefix_cons_iff.mp begins with rfl | ⟨rest, rfl, -⟩
  · exact some rfl
  · exact head rfl

/-- A part is found in pieces with separators between them if it is found in a piece. -/
theorem infix_intercalate_iff {pieces : List Text} (some : part ≠ []) (apart : c ∉ part)
    (head : part.head? ≠ Option.some d) :
    part <:+: List.intercalate [c, d] pieces ↔ ∃ piece ∈ pieces, part <:+: piece := by
  induction pieces with
  | nil => simp [some]
  | cons piece others ih =>
    cases others with
    | nil => simp
    | cons second more =>
      rw [List.intercalate_cons_cons, List.append_assoc, List.cons_append,
        infix_append_cons_iff some apart, List.singleton_append, infix_cons_of_head_iff some head, ih]
      exact (List.exists_mem_cons_iff ..).symm

/-- What is found in two texts one after the other begins in the one or is found in the other. -/
theorem infix_append_cases (found : part <:+: t ++ u) :
    (∃ s, s ≠ [] ∧ s <:+ t ∧ part <+: s ++ u) ∨ part <:+: u := by
  induction t with
  | nil => exact .inr found
  | cons c t ih =>
    rcases List.infix_cons_iff.mp found with begins | later
    · exact .inl ⟨c :: t, List.cons_ne_nil _ _, List.suffix_rfl, begins⟩
    · refine (ih later).imp_left ?_
      rintro ⟨s, some, ends, begins⟩
      exact ⟨s, some, ends.trans (List.suffix_cons ..), begins⟩

theorem lastLine_suffix (t : Text) : lastLine t <:+ t := by
  rw [lastLine]
  exact List.reverse_prefix.mp (by simpa using List.takeWhile_prefix _)

end Text

namespace Quoted

/-- The hexadecimal digits in escapes. -/
def digits : Text := "0123456789abcdef".toList

variable {quote c f g : Char} {part tail s more t : Text}

private theorem digitChar_mem_digits : ∀ n < 16, n.digitChar ∈ digits := by decide

theorem mem_digits_of_mem_hex {width n : Nat} (member : c ∈ hex width n) : c ∈ digits := by
  rcases List.mem_append.mp member with zero | digit
  · rw [(List.mem_replicate.mp zero).2]
    decide
  · clear member
    induction n using Nat.strongRecOn with
    | _ n ih =>
      rw [Nat.toDigits_eq_if (by decide)] at digit
      split at digit
      · next small =>
        rw [List.mem_singleton.mp digit]
        exact digitChar_mem_digits n small
      · rcases List.mem_append.mp digit with higher | last
        · exact ih (n / 16) (by omega) higher
        · rw [List.mem_singleton.mp last]
          exact digitChar_mem_digits _ (Nat.mod_lt n (by decide))

theorem hex_ne_nil (width n : Nat) : hex width n ≠ [] :=
  List.append_ne_nil_of_right_ne_nil _ Nat.toDigits_ne_nil

/-- A character stands for itself, or for it stands an escape that begins with a backslash. Behind
that is one more character, or the digits of a number after a letter. -/
theorem escape_cases (quote c : Char) : escape quote c = [c] ∨
    (∃ d, escape quote c = ['\\', d] ∧ (d = quote ∨ d ∈ ['\\', 'n', 'r', 't'])) ∨
    ∃ d number, escape quote c = '\\' :: d :: number ∧ d ∈ ['x', 'u', 'U'] ∧ number ≠ [] ∧
      ∀ digit ∈ number, digit ∈ digits := by
  have numbered (d : Char) (width : Nat) (listed : d ∈ ['x', 'u', 'U']) :
      ∃ e number, ['\\', d] ++ hex width c.toNat = '\\' :: e :: number ∧ e ∈ ['x', 'u', 'U'] ∧
        number ≠ [] ∧ ∀ digit ∈ number, digit ∈ digits :=
    ⟨d, hex width c.toNat, rfl, listed, hex_ne_nil width _, fun _ => mem_digits_of_mem_hex⟩
  unfold escape
  split
  · next special =>
    refine .inr (.inl ⟨c, rfl, special.imp_right ?_⟩)
    rintro rfl
    exact List.mem_cons_self
  split
  · exact .inr (.inl ⟨'n', rfl, .inr (by decide)⟩)
  split
  · exact .inr (.inl ⟨'r', rfl, .inr (by decide)⟩)
  split
  · exact .inr (.inl ⟨'t', rfl, .inr (by decide)⟩)
  split
  · exact .inl rfl
  split
  · exact .inr (.inr (numbered 'x' 2 (by decide)))
  split
  · exact .inr (.inr (numbered 'u' 4 (by decide)))
  · exact .inr (.inr (numbered 'U' 8 (by decide)))

theorem quoteFor_mem (t : Text) : quoteFor t ∈ ['\'', '"'] := by
  unfold quoteFor
  split <;> decide

/-- The first two characters of a part that does not begin inside an escape: they are neither
among its digits, nor what is behind its backslash. -/
def Begins (f g : Char) : Prop :=
  f ∉ ['\'', '"', '\\', 'n', 'r', 't', 'x', 'u'] ∧ f ∉ digits ∧ (f = 'U' → g ∉ digits)

instance (f g : Char) : Decidable (Begins f g) := inferInstanceAs (Decidable (_ ∧ _ ∧ _))

/-- Behind the backslash of an escape, such a part does not begin. -/
private theorem Begins.not_prefix (begins : Begins f g) (mark : quote ∈ ['\'', '"']) (c : Char) :
    escape quote c = [c] ∨ ∃ tail, escape quote c = '\\' :: tail ∧
      ∀ s, s ≠ [] → s <:+ tail → ∀ part more, ¬ f :: g :: part <+: s ++ more := by
  obtain ⟨special, digit, capital⟩ := begins
  simp only [List.mem_cons, List.not_mem_nil, or_false, not_or] at special mark
  refine (escape_cases quote c).imp_right ?_
  rintro (⟨d, escaped, behind⟩ | ⟨d, number, escaped, letter, others, digits⟩)
  · refine ⟨[d], escaped, fun s some ends part more starts => ?_⟩
    obtain rfl : s = [d] := (List.suffix_cons_iff.mp ends).resolve_right (by simp [some])
    obtain ⟨rfl, -⟩ := List.cons_prefix_cons.mp starts
    simp only [List.mem_cons, List.not_mem_nil, or_false] at behind
    rcases behind with rfl | behind
    · exact mark.elim special.1 special.2.1
    · tauto
  · refine ⟨d :: number, escaped, fun s some ends part more starts => ?_⟩
    obtain ⟨e, rest, rfl⟩ := List.exists_cons_of_ne_nil others
    rcases List.suffix_cons_iff.mp ends with rfl | later
    · obtain ⟨rfl, more⟩ := List.cons_prefix_cons.mp starts
      obtain ⟨rfl, -⟩ := List.cons_prefix_cons.mp more
      simp only [List.mem_cons, List.not_mem_nil, or_false] at letter
      rcases letter with rfl | rfl | rfl
      · tauto
      · tauto
      · exact capital rfl (digits _ List.mem_cons_self)
    · obtain ⟨e, rest, rfl⟩ := List.exists_cons_of_ne_nil some
      obtain ⟨rfl, -⟩ := List.cons_prefix_cons.mp starts
      exact digit (digits _ (later.mem List.mem_cons_self))

theorem prefix_of_prefix_escaped (plain : '\\' ∉ part)
    (begins : part <+: t.flatMap (escape quote)) : part <+: t := by
  induction t generalizing part with
  | nil => exact begins
  | cons c t ih =>
    have front : escape quote c = [c] ∨ ∃ tail, escape quote c = '\\' :: tail := by
      rcases escape_cases quote c with same | ⟨d, escaped, -⟩ | ⟨d, number, escaped, -⟩
      · exact .inl same
      · exact .inr ⟨_, escaped⟩
      · exact .inr ⟨_, escaped⟩
    rw [List.flatMap_cons] at begins
    rcases front with same | ⟨tail, escaped⟩
    · rw [same, List.singleton_append] at begins
      rcases List.prefix_cons_iff.mp begins with rfl | ⟨rest, rfl, more⟩
      · exact List.nil_prefix
      · exact List.cons_prefix_cons.mpr ⟨rfl, ih (List.not_mem_of_not_mem_cons plain) more⟩
    · rw [escaped, List.cons_append] at begins
      rcases List.prefix_cons_iff.mp begins with rfl | ⟨rest, rfl, more⟩
      · exact List.nil_prefix
      · exact absurd List.mem_cons_self plain

/-- A part that does not begin inside an escape is made of characters that stand for themselves. -/
theorem Begins.infix_of_escaped (begins : Begins f g) (mark : quote ∈ ['\'', '"'])
    (plain : '\\' ∉ f :: g :: part) (found : f :: g :: part <:+: t.flatMap (escape quote)) :
    f :: g :: part <:+: t := by
  induction t with
  | nil => exact found
  | cons c t ih =>
    rw [List.flatMap_cons] at found
    rcases begins.not_prefix mark c with same | ⟨tail, escaped, never⟩
    · rw [same, List.singleton_append] at found
      refine List.infix_cons_iff.mpr ((List.infix_cons_iff.mp found).imp (fun starts => ?_) ih)
      have front : f :: g :: part <+: (c :: t).flatMap (escape quote) := by
        rwa [List.flatMap_cons, same]
      exact prefix_of_prefix_escaped plain front
    · rw [escaped, List.cons_append, ← List.nil_append ('\\' :: _),
        Text.infix_append_cons_iff (List.cons_ne_nil _ _) plain] at found
      have found := found.resolve_left (fun none => List.cons_ne_nil _ _ (List.infix_nil.mp none))
      rcases Text.infix_append_cases found with ⟨s, some, ends, starts⟩ | later
      · exact absurd starts (never s some ends part _)
      · exact List.infix_cons_iff.mpr (.inr (ih later))

end Quoted

/-- What is found in a quoted text or around it is found in the text itself or around it, unless
an escape can begin it. -/
theorem Text.infix_of_quoted {part before t after : Text} {f g : Char}
    (begins : Quoted.Begins f g) (plain : '\\' ∉ f :: g :: part)
    (apart : ∀ quote ∈ ['\'', '"'], quote ∉ f :: g :: part)
    (found : f :: g :: part <:+: before ++ t.quoted ++ after) :
    f :: g :: part <:+: before ∨ f :: g :: part <:+: t ∨ f :: g :: part <:+: after := by
  have mark := Quoted.quoteFor_mem t
  have some := List.cons_ne_nil f (g :: part)
  rw [Text.quoted, List.append_assoc, List.cons_append, List.cons_append, List.append_assoc,
    infix_append_cons_iff some (apart _ mark), List.singleton_append,
    infix_append_cons_iff some (apart _ mark)] at found
  exact found.imp_right (Or.imp_left (begins.infix_of_escaped mark plain))

end VyperFront
