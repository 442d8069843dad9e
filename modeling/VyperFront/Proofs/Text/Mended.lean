import Mathlib.Order.Bounds.Defs
import Mathlib.Tactic.ByContra
import VyperFront.Proofs.Text.Utf8

/-! Reading bytes as UTF-8. Every sequence of bytes falls into characters and broken parts in one
way. What is read of it has a character for each, and the error is at the first broken part. No
broken part goes beyond a line feed, so that bytes can be read a line at a time. -/

namespace VyperFront.Utf8

variable {b : UInt8} {bytes part later rest tail : List UInt8} {c d : Char} {t : Text}

/-- The text for bytes, in which a character stands for its own bytes, and U+FFFD for a broken
part. -/
inductive Mended : List UInt8 → Text → Prop
  | nil : Mended [] []
  | char (c : Char) {rest : List UInt8} {t : Text} (mended : Mended rest t) :
      Mended (encodeChar c ++ rest) (c :: t)
  | broken {part later : List UInt8} {t : Text} (broken : Broken part later)
      (mended : Mended later t) : Mended (part ++ later) ('\ufffd' :: t)

theorem frontsFrom_drop (skip offset : Nat) (bytes : List UInt8) :
    frontsFrom skip offset bytes = frontsFrom 0 (offset + skip) (bytes.drop skip) := by
  induction skip generalizing offset bytes with
  | zero => rfl
  | succ skip ih =>
    cases bytes with
    | nil => rfl
    | cons b rest => rw [frontsFrom, ih, List.drop_succ_cons, Nat.add_assoc, Nat.add_comm 1]

theorem frontsFrom_add (skip offset n : Nat) (bytes : List UInt8) :
    frontsFrom skip (offset + n) bytes =
      (frontsFrom skip offset bytes).map (Prod.map (· + n) id) := by
  induction bytes generalizing skip offset with
  | nil => simp [frontsFrom]
  | cons b rest ih =>
    cases skip with
    | zero => rw [frontsFrom, frontsFrom, Nat.add_right_comm, ih]; rfl
    | succ skip => rw [frontsFrom, frontsFrom, Nat.add_right_comm, ih]

/-- Once it is known what bytes begin with, what follows is read as if it were alone. -/
theorem fronts_append {f : Front} (first : front b (tail ++ rest) = f)
    (length : f.length = (b :: tail).length) :
    fronts (b :: tail ++ rest) =
      (0, f) :: (fronts rest).map (Prod.map (· + (b :: tail).length) id) := by
  rw [fronts, List.cons_append, frontsFrom, first, frontsFrom_drop, length, fronts,
    ← frontsFrom_add]
  simp [Nat.add_comm]

theorem fronts_char (c : Char) (rest : List UInt8) : fronts (encodeChar c ++ rest) =
    (0, .char c (encodeChar c).length) ::
      (fronts rest).map (Prod.map (· + (encodeChar c).length) id) := by
  obtain ⟨b, tail, bytes, first⟩ := front_of_encodeChar c rest
  rw [bytes] at first ⊢
  exact fronts_append first rfl

theorem Broken.fronts_eq (broken : Broken part later) : ∃ fault, fronts (part ++ later) =
    (0, .bad fault part.length) :: (fronts later).map (Prod.map (· + part.length) id) := by
  obtain ⟨b, tail, fault, rfl, first⟩ := broken.front_eq
  exact ⟨fault, fronts_append first rfl⟩

@[simp] theorem decodeLossy_nil : decodeLossy [] = [] := rfl

theorem decodeLossy_char (c : Char) (rest : List UInt8) :
    decodeLossy (encodeChar c ++ rest) = c :: decodeLossy rest := by
  rw [decodeLossy, fronts_char, List.map_cons, List.map_map]
  rfl

theorem Broken.decodeLossy_eq (broken : Broken part later) :
    decodeLossy (part ++ later) = '\ufffd' :: decodeLossy later := by
  obtain ⟨fault, fronts⟩ := broken.fronts_eq
  rw [decodeLossy, fronts, List.map_cons, List.map_map]
  rfl

/-- Bytes are read a character or a broken part at a time. -/
theorem bytes_induction {motive : List UInt8 → Prop} (nil : motive [])
    (char : ∀ c rest, motive rest → motive (encodeChar c ++ rest))
    (broken : ∀ part later, Broken part later → motive later → motive (part ++ later))
    (bytes : List UInt8) : motive bytes := by
  induction size : bytes.length using Nat.strongRecOn generalizing bytes with
  | _ n ih =>
    cases bytes with
    | nil => exact nil
    | cons b rest =>
      rcases front_cases b rest with ⟨c, later, same⟩ | ⟨part, later, fault, same, here, _⟩
      · have some := List.length_pos_iff.mpr (encodeChar_ne_nil c)
        rw [same] at size ⊢
        rw [List.length_append] at size
        exact char c later (ih _ (by omega) later rfl)
      · have some := List.length_pos_iff.mpr here.ne_nil
        rw [same] at size ⊢
        rw [List.length_append] at size
        exact broken part later here (ih _ (by omega) later rfl)

/-- Reading with replacement mends the bytes. -/
theorem mended_decodeLossy (bytes : List UInt8) : Mended bytes (decodeLossy bytes) := by
  induction bytes using bytes_induction with
  | nil => exact .nil
  | char c rest ih => rw [decodeLossy_char]; exact .char c ih
  | broken part later here ih => rw [here.decodeLossy_eq]; exact .broken here ih

theorem Mended.eq_decodeLossy (mended : Mended bytes t) : t = decodeLossy bytes := by
  induction mended with
  | nil => rfl
  | char c _ ih => rw [decodeLossy_char, ih]
  | broken here _ ih => rw [here.decodeLossy_eq, ih]

theorem mended_encode (t : Text) : Mended (encode t) t := by
  induction t with
  | nil => rw [encode_nil]; exact .nil
  | cons c t ih => rw [encode_cons]; exact .char c ih

/-- The fault of the front of a sequence, if it has one. -/
private def fault? : Nat × Front → Option Error
  | (_, .char ..) => none
  | (offset, .bad fault length) => some ⟨offset, length, fault⟩

private theorem error?_eq (bytes : List UInt8) : error? bytes = (fronts bytes).findSome? fault? := by
  rw [error?]
  congr 1
  funext ⟨offset, f⟩
  cases f <;> rfl

theorem error?_char (c : Char) (rest : List UInt8) : error? (encodeChar c ++ rest) =
    (error? rest).map fun e => { e with offset := e.offset + (encodeChar c).length } := by
  have skipped : (fault? (0, .char c (encodeChar c).length)).isNone := rfl
  rw [error?_eq, error?_eq, fronts_char, List.findSome?_cons_of_isNone skipped, List.findSome?_map,
    List.map_findSome?]
  congr 1
  funext ⟨offset, f⟩
  cases f <;> rfl

theorem Broken.error?_eq (broken : Broken part later) :
    ∃ fault, error? (part ++ later) = some ⟨0, part.length, fault⟩ := by
  obtain ⟨fault, fronts⟩ := broken.fronts_eq
  exact ⟨fault, by rw [Utf8.error?_eq, fronts]; rfl⟩

/-- Either bytes are those of a text, or the error is at the first broken part. -/
theorem error?_cases (bytes : List UInt8) : (∃ t, bytes = encode t ∧ error? bytes = none) ∨
    ∃ t part later fault, bytes = encode t ++ (part ++ later) ∧ Broken part later ∧
      error? bytes = some ⟨(encode t).length, part.length, fault⟩ := by
  induction bytes using bytes_induction with
  | nil => exact .inl ⟨[], encode_nil.symm, rfl⟩
  | char c rest ih =>
    rw [error?_char]
    rcases ih with ⟨t, rfl, none⟩ | ⟨t, part, later, fault, rfl, broken, error⟩
    · exact .inl ⟨c :: t, (encode_cons c t).symm, by rw [none]; rfl⟩
    · refine .inr ⟨c :: t, part, later, fault, ?_, broken, ?_⟩
      · rw [encode_cons, List.append_assoc]
      · rw [error, encode_cons, List.length_append, Nat.add_comm]
        rfl
  | broken part later here _ =>
    obtain ⟨fault, error⟩ := here.error?_eq
    exact .inr ⟨[], part, later, fault, by rw [encode_nil]; rfl, here, by rw [encode_nil]; exact error⟩

theorem error?_encode (t : Text) : error? (encode t) = none := by
  induction t with
  | nil => rw [encode_nil]; rfl
  | cons c t ih => rw [encode_cons, error?_char, ih]; rfl

/-- What is wrong with bytes after those of a text is wrong with all of them. -/
theorem error?_append (t : Text) (rest : List UInt8) : error? (encode t ++ rest) =
    (error? rest).map fun e => { e with offset := e.offset + (encode t).length } := by
  induction t with
  | nil => simp
  | cons c t ih =>
    rw [encode_cons, List.append_assoc, error?_char, ih, Option.map_map, List.length_append]
    congr 1
    funext e
    simp [Nat.add_assoc, Nat.add_comm]

/-- The error of bytes is at the first broken part. -/
theorem Broken.decode_eq (broken : Broken part later) (t : Text) : ∃ fault,
    decode (encode t ++ (part ++ later)) = .error ⟨(encode t).length, part.length, fault⟩ := by
  obtain ⟨fault, error⟩ := broken.error?_eq
  exact ⟨fault, by rw [decode, error?_append, error]; simp⟩

/-- Exactly the bytes of texts are read, each to the one text that it is the bytes of. -/
theorem decode_eq_ok_iff : decode bytes = .ok t ↔ bytes = encode t := by
  rw [decode]
  constructor
  · intro same
    rcases error?_cases bytes with ⟨u, rfl, none⟩ | ⟨u, part, later, fault, rfl, _, error⟩
    · rw [none, Except.ok.injEq] at same
      rw [← same, ← (mended_encode u).eq_decodeLossy]
    · rw [error] at same
      cases same
  · rintro rfl
    rw [error?_encode, ← (mended_encode t).eq_decodeLossy]

theorem encode_inj {u : Text} (same : encode t = encode u) : t = u := by
  have read := decode_eq_ok_iff.mpr same
  rw [decode_eq_ok_iff.mpr rfl] at read
  exact Except.ok.inj read

/-- Bytes that are those of no text have an error. It is at the first broken part. -/
theorem exists_broken (no : ∀ t, bytes ≠ encode t) : ∃ t part later fault,
    bytes = encode t ++ (part ++ later) ∧ Broken part later ∧
      decode bytes = .error ⟨(encode t).length, part.length, fault⟩ := by
  rcases error?_cases bytes with ⟨t, same, _⟩ | ⟨t, part, later, fault, same, broken, error⟩
  · exact absurd same (no t)
  · exact ⟨t, part, later, fault, same, broken, by rw [decode, error]⟩

/-- No character begins another one. -/
theorem encodeChar_append_inj (same : encodeChar c ++ rest = encodeChar d ++ later) :
    c = d ∧ rest = later := by
  have first := fronts_char c rest
  rw [same, fronts_char, List.cons.injEq, Prod.mk.injEq, Front.char.injEq] at first
  obtain rfl := first.1.2.1
  exact ⟨rfl, List.append_cancel_left same⟩

/-- Where the bytes of a text are in front of others, these are the bytes of what is left. -/
theorem exists_of_encode_append {u : Text} (same : encode t ++ rest = encode u) :
    ∃ v, u = t ++ v ∧ rest = encode v := by
  induction t generalizing u with
  | nil => exact ⟨u, rfl, by rw [← same, encode_nil, List.nil_append]⟩
  | cons c t ih =>
    rw [encode_cons, List.append_assoc] at same
    cases u with
    | nil =>
      rw [encode_nil] at same
      exact absurd (List.append_eq_nil_iff.mp same).1 (encodeChar_ne_nil c)
    | cons d u =>
      rw [encode_cons] at same
      obtain ⟨rfl, others⟩ := encodeChar_append_inj same
      obtain ⟨v, rfl, left⟩ := ih others
      exact ⟨v, rfl, left⟩

/-- The bytes before the first broken part are the longest front that is the bytes of a text. -/
theorem Broken.isGreatest (broken : Broken part later)
    (same : bytes = encode t ++ (part ++ later)) :
    IsGreatest {n | n ≤ bytes.length ∧ ∃ u, bytes.take n = encode u} (encode t).length := by
  subst same
  refine ⟨⟨by simp, t, List.take_left⟩, ?_⟩
  rintro n ⟨_, u, front⟩
  by_contra beyond
  rw [List.take_append, List.take_of_length_le (by omega)] at front
  obtain ⟨v, rfl, left⟩ := exists_of_encode_append front
  cases v with
  | nil =>
    have size := congrArg List.length left
    have some := List.length_pos_iff.mpr broken.ne_nil
    simp only [encode_nil, List.length_nil, List.length_take, List.length_append] at size
    omega
  | cons c v =>
    have char : encodeChar c <+: (part ++ later).take (n - (encode t).length) :=
      ⟨encode v, by rw [left, encode_cons]⟩
    exact broken.not_prefix c (char.trans (List.take_prefix _ _))

theorem encodeChar_newline : encodeChar '\n' = [10] := by
  rw [encodeChar_eq]
  rfl

theorem encodeChar_of_mem (member : 10 ∈ encodeChar c) : c = '\n' := by
  have alone := encodeChar_of_small (by decide) member
  have same : encodeChar c ++ [] = encodeChar '\n' ++ [] := by rw [alone, encodeChar_newline]
  exact (encodeChar_append_inj same).1

theorem Broken.not_mem (broken : Broken part later) : 10 ∉ part := by
  intro member
  rcases broken.begins with ⟨c, more, whole⟩ | single
  · obtain rfl : c = '\n' := encodeChar_of_mem (by rw [← whole]; exact List.mem_append_left _ member)
    rw [encodeChar_newline, List.append_eq_singleton_iff] at whole
    rcases whole with ⟨none, _⟩ | ⟨whole, _⟩
    · exact broken.ne_nil none
    · exact broken.no_char '\n' ⟨[], by rw [encodeChar_newline, whole]; rfl⟩
  · obtain ⟨b, rfl⟩ := List.length_eq_one_iff.mp single
    obtain rfl := List.mem_singleton.mp member
    exact broken.no_char '\n' ⟨[], by rw [encodeChar_newline]; rfl⟩

/-- A part that is broken is so before a byte of ASCII, whatever else came after it. -/
theorem Broken.before {more : List UInt8} (broken : Broken part later)
    (next : ∀ b ∈ more.head?, later.head? = some b ∨ b.toNat < 0x80) : Broken part more := by
  refine { broken with stops := fun b here => ?_ }
  rcases next b here with same | small
  · exact broken.stops b same
  · rintro ⟨c, front⟩
    have alone := encodeChar_of_small small (front.subset (by simp))
    have some := List.length_pos_iff.mpr broken.ne_nil
    have size := front.length_le
    rw [alone, List.length_append, List.length_singleton] at size
    omega

/-- A part that is broken at the end of the bytes is so before a line feed. -/
theorem Broken.append (broken : Broken part later) (more : List UInt8) :
    Broken part (later ++ 10 :: more) := by
  refine broken.before fun b here => ?_
  cases later with
  | cons => exact .inl here
  | nil =>
    obtain rfl := Option.some.inj here
    exact .inr (by decide)

theorem Mended.append {u : Text} (mended : Mended bytes t) (next : Mended later u) :
    Mended (bytes ++ 10 :: later) (t ++ '\n' :: u) := by
  induction mended with
  | nil =>
    rw [List.nil_append, List.nil_append, ← List.singleton_append, ← encodeChar_newline]
    exact .char '\n' next
  | char c _ ih => rw [List.append_assoc]; exact .char c ih
  | broken here _ ih => rw [List.append_assoc]; exact .broken (here.append _) ih

/-- Bytes can be read a line at a time. -/
theorem decodeLossy_append (bytes later : List UInt8) : decodeLossy (bytes ++ 10 :: later) =
    decodeLossy bytes ++ '\n' :: decodeLossy later :=
  ((mended_decodeLossy bytes).append (mended_decodeLossy later)).eq_decodeLossy.symm

theorem Mended.newline_mem_iff (mended : Mended bytes t) : '\n' ∈ t ↔ 10 ∈ bytes := by
  induction mended with
  | nil => simp
  | char c _ ih =>
    have here : '\n' = c ↔ 10 ∈ encodeChar c :=
      ⟨fun same => by rw [← same, encodeChar_newline]; exact List.mem_singleton_self _,
        fun member => (encodeChar_of_mem member).symm⟩
    rw [List.mem_cons, List.mem_append, ih, here]
  | broken here _ ih => simp [ih, here.not_mem]

/-- The lines of the text are the texts of the lines. -/
theorem splitOn_decodeLossy (bytes : List UInt8) :
    (decodeLossy bytes).splitOn '\n' = (bytes.splitOn 10).map decodeLossy := by
  induction size : bytes.length using Nat.strongRecOn generalizing bytes with
  | _ n ih =>
    by_cases member : 10 ∈ bytes
    · obtain ⟨line, later, rfl, inside⟩ := List.eq_append_cons_of_mem member
      have plain := mt (mended_decodeLossy line).newline_mem_iff.mp inside
      rw [List.length_append, List.length_cons] at size
      rw [decodeLossy_append, List.splitOn_append_cons_self_of_not_mem plain,
        List.splitOn_append_cons_self_of_not_mem inside, ih _ (by omega) later rfl, List.map_cons]
    · have plain := mt (mended_decodeLossy bytes).newline_mem_iff.mp member
      rw [List.splitOn_eq_singleton plain, List.splitOn_eq_singleton member, List.map_singleton]

-- A part that a line feed cuts off is one character of the text, as is one that the end cuts off.
example : decodeLossy [0xe2, 0x82, 0x0a, 0xe2, 0x82] = ['\ufffd', '\n', '\ufffd'] := by decide

end VyperFront.Utf8
