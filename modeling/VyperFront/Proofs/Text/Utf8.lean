import Mathlib.Data.List.Basic
import Mathlib.Tactic.SplitIfs
import VyperFront.Text.Utf8

/-! The forms of UTF-8. The first byte of a character says how many follow it, and which can be
the next one. So bytes begin with a character, or with a part that is broken: that could have
become a character, but for the byte after it or the end. -/

namespace VyperFront.Utf8

variable {b : UInt8} {rest tail bytes : List UInt8} {c d : Char} {t : Text}
  {need low high value taken : Nat}

private theorem loop_toList (l : List UInt8) (i : Nat) (r : List UInt8) :
    ByteArray.toList.loop l.toByteArray i r = r.reverse ++ l.drop i := by
  induction left : l.length - i generalizing i r with
  | zero =>
    rw [ByteArray.toList.loop, if_neg (by rw [List.size_toByteArray]; omega),
      List.drop_eq_nil_of_le (by omega), List.append_nil]
  | succ n ih =>
    have inside : i < l.length := by omega
    have byte : l.toByteArray.get! i = l[i] := by
      simp [ByteArray.get!, List.data_toByteArray, inside]
    rw [ByteArray.toList.loop, if_pos (by rw [List.size_toByteArray]; omega), ih _ _ (by omega),
      byte, List.reverse_cons, List.append_assoc, List.drop_eq_getElem_cons inside]
    rfl

theorem toList_toByteArray (l : List UInt8) : l.toByteArray.toList = l :=
  loop_toList l 0 []

theorem encode_eq (t : Text) : encode t = t.flatMap String.utf8EncodeChar := by
  rw [encode, String.toUTF8_eq_toByteArray, String.toByteArray_ofList, List.utf8Encode,
    toList_toByteArray]

theorem encodeChar_eq (c : Char) : encodeChar c = String.utf8EncodeChar c := by
  rw [encodeChar, String.toUTF8_eq_toByteArray, String.toByteArray_singleton, List.utf8Encode,
    toList_toByteArray, List.flatMap_singleton]

@[simp] theorem encode_nil : encode [] = [] := encode_eq []

theorem encode_cons (c : Char) (t : Text) : encode (c :: t) = encodeChar c ++ encode t := by
  rw [encode_eq, List.flatMap_cons, encodeChar_eq, encode_eq]

theorem encode_append (t u : Text) : encode (t ++ u) = encode t ++ encode u := by
  simp [encode_eq]

theorem encodeChar_ne_nil (c : Char) : encodeChar c ≠ [] := by
  rw [encodeChar_eq]
  exact String.utf8EncodeChar_ne_nil

/-- What the first byte of a character says: how many bytes come after it, between which two the
next one is, and what it adds to the number of the character. -/
structure Lead where
  need : Nat
  low : Nat
  high : Nat
  value : Nat

def lead? (b : UInt8) : Option Lead :=
  let first := b.toNat
  if first < 0x80 then some ⟨0, 0x80, 0xbf, first⟩
  else if first < 0xc2 then none
  else if first < 0xe0 then some ⟨1, 0x80, 0xbf, first - 0xc0⟩
  else if first < 0xf0 then
    some ⟨2, if first = 0xe0 then 0xa0 else 0x80, if first = 0xed then 0x9f else 0xbf,
      first - 0xe0⟩
  else if first < 0xf5 then
    some ⟨3, if first = 0xf0 then 0x90 else 0x80, if first = 0xf4 then 0x8f else 0xbf,
      first - 0xf0⟩
  else none

theorem front_eq (b : UInt8) (rest : List UInt8) :
    front b rest = match lead? b with
      | some l => gather l.need l.low l.high l.value 1 rest
      | none => .bad .invalidStart 1 := by
  rw [front, lead?]
  split_ifs <;> rfl

/-- Whether bytes can come one after the other behind the first one of a character, the next one
from the given range. -/
def Follow (low high : Nat) : List UInt8 → Prop
  | [] => True
  | b :: rest => (low ≤ b.toNat ∧ b.toNat ≤ high) ∧ Follow 0x80 0xbf rest

theorem follow_nil : Follow low high [] ↔ True := Iff.rfl

theorem follow_cons :
    Follow low high (b :: rest) ↔ (low ≤ b.toNat ∧ b.toNat ≤ high) ∧ Follow 0x80 0xbf rest := by
  rw [Follow]

/-- The number of a character, six bits to a byte. -/
def number (value : Nat) (tail : List UInt8) : Nat :=
  tail.foldl (fun value b => value * 64 + (b.toNat - 0x80)) value

theorem number_nil : number value [] = value := rfl

theorem number_cons :
    number value (b :: rest) = number (value * 64 + (b.toNat - 0x80)) rest := by
  rw [number, number, List.foldl_cons]

theorem gather_of_follow (follow : Follow low high tail) (value taken : Nat)
    (rest : List UInt8) :
    gather tail.length low high value taken (tail ++ rest) =
      .char (Char.ofNat (number value tail)) (taken + tail.length) := by
  induction tail generalizing low high value taken with
  | nil => rfl
  | cons b tail ih =>
    obtain ⟨inside, follow⟩ := follow_cons.mp follow
    rw [List.length_cons, List.cons_append, gather, if_pos inside, ih follow, number_cons,
      Nat.add_right_comm, Nat.add_assoc]

/-- Either enough bytes follow, or they end with one that cannot follow, or with all. -/
theorem gather_cases (need low high value taken : Nat) (bytes : List UInt8) :
    (∃ tail rest, bytes = tail ++ rest ∧ tail.length = need ∧ Follow low high tail) ∨
      ∃ tail rest fault, bytes = tail ++ rest ∧ tail.length < need ∧ Follow low high tail ∧
        (∀ b ∈ rest.head?, ¬ Follow low high (tail ++ [b])) ∧
        gather need low high value taken bytes = .bad fault (taken + tail.length) := by
  induction need generalizing low high value taken bytes with
  | zero => exact .inl ⟨[], bytes, rfl, rfl, trivial⟩
  | succ need ih =>
    cases bytes with
    | nil =>
      exact .inr ⟨[], [], .unexpectedEnd, rfl, Nat.succ_pos _, trivial, by simp, rfl⟩
    | cons b rest =>
      by_cases inside : low ≤ b.toNat ∧ b.toNat ≤ high
      · rw [gather, if_pos inside]
        rcases ih 0x80 0xbf (value * 64 + (b.toNat - 0x80)) (taken + 1) rest with
          ⟨tail, rest, rfl, length, follow⟩ | ⟨tail, rest, fault, rfl, short, follow, stops, same⟩
        · exact .inl ⟨b :: tail, rest, rfl, by simp [length],
            follow_cons.mpr ⟨inside, follow⟩⟩
        · refine .inr ⟨b :: tail, rest, fault, rfl, by simpa using short,
            follow_cons.mpr ⟨inside, follow⟩, ?_, ?_⟩
          · exact fun d here all => stops d here (follow_cons.mp all).2
          · rw [same, List.length_cons, Nat.add_assoc, Nat.add_comm 1]
      · refine .inr ⟨[], b :: rest, .invalidContinuation, rfl, Nat.succ_pos _, trivial, ?_, ?_⟩
        · rintro d ⟨⟩ all
          exact inside (follow_cons.mp all).1
        · rw [gather, if_neg inside]
          rfl

theorem toNat_byte {n : Nat} (small : n < 256) : (UInt8.ofNat n).toNat = n :=
  UInt8.toNat_ofNat_of_lt' small

/-- The bytes of a character are a first one, and as many as it says that can follow. They say the
number of the character. -/
theorem exists_lead (c : Char) :
    ∃ b tail l, encodeChar c = b :: tail ∧ lead? b = some l ∧ tail.length = l.need ∧
      Follow l.low l.high tail ∧ number l.value tail = c.toNat := by
  have valid : c.toNat < 0xd800 ∨ 0xdfff < c.toNat ∧ c.toNat < 0x110000 := c.valid
  have bytes := String.utf8EncodeChar.eq_1 c
  rw [← encodeChar_eq, Char.toNat_val] at bytes
  generalize c.toNat = n at valid bytes ⊢
  split_ifs at bytes with one two three
  · refine ⟨_, _, ⟨0, 0x80, 0xbf, n⟩, bytes, ?_, rfl, trivial, rfl⟩
    rw [lead?, toNat_byte (by omega), if_pos (by omega)]
  · refine ⟨_, _, ⟨1, 0x80, 0xbf, n / 64 % 32⟩, bytes, ?_, rfl, ?_, ?_⟩
    · rw [lead?, toNat_byte (by omega), if_neg (by omega), if_neg (by omega), if_pos (by omega),
        Nat.add_sub_cancel]
    · simp (disch := omega) only [follow_cons, follow_nil, toNat_byte, and_true]
      omega
    · simp (disch := omega) only [number_cons, number_nil, toNat_byte]
      omega
  · refine ⟨_, _, ⟨2, if n / 4096 % 16 + 224 = 0xe0 then 0xa0 else 0x80,
      if n / 4096 % 16 + 224 = 0xed then 0x9f else 0xbf, n / 4096 % 16⟩, bytes, ?_, rfl, ?_, ?_⟩
    · rw [lead?, toNat_byte (by omega), if_neg (by omega), if_neg (by omega), if_neg (by omega),
        if_pos (by omega), Nat.add_sub_cancel]
    · simp (disch := omega) only [follow_cons, follow_nil, toNat_byte, and_true]
      split_ifs <;> omega
    · simp (disch := omega) only [number_cons, number_nil, toNat_byte]
      omega
  · refine ⟨_, _, ⟨3, if n / 262144 % 8 + 240 = 0xf0 then 0x90 else 0x80,
      if n / 262144 % 8 + 240 = 0xf4 then 0x8f else 0xbf, n / 262144 % 8⟩, bytes, ?_, rfl, ?_, ?_⟩
    · rw [lead?, toNat_byte (by omega), if_neg (by omega), if_neg (by omega), if_neg (by omega),
        if_neg (by omega), if_pos (by omega), Nat.add_sub_cancel]
    · simp (disch := omega) only [follow_cons, follow_nil, toNat_byte, and_true]
      split_ifs <;> omega
    · simp (disch := omega) only [number_cons, number_nil, toNat_byte]
      omega

theorem lead_cases {l : Lead} (lead : lead? b = some l) :
    (b.toNat < 0x80 ∧ l = ⟨0, 0x80, 0xbf, b.toNat⟩) ∨
      ((0xc2 ≤ b.toNat ∧ b.toNat < 0xe0) ∧ l = ⟨1, 0x80, 0xbf, b.toNat - 0xc0⟩) ∨
      ((0xe0 ≤ b.toNat ∧ b.toNat < 0xf0) ∧ l = ⟨2, if b.toNat = 0xe0 then 0xa0 else 0x80,
        if b.toNat = 0xed then 0x9f else 0xbf, b.toNat - 0xe0⟩) ∨
      (0xf0 ≤ b.toNat ∧ b.toNat < 0xf5) ∧ l = ⟨3, if b.toNat = 0xf0 then 0x90 else 0x80,
        if b.toNat = 0xf4 then 0x8f else 0xbf, b.toNat - 0xf0⟩ := by
  rw [lead?] at lead
  by_cases one : b.toNat < 0x80
  · rw [if_pos one] at lead
    exact .inl ⟨one, (Option.some.inj lead).symm⟩
  by_cases none : b.toNat < 0xc2
  · rw [if_neg one, if_pos none] at lead
    cases lead
  by_cases two : b.toNat < 0xe0
  · rw [if_neg one, if_neg none, if_pos two] at lead
    exact .inr (.inl ⟨by omega, (Option.some.inj lead).symm⟩)
  by_cases three : b.toNat < 0xf0
  · rw [if_neg one, if_neg none, if_neg two, if_pos three] at lead
    exact .inr (.inr (.inl ⟨by omega, (Option.some.inj lead).symm⟩))
  by_cases four : b.toNat < 0xf5
  · rw [if_neg one, if_neg none, if_neg two, if_neg three, if_pos four] at lead
    exact .inr (.inr (.inr ⟨by omega, (Option.some.inj lead).symm⟩))
  · rw [if_neg one, if_neg none, if_neg two, if_neg three, if_neg four] at lead
    cases lead

private theorem ofNat_eq {n : Nat} (same : b.toNat = n) : UInt8.ofNat n = b := by
  rw [← same]
  exact UInt8.ofNat_toNat

private theorem toNat_ofNat {n : Nat} (valid : n < 0xd800 ∨ 0xdfff < n ∧ n < 0x110000) :
    (Char.ofNat n).toNat = n := by
  rw [Char.ofNat, dif_pos valid]
  rfl

theorem encodeChar_ofNat {l : Lead} (lead : lead? b = some l) (length : tail.length = l.need)
    (follow : Follow l.low l.high tail) :
    encodeChar (Char.ofNat (number l.value tail)) = b :: tail := by
  rw [encodeChar_eq, String.utf8EncodeChar.eq_1, Char.toNat_val]
  rcases lead_cases lead with ⟨range, rfl⟩ | ⟨range, rfl⟩ | ⟨range, rfl⟩ | ⟨range, rfl⟩
  · obtain rfl := List.length_eq_zero_iff.mp length
    rw [number_nil, toNat_ofNat (by dsimp only; omega), if_pos (by dsimp only; omega), ofNat_eq rfl]
  · obtain ⟨x, rfl⟩ := List.length_eq_one_iff.mp length
    simp only [follow_cons, follow_nil, number_cons, number_nil] at follow ⊢
    rw [toNat_ofNat (by omega), if_neg (by omega), if_pos (by omega), ofNat_eq (b := b) (by omega),
      ofNat_eq (b := x) (by omega)]
  · obtain ⟨x, y, rfl⟩ := List.length_eq_two.mp length
    simp only [follow_cons, follow_nil, number_cons, number_nil] at follow ⊢
    have within : (0xe0 < b.toNat ∨ 0xa0 ≤ x.toNat) ∧ (b.toNat ≠ 0xed ∨ x.toNat ≤ 0x9f) ∧
        0x80 ≤ x.toNat ∧ x.toNat ≤ 0xbf := by
      obtain ⟨⟨low, high⟩, _⟩ := follow
      split_ifs at low high <;> omega
    rw [toNat_ofNat (by omega), if_neg (by omega), if_neg (by omega), if_pos (by omega),
      ofNat_eq (b := b) (by omega), ofNat_eq (b := x) (by omega), ofNat_eq (b := y) (by omega)]
  · obtain ⟨x, y, z, rfl⟩ := List.length_eq_three.mp length
    simp only [follow_cons, follow_nil, number_cons, number_nil] at follow ⊢
    have within : (0xf0 < b.toNat ∨ 0x90 ≤ x.toNat) ∧ (b.toNat < 0xf4 ∨ x.toNat ≤ 0x8f) ∧
        0x80 ≤ x.toNat ∧ x.toNat ≤ 0xbf := by
      obtain ⟨⟨low, high⟩, _⟩ := follow
      split_ifs at low high <;> omega
    rw [toNat_ofNat (by omega), if_neg (by omega), if_neg (by omega), if_neg (by omega),
      ofNat_eq (b := b) (by omega), ofNat_eq (b := x) (by omega), ofNat_eq (b := y) (by omega),
      ofNat_eq (b := z) (by omega)]

theorem lead_range {l : Lead} (lead : lead? b = some l) :
    (l.low ≤ l.high ∧ l.high < 256) ∧ 0x80 ≤ l.low := by
  rcases lead_cases lead with ⟨range, rfl⟩ | ⟨range, rfl⟩ | ⟨range, rfl⟩ | ⟨range, rfl⟩
  · dsimp only
    omega
  · dsimp only
    omega
  · dsimp only
    split_ifs <;> omega
  · dsimp only
    split_ifs <;> omega

theorem Follow.of_append {more : List UInt8} (follow : Follow low high (tail ++ more)) :
    Follow low high tail := by
  induction tail generalizing low high with
  | nil => trivial
  | cons b tail ih =>
    obtain ⟨inside, follow⟩ := follow_cons.mp follow
    exact follow_cons.mpr ⟨inside, ih follow⟩

theorem Follow.le_of_mem (follow : Follow low high tail) (bound : 0x80 ≤ low) (member : b ∈ tail) :
    0x80 ≤ b.toNat := by
  induction tail generalizing low high with
  | nil => cases member
  | cons d tail ih =>
    obtain ⟨inside, follow⟩ := follow_cons.mp follow
    rcases List.mem_cons.mp member with rfl | later
    · exact Nat.le_trans bound inside.1
    · exact ih follow (Nat.le_refl _) later

/-- Bytes that follow can be made as many as are needed. -/
theorem Follow.exists_append (follow : Follow low high tail) (range : low ≤ high ∧ high < 256)
    (short : tail.length ≤ need) :
    ∃ more, (tail ++ more).length = need ∧ Follow low high (tail ++ more) := by
  induction need generalizing low high tail with
  | zero => exact ⟨[], by simpa using short, by simpa using follow⟩
  | succ need ih =>
    cases tail with
    | nil =>
      have none : Follow 0x80 0xbf [] := trivial
      obtain ⟨more, length, follow⟩ := ih none (by omega) (Nat.zero_le _)
      rw [List.nil_append] at length follow
      refine ⟨UInt8.ofNat low :: more, by simpa using length, follow_cons.mpr ⟨?_, follow⟩⟩
      rw [toNat_byte (by omega)]
      omega
    | cons b tail =>
      obtain ⟨inside, follow⟩ := follow_cons.mp follow
      obtain ⟨more, length, follow⟩ := ih follow (by omega) (Nat.le_of_succ_le_succ short)
      exact ⟨more, by simpa using length, follow_cons.mpr ⟨inside, follow⟩⟩

/-- Whether the bytes are the first ones of a character. -/
def Begins (part : List UInt8) : Prop := ∃ c, part <+: encodeChar c

theorem Begins.of_append {part more : List UInt8} (begins : Begins (part ++ more)) :
    Begins part := by
  obtain ⟨c, front⟩ := begins
  exact ⟨c, (List.prefix_append part more).trans front⟩

theorem begins_cons_iff : Begins (b :: tail) ↔
    ∃ l, lead? b = some l ∧ tail.length ≤ l.need ∧ Follow l.low l.high tail := by
  constructor
  · rintro ⟨c, more, same⟩
    obtain ⟨d, others, l, bytes, lead, length, follow, _⟩ := exists_lead c
    rw [bytes, List.cons_append, List.cons.injEq] at same
    obtain ⟨rfl, rfl⟩ := same
    rw [List.length_append] at length
    exact ⟨l, lead, by omega, follow.of_append⟩
  · rintro ⟨l, lead, short, follow⟩
    obtain ⟨more, length, follow⟩ := follow.exists_append (lead_range lead).1 short
    exact ⟨_, more, (encodeChar_ofNat lead length follow).symm⟩

theorem encodeChar_of_small (small : b.toNat < 0x80) (member : b ∈ encodeChar c) :
    encodeChar c = [b] := by
  obtain ⟨d, others, l, bytes, lead, length, follow, _⟩ := exists_lead c
  have others_large := fun later => follow.le_of_mem (b := b) (lead_range lead).2 later
  rw [bytes] at member ⊢
  rcases List.mem_cons.mp member with rfl | later
  · rcases lead_cases lead with ⟨_, rfl⟩ | ⟨range, _⟩ | ⟨range, _⟩ | ⟨range, _⟩
    · rw [List.length_eq_zero_iff.mp length]
    all_goals omega
  · have := others_large later
    omega

/-- Bytes that are no character before what comes after them. They are the first ones of a
character, or a single byte, and what comes after them does not go on with it. -/
structure Broken (part later : List UInt8) : Prop where
  ne_nil : part ≠ []
  begins : Begins part ∨ part.length = 1
  no_char : ∀ c, ¬ encodeChar c <+: part
  stops : ∀ b ∈ later.head?, ¬ Begins (part ++ [b])

/-- A byte that no character begins with is broken. -/
theorem broken_of_lead? (none : lead? b = none) (later : List UInt8) : Broken [b] later := by
  have nowhere (tail : List UInt8) : ¬ Begins (b :: tail) := by
    rw [begins_cons_iff, none]
    simp
  refine ⟨List.cons_ne_nil _ _, .inr rfl, ?_, fun d _ => nowhere [d]⟩
  rintro c ⟨more, same⟩
  obtain ⟨d, tail, _, bytes, _⟩ := exists_lead c
  rw [bytes, List.cons_append, List.cons.injEq] at same
  exact nowhere tail ⟨c, [], by rw [bytes, same.1, List.append_nil]⟩

theorem front_of_encodeChar (c : Char) (rest : List UInt8) : ∃ b tail, encodeChar c = b :: tail ∧
    front b (tail ++ rest) = .char c (encodeChar c).length := by
  obtain ⟨b, tail, l, bytes, lead, length, follow, same⟩ := exists_lead c
  refine ⟨b, tail, bytes, ?_⟩
  rw [front_eq, lead]
  dsimp only
  rw [← length, gather_of_follow follow, same, Char.ofNat_toNat, bytes, List.length_cons,
    Nat.add_comm]

/-- The front of a sequence is a character or broken. -/
theorem front_cases (b : UInt8) (rest : List UInt8) :
    (∃ c later, b :: rest = encodeChar c ++ later) ∨
      ∃ part later fault, b :: rest = part ++ later ∧ Broken part later ∧
        front b rest = .bad fault part.length := by
  rw [front_eq]
  cases lead : lead? b with
  | none => exact .inr ⟨[b], rest, _, rfl, broken_of_lead? lead rest, rfl⟩
  | some l =>
    dsimp only
    rcases gather_cases l.need l.low l.high l.value 1 rest with
      ⟨tail, later, rfl, length, follow⟩ | ⟨tail, later, fault, rfl, short, follow, stops, same⟩
    · exact .inl ⟨_, later, congrArg (· ++ later) (encodeChar_ofNat lead length follow).symm⟩
    · have begins := begins_cons_iff.mpr ⟨l, lead, Nat.le_of_lt short, follow⟩
      refine .inr ⟨b :: tail, later, fault, rfl, ⟨List.cons_ne_nil _ _, .inl begins, ?_, ?_⟩, ?_⟩
      · rintro c ⟨more, whole⟩
        obtain ⟨d, others, k, bytes, lead', length, _⟩ := exists_lead c
        rw [bytes, List.cons_append, List.cons.injEq] at whole
        obtain ⟨rfl, rfl⟩ := whole
        obtain rfl := Option.some.inj (lead.symm.trans lead')
        rw [List.length_append] at short
        omega
      · intro x here begins
        obtain ⟨k, lead', _, follow⟩ := begins_cons_iff.mp begins
        obtain rfl := Option.some.inj (lead.symm.trans lead')
        exact stops x here follow
      · rw [same, List.length_cons, Nat.add_comm]

variable {part later more : List UInt8}

/-- Bytes that begin with a character do not begin with a broken part. -/
theorem Broken.not_prefix (broken : Broken part later) (c : Char) :
    ¬ encodeChar c <+: part ++ later := by
  rintro ⟨rest, same⟩
  rcases List.append_eq_append_iff.mp same with ⟨more, inside, _⟩ | ⟨more, across, after⟩
  · exact broken.no_char c ⟨more, inside.symm⟩
  · cases more with
    | nil => exact broken.no_char c ⟨[], by rw [across, List.append_nil, List.append_nil]⟩
    | cons b more =>
      refine broken.stops b (by rw [after]; rfl) ⟨c, more, ?_⟩
      rw [across, List.append_assoc, List.singleton_append]

private theorem Broken.eq_nil (broken : Broken part (more ++ rest))
    (longer : Broken (part ++ more) rest) : more = [] := by
  cases more with
  | nil => rfl
  | cons b more =>
    have begins : Begins (part ++ b :: more) := by
      refine longer.begins.resolve_right fun single => broken.ne_nil ?_
      rw [List.length_append, List.length_cons] at single
      exact List.eq_nil_of_length_eq_zero (by omega)
    rw [← List.singleton_append, ← List.append_assoc] at begins
    exact absurd begins.of_append (broken.stops b rfl)

theorem Broken.unique (broken : Broken part later) (other : Broken tail rest)
    (same : part ++ later = tail ++ rest) : part = tail := by
  rcases List.append_eq_append_iff.mp same with ⟨more, rfl, rfl⟩ | ⟨more, rfl, rfl⟩
  · rw [broken.eq_nil other, List.append_nil]
  · rw [other.eq_nil broken, List.append_nil]

theorem Broken.front_eq (broken : Broken part later) : ∃ b tail fault, part = b :: tail ∧
    front b (tail ++ later) = .bad fault part.length := by
  obtain ⟨b, tail, rfl⟩ := List.exists_cons_of_ne_nil broken.ne_nil
  rcases front_cases b (tail ++ later) with
    ⟨c, rest, char⟩ | ⟨other, rest, fault, same, broken', front⟩
  · exact absurd ⟨rest, char.symm⟩ (broken.not_prefix c)
  · rw [← broken.unique broken' same] at front
    exact ⟨b, tail, fault, rfl, front⟩

end VyperFront.Utf8
