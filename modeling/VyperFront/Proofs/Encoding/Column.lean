import VyperFront.Proofs.Encoding
import VyperFront.Proofs.Text.Place

/-! Where the error of bytes is reported. The line is the one that the first broken part is in; the
column counts bytes. So it is the column of the broken part in the text that is read just if all
characters before it in the line are single bytes. -/

namespace VyperFront

namespace Utf8

variable {b : UInt8} {bytes part later : List UInt8} {c : Char} {t : Text}

theorem length_encodeChar (c : Char) : (encodeChar c).length = c.utf8Size := by
  rw [encodeChar_eq, String.length_utf8EncodeChar]

theorem length_encodeChar_eq_one_iff : (encodeChar c).length = 1 ↔ c.toNat < 128 := by
  rw [length_encodeChar, Char.utf8Size_eq_one_iff, UInt32.le_iff_toNat_le]
  exact Nat.lt_succ_iff.symm

theorem length_le_length_encode (t : Text) : t.length ≤ (encode t).length := by
  induction t with
  | nil => exact Nat.zero_le _
  | cons c t ih =>
    have some := List.length_pos_iff.mpr (encodeChar_ne_nil c)
    rw [encode_cons, List.length_append, List.length_cons]
    omega

theorem length_encode_eq_iff : (encode t).length = t.length ↔ ∀ c ∈ t, c.toNat < 128 := by
  induction t with
  | nil => simp
  | cons c t ih =>
    have some := List.length_pos_iff.mpr (encodeChar_ne_nil c)
    have others := length_le_length_encode t
    rw [List.forall_mem_cons, ← ih, ← length_encodeChar_eq_one_iff, encode_cons,
      List.length_append, List.length_cons]
    omega

theorem count_encodeChar (c : Char) : (encodeChar c).count 10 = [c].count '\n' := by
  by_cases feed : c = '\n'
  · rw [feed, encodeChar_newline]
    rfl
  · rw [List.count_eq_zero.mpr (mt encodeChar_of_mem feed),
      List.count_eq_zero.mpr (by simpa using Ne.symm feed)]

theorem count_encode (t : Text) : (encode t).count 10 = t.count '\n' := by
  induction t with
  | nil => rw [encode_nil]; rfl
  | cons c t ih =>
    rw [encode_cons, List.count_append, ih, count_encodeChar, ← List.count_append,
      List.singleton_append]

theorem feed_not_mem_encode_lastLine (t : Text) : 10 ∉ encode t.lastLine :=
  mt (mended_encode t.lastLine).newline_mem_iff.mpr (Text.feed_not_mem_lastLine t)

/-- What follows the last line feed in the bytes of a text are the bytes of its last line. -/
theorem takeWhile_reverse_encode (t : Text) :
    (encode t).reverse.takeWhile (· != 10) = (encode t.lastLine).reverse := by
  have plain : 10 ∉ (encode t.lastLine).reverse :=
    mt List.mem_reverse.mp (feed_not_mem_encode_lastLine t)
  by_cases feed : '\n' ∈ t
  · obtain ⟨front, same⟩ := Text.exists_lastLine feed
    have whole : encode t = encode front ++ 10 :: encode t.lastLine := by
      rw [← List.singleton_append, ← encodeChar_newline, ← encode_cons, ← encode_append, ← same]
    rw [whole, List.reverse_append, List.reverse_cons, List.append_assoc, List.singleton_append,
      takeWhile_append plain]
  · rw [Text.lastLine_of_not_mem feed] at plain ⊢
    exact takeWhile_line plain

theorem encode_lastLine_suffix (t : Text) : encode t.lastLine <:+ encode t := by
  rw [← List.reverse_prefix, ← takeWhile_reverse_encode]
  exact List.takeWhile_prefix _

theorem decodeLossy_encode_append (t : Text) (bytes : List UInt8) :
    decodeLossy (encode t ++ bytes) = t ++ decodeLossy bytes := by
  induction t with
  | nil => rw [encode_nil]; rfl
  | cons c t ih => rw [encode_cons, List.append_assoc, decodeLossy_char, ih, List.cons_append]

/-- The first line of the text is the text of the first line. -/
theorem takeWhile_decodeLossy (bytes : List UInt8) :
    (decodeLossy bytes).takeWhile (· ≠ '\n') = decodeLossy (bytes.takeWhile (· != 10)) := by
  have plain (line : List UInt8) (inside : 10 ∉ line) :
      (decodeLossy line).takeWhile (· ≠ '\n') = decodeLossy line := by
    refine List.takeWhile_eq_self_iff.mpr fun c member => decide_eq_true ?_
    rintro rfl
    exact inside ((mended_decodeLossy line).newline_mem_iff.mp member)
  by_cases member : 10 ∈ bytes
  · obtain ⟨line, later, rfl, inside⟩ := List.eq_append_cons_of_mem member
    rw [decodeLossy_append, Text.takeWhile_append_feed, takeWhile_append inside, plain line inside]
  · rw [takeWhile_line member, plain bytes member]

/-- The first broken part of bytes, after those of a text. -/
structure FirstBroken (bytes : List UInt8) (t : Text) (part later : List UInt8) : Prop where
  eq : bytes = encode t ++ (part ++ later)
  broken : Broken part later

theorem exists_firstBroken (no : ∀ t, bytes ≠ encode t) :
    ∃ t part later, FirstBroken bytes t part later := by
  obtain ⟨t, part, later, _, same, broken, _⟩ := exists_broken no
  exact ⟨t, part, later, same, broken⟩

namespace FirstBroken

theorem decode_eq (first : FirstBroken bytes t part later) :
    ∃ fault, decode bytes = .error ⟨(encode t).length, part.length, fault⟩ := by
  rw [first.eq]
  exact first.broken.decode_eq t

theorem ne_encode (first : FirstBroken bytes t part later) (u : Text) : bytes ≠ encode u := by
  intro same
  obtain ⟨fault, decoded⟩ := first.decode_eq
  rw [decode_eq_ok_iff.mpr same] at decoded
  cases decoded

theorem getElem?_splitOn (first : FirstBroken bytes t part later) :
    (bytes.splitOn 10)[t.count '\n']? =
      some (encode t.lastLine ++ (part ++ later.takeWhile (· != 10))) := by
  obtain ⟨before, whole⟩ := encode_lastLine_suffix t
  have line := Utf8.getElem?_splitOn (encode t) (part ++ later)
  have start : (encode t).length - (encode t.lastLine).length = before.length := by
    rw [← whole, List.length_append, Nat.add_sub_cancel]
  rw [count_encode, takeWhile_reverse_encode, List.length_reverse, start, ← first.eq] at line
  rw [line, first.eq, ← whole, List.append_assoc, List.drop_left,
    takeWhile_of_not_mem (feed_not_mem_encode_lastLine t),
    takeWhile_of_not_mem first.broken.not_mem]

theorem getElem?_lines (first : FirstBroken bytes t part later) :
    (decodeLossy bytes).lines[t.count '\n']? =
      some (t.lastLine ++ '\ufffd' :: decodeLossy (later.takeWhile (· != 10))) := by
  rw [first.eq, decodeLossy_encode_append, first.broken.decodeLossy_eq,
    Text.getElem?_lines_append, List.takeWhile_cons_of_pos (by decide), takeWhile_decodeLossy]

end FirstBroken

end Utf8

/-- Whether an error is at the character for a broken part that is in its line just after the given
text. Lines and columns are counted from one. -/
def SyntaxError.Designates (e : SyntaxError) (text before : Text) : Prop :=
  ∃ (l c : Nat) (content : Text), e.line = some ((l + 1 : Nat) : Int) ∧
    e.column = some ((c + 1 : Nat) : Int) ∧ text.lines[l]? = some content ∧
    content[c]? = some '\ufffd' ∧ content.take c = before

/-- A column that is not too small is right just if it counts the characters before it. -/
theorem SyntaxError.designates_iff {e : SyntaxError} {text before rest : Text} {l c : Nat}
    (line : e.line = some ((l + 1 : Nat) : Int)) (column : e.column = some ((c + 1 : Nat) : Int))
    (found : text.lines[l]? = some (before ++ '\ufffd' :: rest)) (enough : before.length ≤ c) :
    e.Designates text before ↔ c = before.length := by
  constructor
  · rintro ⟨m, n, content, also, there, here, _, front⟩
    rw [line, Option.some.injEq] at also
    rw [column, Option.some.injEq] at there
    obtain rfl : m = l := by omega
    obtain rfl : n = c := by omega
    rw [found, Option.some.injEq] at here
    have size := congrArg List.length front
    rw [← here, List.length_take, List.length_append, List.length_cons] at size
    omega
  · rintro rfl
    refine ⟨l, before.length, _, line, column, found, ?_, List.take_left⟩
    rw [List.getElem?_append_right (Nat.le_refl _), Nat.sub_self, List.getElem?_cons_zero]

namespace Reading

theorem column_encodingError (bytes : List UInt8) (e : Utf8.Error) :
    (encodingError bytes e).column =
      some ((((bytes.take e.offset).reverse.takeWhile (· != 10)).length + 1 : Nat) : Int) :=
  rfl

/-- The error is in the line of the broken part, at the column that counts the bytes before it. -/
theorem encodingError_place {bytes part later : List UInt8} {t : Text} {e : Utf8.Error}
    (first : Utf8.FirstBroken bytes t part later) (offset : e.offset = (Utf8.encode t).length) :
    (encodingError bytes e).line = some ((t.count '\n' + 1 : Nat) : Int) ∧
      (encodingError bytes e).column =
        some (((Utf8.encode t.lastLine).length + 1 : Nat) : Int) := by
  have front : bytes.take e.offset = Utf8.encode t := by rw [offset, first.eq, List.take_left]
  have inside : e.offset ≤ bytes.length := by simp [offset, first.eq]
  obtain ⟨_, line, _⟩ := encodingError_eq inside
  rw [line, column_encodingError, front, Utf8.count_encode, Utf8.takeWhile_reverse_encode,
    List.length_reverse]
  exact ⟨rfl, rfl⟩

end Reading

namespace Parser

variable {bytes part later : List UInt8} {t : Text}

/-- Bytes with a broken part have one error. It is in the line of the first one, at the column that
counts the bytes before it. -/
theorem exists_error_of_firstBroken (l : Language) (first : Utf8.FirstBroken bytes t part later) :
    ∃ (p : Parse) (e : SyntaxError),
      (Parser.empty.setLanguage l).parse (.bytes bytes) = .ok p ∧ p.errors = [e] ∧
      p.text = Utf8.decodeLossy bytes ∧ e.line = some ((t.count '\n' + 1 : Nat) : Int) ∧
      e.column = some (((Utf8.encode t.lastLine).length + 1 : Nat) : Int) := by
  obtain ⟨fault, decoded⟩ := first.decode_eq
  obtain ⟨line, column⟩ := Reading.encodingError_place
    (e := ⟨(Utf8.encode t).length, part.length, fault⟩) first rfl
  refine ⟨l.parse (.bytes bytes), _, rfl, ?_, ?_, line, column⟩
  · rw [Language.parse, Reading.parse, decoded]
    rfl
  · rw [Language.parse, Reading.parse, decoded]

/-- Bytes that are no UTF-8 have one error, in the line in which their first broken part is. Its
column counts the bytes of this line before the broken part. In the text that is read the
character for the broken part is in this line after the text of these bytes, and the error
designates it just if they are ASCII. -/
theorem parse_bytes_column (l : Language) (no : ∀ t, bytes ≠ Utf8.encode t) :
    ∃ (p : Parse) (e : SyntaxError),
      (Parser.empty.setLanguage l).parse (.bytes bytes) = .ok p ∧ p.errors = [e] ∧
      (∃ t part later, Utf8.FirstBroken bytes t part later) ∧
      ∀ t part later, Utf8.FirstBroken bytes t part later →
        e.line = some ((t.count '\n' + 1 : Nat) : Int) ∧
        e.column = some (((Utf8.encode t.lastLine).length + 1 : Nat) : Int) ∧
        (bytes.splitOn 10)[t.count '\n']? =
          some (Utf8.encode t.lastLine ++ (part ++ later.takeWhile (· != 10))) ∧
        p.text.lines[t.count '\n']? =
          some (t.lastLine ++ '\ufffd' :: Utf8.decodeLossy (later.takeWhile (· != 10))) ∧
        (e.Designates p.text t.lastLine ↔ ∀ c ∈ t.lastLine, c.toNat < 128) := by
  obtain ⟨t, part, later, first⟩ := Utf8.exists_firstBroken no
  obtain ⟨p, e, parsed, errors, read, _⟩ := exists_error_of_firstBroken l first
  refine ⟨p, e, parsed, errors, ⟨t, part, later, first⟩, fun u tail rest also => ?_⟩
  obtain ⟨q, d, reparsed, same, _, line, column⟩ := exists_error_of_firstBroken l also
  obtain rfl := Except.ok.inj (parsed.symm.trans reparsed)
  obtain rfl := List.singleton_inj.mp (errors.symm.trans same)
  have found := also.getElem?_lines
  rw [← read] at found
  refine ⟨line, column, also.getElem?_splitOn, found, ?_⟩
  rw [SyntaxError.designates_iff line column found (Utf8.length_le_length_encode _),
    Utf8.length_encode_eq_iff]

/-- Two lines of ASCII, the second one with a byte that no character begins with. -/
def Sample.stray : List UInt8 := Utf8.encode "x = 1\ny = ".toList ++ [0xff, 0x0a]

theorem Sample.firstBroken_stray : Utf8.FirstBroken stray "x = 1\ny = ".toList [0xff] [0x0a] :=
  ⟨rfl, Utf8.broken_of_lead? rfl _⟩

theorem parse_bytes_column_ascii : (∀ t, Sample.stray ≠ Utf8.encode t) ∧
    ∃ p e, (Parser.empty.setLanguage (Artifact.language .default)).parse
        (.bytes Sample.stray) = .ok p ∧
      p.errors = [e] ∧ e.line = some 2 ∧ e.column = some 5 ∧ e.Designates p.text "y = ".toList := by
  have no := Sample.firstBroken_stray.ne_encode
  obtain ⟨p, e, parsed, errors, _, place⟩ := parse_bytes_column (Artifact.language .default) no
  obtain ⟨line, column, _, _, right⟩ := place _ _ _ Sample.firstBroken_stray
  have last : Text.lastLine "x = 1\ny = ".toList = "y = ".toList := by decide
  have ascii : ∀ c ∈ "y = ".toList, c.toNat < 128 := by simp
  rw [last] at column right
  rw [Utf8.length_encode_eq_iff.mpr ascii] at column
  exact ⟨no, p, e, parsed, errors, line, column, right.mpr ascii⟩

/-- A letter of two bytes, with a byte after it that no character begins with. -/
def Sample.accented : List UInt8 := [0xc3, 0xa9, 0xff]

theorem Sample.encode_accent : Utf8.encode ['é'] = [0xc3, 0xa9] :=
  (Utf8.decode_eq_ok_iff.mp rfl).symm

theorem Sample.firstBroken_accented : Utf8.FirstBroken accented ['é'] [0xff] [] :=
  ⟨by rw [encode_accent]; rfl, Utf8.broken_of_lead? rfl _⟩

/-- After a letter of two bytes, the error is at a column beyond the end of the line. -/
theorem parse_bytes_beyond : (∀ t, Sample.accented ≠ Utf8.encode t) ∧
    Utf8.FirstBroken Sample.accented ['é'] [0xff] [] ∧
    ∃ p e, (Parser.empty.setLanguage (Artifact.language .default)).parse
        (.bytes Sample.accented) = .ok p ∧
      p.errors = [e] ∧ p.text.lines = [['é', '\ufffd']] ∧ e.line = some 1 ∧ e.column = some 3 ∧
      ¬ e.Designates p.text ['é'] := by
  have first := Sample.firstBroken_accented
  obtain ⟨p, e, parsed, errors, read, line, column⟩ :=
    exists_error_of_firstBroken (Artifact.language .default) first
  have last : Text.lastLine ['é'] = ['é'] := by decide
  have lines : p.text.lines = [['é', '\ufffd']] := by
    rw [read]
    decide
  have found : p.text.lines[0]? = some (['é'] ++ '\ufffd' :: []) := by
    rw [lines]
    rfl
  rw [last, Sample.encode_accent] at column
  have elsewhere : e.Designates p.text ['é'] ↔ 2 = ['é'].length :=
    SyntaxError.designates_iff line column found (by decide)
  exact ⟨first.ne_encode, first, p, e, parsed, errors, lines, line, column,
    fun right => absurd (elsewhere.mp right) (by decide)⟩

end Parser

end VyperFront
