import VyperFront.Artifact.Compile
import VyperFront.Parser
import VyperFront.Proofs.Text.Mended

namespace VyperFront

namespace Utf8

variable {bytes part later rest : List UInt8} {t : Text}

theorem length_splitOn (bytes : List UInt8) :
    (bytes.splitOn 10).length = bytes.count 10 + 1 := by
  induction bytes with
  | nil => rfl
  | cons b rest ih =>
    rw [List.splitOn_cons_eq_if_modifyHead, List.count_cons]
    split
    · rw [List.length_cons, ih]
    · rw [List.length_modifyHead, ih]

theorem takeWhile_of_not_mem (plain : 10 ∉ bytes) (later : List UInt8) :
    (bytes ++ later).takeWhile (· != 10) = bytes ++ later.takeWhile (· != 10) :=
  List.takeWhile_append_of_pos fun b here =>
    bne_iff_ne.mpr fun same : b = 10 => plain (same ▸ here)

theorem takeWhile_line (plain : 10 ∉ bytes) : bytes.takeWhile (· != 10) = bytes := by
  have whole := takeWhile_of_not_mem plain []
  rwa [List.append_nil, List.takeWhile_nil, List.append_nil] at whole

theorem takeWhile_append (plain : 10 ∉ bytes) (later : List UInt8) :
    (bytes ++ 10 :: later).takeWhile (· != 10) = bytes := by
  rw [takeWhile_of_not_mem plain, List.takeWhile_cons_of_neg (by simp), List.append_nil]

theorem head?_splitOn (bytes : List UInt8) :
    (bytes.splitOn 10)[0]? = some (bytes.takeWhile (· != 10)) := by
  by_cases member : 10 ∈ bytes
  · obtain ⟨line, later, rfl, inside⟩ := List.eq_append_cons_of_mem member
    rw [List.splitOn_append_cons_self_of_not_mem inside, takeWhile_append inside,
      List.getElem?_cons_zero]
  · rw [List.splitOn_eq_singleton member, takeWhile_line member, List.getElem?_cons_zero]

/-- The line that the end of a front is in begins after the last line feed of the front. -/
theorem getElem?_splitOn (front rest : List UInt8) :
    ((front ++ rest).splitOn 10)[front.count 10]? = some (((front ++ rest).drop
      (front.length - (front.reverse.takeWhile (· != 10)).length)).takeWhile (· != 10)) := by
  by_cases member : 10 ∈ front
  · obtain ⟨line, before, same, inside⟩ :=
      List.eq_append_cons_of_mem (List.mem_reverse.mpr member)
    obtain rfl : front = before.reverse ++ 10 :: line.reverse := by
      rw [← List.reverse_reverse front, same]
      simp
    have length : (before.reverse ++ 10 :: line.reverse).length - line.length =
        (before.reverse ++ [10]).length := by
      simp only [List.length_append, List.length_cons, List.length_reverse, List.length_nil]
      omega
    have count : (before.reverse ++ 10 :: line.reverse).count 10 =
        (before.reverse.splitOn 10).length := by
      rw [length_splitOn, List.count_append, List.count_cons_self,
        List.count_eq_zero.mpr (mt List.mem_reverse.mp inside)]
    have start : (before.reverse ++ 10 :: (line.reverse ++ rest)).drop
        (before.reverse ++ [10]).length = line.reverse ++ rest := by
      rw [List.append_cons before.reverse 10 (line.reverse ++ rest), List.drop_left]
    rw [same, takeWhile_append inside, length, count, List.append_assoc, List.cons_append, start,
      List.splitOn_append_cons_self, List.getElem?_append_right (Nat.le_refl _), Nat.sub_self,
      head?_splitOn]
  · rw [takeWhile_line (mt List.mem_reverse.mp member), List.length_reverse, Nat.sub_self,
      List.drop_zero, List.count_eq_zero.mpr member, head?_splitOn]

end Utf8

namespace Reading

/-- An error in bytes is on the line of its offset, and shows this line as it is read. -/
theorem encodingError_eq {bytes : List UInt8} {e : Utf8.Error} (inside : e.offset ≤ bytes.length) :
    (encodingError bytes e).message = s!"Invalid UTF-8 at byte {e.offset}" ∧
      (encodingError bytes e).line = some (((bytes.take e.offset).count 10 + 1 : Nat) : Int) ∧
      ∃ line : Text, ((Utf8.decodeLossy bytes).splitOn '\n')[(bytes.take e.offset).count 10]? =
          some line ∧
        (encodingError bytes e).context = some (String.ofList line.trim) := by
  have line := Utf8.getElem?_splitOn (bytes.take e.offset) (bytes.drop e.offset)
  rw [List.take_append_drop, List.length_take_of_le inside] at line
  refine ⟨rfl, rfl, _, ?_, rfl⟩
  rw [Utf8.splitOn_decodeLossy, List.getElem?_map, line]
  rfl

end Reading

namespace Parser

/-- Bytes and text agree. The bytes of a text are parsed as the text. Other bytes have one error:
it names the byte up to which they are longest those of a text, and where a broken part begins;
its line is that of this byte, and it shows this line of the text, in which every line is read for
itself. -/
theorem parse_bytes (l : Language) :
    (∀ t : Text, (Parser.empty.setLanguage l).parse (.bytes (Utf8.encode t)) =
      (Parser.empty.setLanguage l).parse (.text t)) ∧
    ∀ bytes : List UInt8, (∀ t, bytes ≠ Utf8.encode t) →
      ∃ (p : Parse) (e : SyntaxError) (n : Nat) (line : Text),
        (Parser.empty.setLanguage l).parse (.bytes bytes) = .ok p ∧ p.errors = [e] ∧
        IsGreatest {n | n ≤ bytes.length ∧ ∃ t, bytes.take n = Utf8.encode t} n ∧
        (∃ part later, bytes.drop n = part ++ later ∧ Utf8.Broken part later) ∧
        e.message = s!"Invalid UTF-8 at byte {n}" ∧
        e.line = some (((bytes.take n).count 10 + 1 : Nat) : Int) ∧
        p.text.splitOn '\n' = (bytes.splitOn 10).map Utf8.decodeLossy ∧
        (p.text.splitOn '\n')[(bytes.take n).count 10]? = some line ∧
        e.context = some (String.ofList line.trim) := by
  constructor
  · intro t
    have decoded := Utf8.decode_eq_ok_iff.mpr (rfl : Utf8.encode t = Utf8.encode t)
    have same : l.parse (.bytes (Utf8.encode t)) = l.parse (.text t) := by
      rw [Language.parse, Reading.parse, decoded]
      rfl
    exact congrArg Except.ok same
  · intro bytes no
    obtain ⟨t, part, later, fault, same, broken, decoded⟩ := Utf8.exists_broken no
    have front : bytes.drop (Utf8.encode t).length = part ++ later := by rw [same, List.drop_left]
    have inside : (Utf8.encode t).length ≤ bytes.length := by simp [same]
    obtain ⟨message, line, shown, here, context⟩ := Reading.encodingError_eq
      (e := ⟨(Utf8.encode t).length, part.length, fault⟩) inside
    refine ⟨l.parse (.bytes bytes), _, _, shown, rfl, ?_, broken.isGreatest same,
      ⟨part, later, front, broken⟩, message, line, ?_, ?_, context⟩
    · rw [Language.parse, Reading.parse, decoded]
      rfl
    · rw [Language.parse, Reading.parse, decoded, Utf8.splitOn_decodeLossy]
    · rw [Language.parse, Reading.parse, decoded]
      exact here

theorem parse_bytes_broken : (∀ t, [0x61, 0x0a, 0xff] ≠ Utf8.encode t) ∧
    ∃ p e, (Parser.empty.setLanguage (Artifact.language .default)).parse
        (.bytes [0x61, 0x0a, 0xff]) = .ok p ∧
      p.errors = [e] ∧ p.text.splitOn '\n' = [['a'], ['\ufffd']] := by
  have no : ∀ t, [0x61, 0x0a, 0xff] ≠ Utf8.encode t := fun t same => by
    have decoded := Utf8.decode_eq_ok_iff.mpr same
    cases decoded
  obtain ⟨p, e, _, _, parsed, errors, _, _, _, _, lines, _⟩ :=
    (parse_bytes (Artifact.language .default)).2 _ no
  exact ⟨no, p, e, parsed, errors, lines⟩

end Parser

end VyperFront
