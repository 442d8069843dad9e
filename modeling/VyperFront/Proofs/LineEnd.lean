import VyperFront.Files
import VyperFront.Proofs.Text.Mended
import VyperFront.Proofs.Text.Return

namespace VyperFront

/-- The ways to end the lines of a file. -/
inductive LineEnd where
  | feed
  | returnFeed
  | carriageReturn
  deriving DecidableEq, Repr

namespace LineEnd

def text : LineEnd → Text
  | feed => ['\n']
  | returnFeed => ['\r', '\n']
  | carriageReturn => ['\r']

def bytes : LineEnd → List UInt8
  | feed => [10]
  | returnFeed => [13, 10]
  | carriageReturn => [13]

/-- The text with its lines ended in one way. -/
def write (s : LineEnd) (t : Text) : Text := t.flatMap fun c => if c = '\n' then s.text else [c]

/-- The bytes with their lines ended in one way. -/
def restyle (s : LineEnd) (raw : List UInt8) : List UInt8 :=
  raw.flatMap fun b => if b = 10 then s.bytes else [b]

variable {s : LineEnd} {t : Text} {raw part later : List UInt8} {c : Char}

theorem encode_text (s : LineEnd) : Utf8.encode s.text = s.bytes :=
  (Utf8.decode_eq_ok_iff.mp (by cases s <;> rfl)).symm

theorem write_cons (s : LineEnd) (c : Char) (t : Text) :
    s.write (c :: t) = (if c = '\n' then s.text else [c]) ++ s.write t := rfl

theorem restyle_append (s : LineEnd) (raw more : List UInt8) :
    s.restyle (raw ++ more) = s.restyle raw ++ s.restyle more :=
  List.flatMap_append

theorem restyle_of_not_mem (s : LineEnd) (plain : 10 ∉ raw) : s.restyle raw = raw := by
  induction raw with
  | nil => rfl
  | cons b rest ih =>
    rw [List.mem_cons, not_or] at plain
    rw [restyle, List.flatMap_cons, if_neg (Ne.symm plain.1), ← restyle, ih plain.2]
    rfl

theorem restyle_encode (s : LineEnd) (t : Text) :
    s.restyle (Utf8.encode t) = Utf8.encode (s.write t) := by
  induction t with
  | nil => rw [write, List.flatMap_nil, Utf8.encode_nil]; rfl
  | cons c t ih =>
    rw [Utf8.encode_cons, restyle_append, ih, write_cons, Utf8.encode_append]
    congr 1
    split
    · next feed =>
      rw [feed, Utf8.encodeChar_newline, encode_text]
      simp [restyle]
    · next other =>
      rw [restyle_of_not_mem s (mt Utf8.encodeChar_of_mem other), Utf8.encode_cons,
        Utf8.encode_nil, List.append_nil]

theorem feed_not_mem_write (t : Text) : '\n' ∉ carriageReturn.write t := by
  induction t with
  | nil => exact List.not_mem_nil
  | cons c t ih =>
    rw [write_cons, List.mem_append, not_or]
    refine ⟨?_, ih⟩
    split
    · decide
    · next other => simpa using Ne.symm other

/-- However its lines end, the same text is read. -/
theorem unifyBreaks_write (s : LineEnd) (plain : '\r' ∉ t) : (s.write t).unifyBreaks = t := by
  induction t with
  | nil => rfl
  | cons c t ih =>
    rw [List.mem_cons, not_or] at plain
    have later := ih plain.2
    rw [write_cons]
    split
    · next feed =>
      subst feed
      cases s with
      | feed => exact congrArg ('\n' :: ·) later
      | returnFeed => exact congrArg ('\n' :: ·) later
      | carriageReturn =>
        have alone : ∀ rest, carriageReturn.write t ≠ '\n' :: rest := fun rest same =>
          feed_not_mem_write t (same ▸ List.mem_cons_self)
        change Text.unifyBreaks ('\r' :: carriageReturn.write t) = _
        rw [Text.unifyBreaks, if_pos rfl, later]
        intro rest _ same
        exact alone rest same
    · change Text.unifyBreaks (c :: s.write t) = _
      rw [Text.unifyBreaks, if_neg (Ne.symm plain.1), later]
      intro rest same
      exact absurd same (Ne.symm plain.1)

theorem return_not_mem (plain : 13 ∉ Utf8.encode t) : '\r' ∉ t := by
  intro member
  obtain ⟨front, rest, rfl⟩ := List.append_of_mem member
  have byte : Utf8.encodeChar '\r' = [13] := by rw [Utf8.encodeChar_eq]; rfl
  rw [Utf8.encode_append, Utf8.encode_cons, byte] at plain
  exact plain (by simp)

/-- However the lines of a file end, the same text is read of it. -/
theorem textOf_restyle (s : LineEnd) (plain : 13 ∉ Utf8.encode t) :
    textOf (s.restyle (Utf8.encode t)) = .ok t := by
  rw [textOf, restyle_encode, Utf8.decode_eq_ok_iff.mpr rfl, Except.map,
    unifyBreaks_write s (return_not_mem plain)]

/-- However the lines of a file end, what is broken in it is. -/
theorem exists_textOf_restyle (s : LineEnd) (no : ∀ t, raw ≠ Utf8.encode t) :
    ∃ e, textOf (s.restyle raw) = .error e := by
  obtain ⟨t, part, later, _, rfl, broken, _⟩ := Utf8.exists_broken no
  have stays : Utf8.Broken part (s.restyle later) := by
    refine broken.before fun b first => ?_
    cases later with
    | nil => cases first
    | cons d rest =>
      rw [restyle, List.flatMap_cons] at first
      split at first
      · cases s <;> exact .inr (by obtain rfl := Option.some.inj first; decide)
      · exact .inl first
  obtain ⟨fault, decoded⟩ := stays.decode_eq (s.write t)
  refine ⟨⟨(Utf8.encode (s.write t)).length, part.length, fault⟩, ?_⟩
  rw [textOf, restyle_append, restyle_append, restyle_encode,
    restyle_of_not_mem s broken.not_mem, decoded]
  rfl

end LineEnd

end VyperFront
