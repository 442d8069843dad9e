import VyperFront.Json.Reader

namespace VyperFront.Json

/-- The text has as many digits in a row as the error says, more than can be read. -/
def Overlong (t : Text) (e : TooLong) : Prop :=
  maxDigits < e.digits ∧ ∃ digits, digits <:+: t ∧ digits.all Char.isDigit ∧ digits.length = e.digits

/-- What a reader may come to on a text. -/
def Within (t : Text) : Except Error (α × Text) → Prop
  | .ok (_, rest) => rest <:+ t
  | .error (.tooLong e) => Overlong t e
  | .error (.malformed ..) => True

variable {α β : Type} {t rest : Text} {e : TooLong}

theorem Overlong.of_infix (long : Overlong rest e) (part : rest <:+: t) : Overlong t e := by
  obtain ⟨many, digits, run, decimal, count⟩ := long
  exact ⟨many, digits, run.trans part, decimal, count⟩

theorem Within.of_suffix {r : Except Error (α × Text)} (within : Within rest r)
    (part : rest <:+ t) : Within t r := by
  cases r with
  | ok reading => exact List.IsSuffix.trans within part
  | error fault =>
    cases fault with
    | malformed fault place => exact trivial
    | tooLong e => exact Overlong.of_infix within part.isInfix

/-- A reader that goes on where another one ended. -/
theorem Within.bind {r : Except Error (α × Text)} {next : α × Text → Except Error (β × Text)}
    (first : Within t r) (later : ∀ a rest, rest <:+ t → Within t (next (a, rest))) :
    Within t (r >>= next) := by
  cases r with
  | ok reading => exact later reading.1 reading.2 first
  | error fault =>
    cases fault with
    | malformed fault place => exact trivial
    | tooLong e => exact first

theorem skipSpace_suffix (t : Text) : skipSpace t <:+ t := List.dropWhile_suffix _

theorem suffix_of_skipSpace {c : Char} (ahead : skipSpace t = c :: rest) : rest <:+ t :=
  (List.suffix_cons c rest).trans (ahead ▸ skipSpace_suffix t)

theorem unicodeEscape_within (escape t : Text) : Within t (unicodeEscape escape t) := by
  have four : t.drop 4 <:+ t := List.drop_suffix 4 t
  unfold unicodeEscape
  split
  · exact trivial
  · cases unit? (t.take 4) with
    | none => exact trivial
    | some high =>
      dsimp only
      split
      · next second ahead =>
        have low : second.drop 4 <:+ t :=
          (List.drop_suffix 4 second).trans
            (((List.suffix_cons _ _).trans (List.suffix_cons _ _)).trans (ahead ▸ four))
        split
        · split
          · exact trivial
          · split
            · exact low
            · exact four
        · exact four
      · exact four

theorem readString_within (opening : Text) (steps : Nat) (t : Text) :
    Within t (readString opening steps t) := by
  induction steps generalizing t with
  | zero => exact trivial
  | succ steps ih =>
    have onward {rest : Text} (part : rest <:+ t) : Within t (readString opening steps rest) :=
      (ih rest).of_suffix part
    cases t with
    | nil => exact trivial
    | cons c rest =>
      have here : rest <:+ c :: rest := List.suffix_cons c rest
      unfold readString
      split
      · exact here
      · split
        · split
          · exact trivial
          · next after =>
            have escape := (unicodeEscape_within (c :: 'u' :: after) after).of_suffix
              ((List.suffix_cons 'u' after).trans here)
            refine Within.bind escape fun _ _ part => ?_
            exact Within.bind (onward part) fun _ _ part => part
          · next e after _ =>
            split
            · exact trivial
            · have after := onward ((List.suffix_cons e after).trans here)
              exact Within.bind after fun _ _ part => part
        · split
          · exact trivial
          · exact Within.bind (onward here) fun _ _ part => part

theorem wholeDigits_eq_some {whole : Text} (found : wholeDigits t = some (whole, rest)) :
    whole.all Char.isDigit ∧ whole <:+: t ∧ rest <:+ t := by
  unfold wholeDigits at found
  split at found
  · cases found
    exact ⟨rfl, ⟨[], _, rfl⟩, List.suffix_cons _ _⟩
  · split at found
    · cases found
      exact ⟨List.all_takeWhile, (List.takeWhile_prefix _).isInfix, List.dropWhile_suffix _⟩
    · cases found
  · cases found

theorem fraction_suffix (t : Text) : (fraction t).2 <:+ t := by
  unfold fraction
  split
  · split
    · exact List.suffix_rfl
    · exact (List.dropWhile_suffix _).trans (List.suffix_cons _ _)
  · exact List.suffix_rfl

theorem exponent_suffix (t : Text) : (exponent t).2 <:+ t := by
  unfold exponent
  split
  · next e rest =>
    split
    · split
      next sign after signed =>
      have part : after <:+ rest := by
        split at signed
        · split at signed
          · cases signed
            exact List.suffix_cons _ _
          · cases signed
            exact List.suffix_rfl
        · cases signed
          exact List.suffix_rfl
      split
      · exact List.suffix_rfl
      · exact ((List.dropWhile_suffix _).trans part).trans (List.suffix_cons e rest)
    · exact List.suffix_rfl
  · exact List.suffix_rfl

theorem number_within {whole : Text} (found : wholeDigits t = some (whole, rest)) :
    (exponent (fraction rest).2).2 <:+ t ∧ ∀ e, readWhole whole = .error e → Overlong t e := by
  obtain ⟨decimal, run, tail⟩ := wholeDigits_eq_some found
  refine ⟨((exponent_suffix _).trans (fraction_suffix rest)).trans tail, fun e long => ?_⟩
  obtain ⟨many, rfl⟩ := readWhole_eq_error_iff.mp long
  exact ⟨many, whole, run, decimal, rfl⟩

theorem readNumber_within (t : Text) : Within t (readNumber t) := by
  unfold readNumber
  split
  next sign unsigned signed =>
  have part : unsigned <:+ t := by
    split at signed
    · cases signed
      exact List.suffix_cons _ _
    · cases signed
      exact List.suffix_rfl
  refine Within.of_suffix ?_ part
  split
  · exact trivial
  · next whole rest found =>
    obtain ⟨ends, overlong⟩ := number_within found
    dsimp only
    split
    · split
      · next e long => exact overlong e long
      · exact ends
    · exact ends

theorem readWord_suffix {value : Json} (found : readWord t = some (value, rest)) : rest <:+ t := by
  obtain ⟨⟨word, meant⟩, _, reads⟩ := List.exists_of_findSome?_eq_some found
  dsimp only at reads
  split at reads
  · cases reads
    exact List.drop_suffix _ _
  · cases reads

/-- Readers of so many steps keep within their texts. -/
structure Sound (depth : Nat) : Prop where
  value : ∀ t, Within t (readValue depth t)
  members : ∀ t, Within t (readMembers depth t)
  elements : ∀ t, Within t (readElements depth t)

theorem Sound.readValue {depth : Nat} (sound : Sound depth) (t : Text) :
    Within t (readValue (depth + 1) t) := by
  unfold Json.readValue
  split
  · next rest =>
    have text := (readString_within ('"' :: rest) (rest.length + 1) rest).of_suffix
      (List.suffix_cons '"' rest)
    exact Within.bind text fun _ _ part => part
  · next rest =>
    have inside : skipSpace rest <:+ '\x7b' :: rest :=
      (skipSpace_suffix rest).trans (List.suffix_cons _ rest)
    split
    · next after ahead => exact (suffix_of_skipSpace ahead).trans (List.suffix_cons _ rest)
    · exact Within.bind ((sound.members _).of_suffix inside) fun _ _ part => part
  · next rest =>
    have inside : skipSpace rest <:+ '[' :: rest :=
      (skipSpace_suffix rest).trans (List.suffix_cons _ rest)
    split
    · next after ahead => exact (suffix_of_skipSpace ahead).trans (List.suffix_cons _ rest)
    · exact Within.bind ((sound.elements _).of_suffix inside) fun _ _ part => part
  · split
    · next reading found => exact readWord_suffix found
    · exact readNumber_within t

theorem Sound.readMembers {depth : Nat} (sound : Sound depth) (t : Text) :
    Within t (readMembers (depth + 1) t) := by
  unfold Json.readMembers
  split
  · next rest =>
    have text := (readString_within ('"' :: rest) (rest.length + 1) rest).of_suffix
      (List.suffix_cons '"' rest)
    refine Within.bind text fun name later named => ?_
    dsimp only
    split
    · next after colon =>
      have after : skipSpace after <:+ '"' :: rest :=
        ((skipSpace_suffix after).trans (suffix_of_skipSpace colon)).trans named
      refine Within.bind ((sound.value _).of_suffix after) fun value later valued => ?_
      dsimp only
      split
      · next ahead => exact (suffix_of_skipSpace ahead).trans valued
      · next more comma =>
        have more : skipSpace more <:+ '"' :: rest :=
          ((skipSpace_suffix more).trans (suffix_of_skipSpace comma)).trans valued
        exact Within.bind ((sound.members _).of_suffix more) fun _ _ part => part
      · exact trivial
    · exact trivial
  · exact trivial

theorem Sound.readElements {depth : Nat} (sound : Sound depth) (t : Text) :
    Within t (readElements (depth + 1) t) := by
  unfold Json.readElements
  refine Within.bind (sound.value t) fun value later valued => ?_
  dsimp only
  split
  · next ahead => exact (suffix_of_skipSpace ahead).trans valued
  · next more comma =>
    have more : skipSpace more <:+ t :=
      ((skipSpace_suffix more).trans (suffix_of_skipSpace comma)).trans valued
    exact Within.bind ((sound.elements _).of_suffix more) fun _ _ part => part
  · exact trivial

theorem sound (depth : Nat) : Sound depth := by
  induction depth with
  | zero => exact ⟨fun _ => trivial, fun _ => trivial, fun _ => trivial⟩
  | succ depth ih => exact ⟨ih.readValue, ih.readMembers, ih.readElements⟩

/-- A text is only too long to be read if it has too many digits in a row. -/
theorem overlong_of_read (long : read t = .error (.tooLong e)) : Overlong t e := by
  have whole : Within t (readValue (2 * t.length + 1) (skipSpace t)) :=
    ((sound _).value _).of_suffix (skipSpace_suffix t)
  unfold read at long
  split at long
  · cases long
  · cases value : readValue (2 * t.length + 1) (skipSpace t) with
    | error fault =>
      rw [value] at long whole
      cases long
      exact whole
    | ok reading =>
      rw [value] at long
      dsimp only [bind, Except.bind] at long
      split at long <;> cases long

/-- Ones alone, if there are too many of them, are too long to be read. -/
theorem read_replicate {n : Nat} (many : maxDigits ≤ n) :
    read (List.replicate (n + 1) '1') = .error (.tooLong ⟨n + 1⟩) := by
  have one : '1'.isDigit = true := rfl
  have whole : wholeDigits (List.replicate (n + 1) '1') = some (List.replicate (n + 1) '1', []) := by
    rw [List.replicate_succ, wholeDigits, if_pos one, ← List.replicate_succ,
      List.takeWhile_replicate, List.dropWhile_replicate]
    · rfl
    · decide
  have long : readWhole (List.replicate (n + 1) '1') = .error ⟨n + 1⟩ := by
    rw [readWhole_eq_error_iff, List.length_replicate]
    exact ⟨Nat.lt_succ_of_le many, rfl⟩
  have number : readNumber (List.replicate (n + 1) '1') = .error (.tooLong ⟨n + 1⟩) := by
    rw [readNumber, whole]
    · dsimp only [fraction, exponent]
      rw [List.isEmpty_nil, Bool.and_self, if_pos rfl, long]
    · rintro rest ⟨⟩
  have space : skipSpace (List.replicate (n + 1) '1') = List.replicate (n + 1) '1' := rfl
  have word : readWord (List.replicate (n + 1) '1') = none := rfl
  have value (depth : Nat) : readValue (depth + 1) (List.replicate (n + 1) '1') =
      .error (.tooLong ⟨n + 1⟩) := by
    rw [List.replicate_succ] at word number ⊢
    rw [readValue.eq_def]
    dsimp only
    rw [word]
    exact number
  rw [List.replicate_succ] at space value ⊢
  rw [read.eq_def]
  dsimp only
  rw [space, value]
  rfl

end VyperFront.Json
