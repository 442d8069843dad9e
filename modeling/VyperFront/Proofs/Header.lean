import VyperFront.Artifact.Compile
import VyperFront.Proofs.Text.Digit
import VyperFront.Proofs.Text.Place
import VyperFront.Proofs.Text.Trim

/-! Headers of artifacts. A line is read as the header that declares digits just if it is written
as one: two slashes, the label and the digits, with blanks before the label and before the digits.
The version is the value of the digits, unless they are more than can be read. So every version
that is written in no more digits is read back, with all blanks and all that is below. -/

namespace VyperFront

namespace Artifact.Header

variable {expected t rest line digits : Text} {n : Nat} {e : TooLong}

theorem after?_append (expected rest : Text) :
    after? expected (expected ++ rest) = some rest := by
  rw [after?, if_pos (by simp), List.drop_left]

theorem after?_eq_some_iff : after? expected t = some rest ↔ t = expected ++ rest := by
  constructor
  · intro found
    rw [after?] at found
    split at found
    · next front =>
      obtain ⟨more, rfl⟩ := List.isPrefixOf_iff_prefix.mp front
      rw [List.drop_left, Option.some.injEq] at found
      rw [found]
    · cases found
  · rintro rfl
    exact after?_append expected rest

/-- The line is a header that declares the digits. -/
def Declares (line digits : Text) : Prop :=
  ∃ before between : Text, (∀ c ∈ before, isBlank c = true) ∧ (∀ c ∈ between, isBlank c = true) ∧
    line = "//".toList ++ before ++ "abi-version:".toList ++ between ++ digits ∧
    digits ≠ [] ∧ ∀ c ∈ digits, isDecimalDigit c = true

theorem digits?_eq_some_iff : digits? line = some digits ↔ Declares line digits := by
  rw [digits?]
  simp only [Option.bind_eq_bind, Option.bind_eq_some_iff, after?_eq_some_iff]
  constructor
  · rintro ⟨slashed, rfl, labelled, same, read⟩
    split at read
    · next decimal =>
      obtain rfl := Option.some.inj read
      obtain ⟨before, blanks, front⟩ := Text.exists_trimLeft slashed
      obtain ⟨between, others, back⟩ := Text.exists_trimLeft labelled
      refine ⟨before, between, blanks, others, ?_, decimal.1, List.all_eq_true.mp decimal.2⟩
      rw [List.append_assoc, List.append_assoc, List.append_assoc, ← back, ← same, ← front]
    · cases read
  · rintro ⟨before, between, blanks, others, rfl, some, decimal⟩
    have label : Text.trimLeft (before ++ ("abi-version:".toList ++ (between ++ digits))) =
        "abi-version:".toList ++ (between ++ digits) :=
      Text.trimLeft_append blanks (by rintro c ⟨⟩; decide)
    have number : Text.trimLeft (between ++ digits) = digits :=
      Text.trimLeft_append others fun c front =>
        not_isBlank_of_digit (decimal c (List.mem_of_mem_head? front))
    refine ⟨before ++ ("abi-version:".toList ++ (between ++ digits)), by simp, between ++ digits,
      label, ?_⟩
    rw [number, if_pos ⟨some, List.all_eq_true.mpr decimal⟩]

theorem Declares.isDecimalDigit (declared : Declares line digits) :
    ∀ c ∈ digits, isDecimalDigit c = true := by
  obtain ⟨_, _, _, _, _, _, decimal⟩ := declared
  exact decimal

theorem Declares.trim_eq (declared : Declares line digits) : line.trim = line := by
  obtain ⟨before, between, _, _, rfl, some, decimal⟩ := declared
  obtain ⟨front, last, rfl⟩ := (List.eq_nil_or_concat digits).resolve_left some
  have slashes : "//".toList = ['/', '/'] := by decide
  have solid := not_isBlank_of_digit (decimal last (by simp))
  have ends := Text.trim_of_ends (a := '/') (by decide) solid
    ('/' :: (before ++ "abi-version:".toList ++ between ++ front))
  rw [slashes]
  simpa using ends

theorem line_of_not_mem (plain : '\n' ∉ t) : Header.line t = t.trim := by
  rw [Header.line, List.takeWhile_eq_self_iff.mpr fun c member => decide_eq_true ?_]
  rintro rfl
  exact plain member

theorem line_append_feed (t body : Text) : Header.line (t ++ '\n' :: body) = Header.line t := by
  rw [Header.line, Text.takeWhile_append_feed, Header.line]

/-- A number is read where digits are declared, unless they are too many. -/
theorem version?_eq_ok_some_iff : version? t = .ok (some n) ↔
    ∃ digits, digits? (Header.line t) = some digits ∧ digits.length ≤ maxDigits ∧
      valueOf digits = n := by
  rw [version?]
  cases digits? (Header.line t) with
  | none => exact ⟨nofun, nofun⟩
  | some digits =>
    simp only [Option.some.injEq, exists_eq_left', ← readWhole_eq_ok_iff]
    cases readWhole digits <;> simp [Except.map]

theorem version?_eq_error_iff : version? t = .error e ↔
    ∃ digits, digits? (Header.line t) = some digits ∧ maxDigits < digits.length ∧
      e = ⟨digits.length⟩ := by
  rw [version?]
  cases digits? (Header.line t) with
  | none => exact ⟨nofun, nofun⟩
  | some digits =>
    simp only [Option.some.injEq, exists_eq_left', ← readWhole_eq_error_iff]
    cases readWhole digits <;> simp [Except.map]

/-- Blanks between two parts of a line. -/
structure Spacing where
  text : Text
  blank : text.Blanks
  inLine : '\n' ∉ text

/-- How a header can be written: with which blanks, and with how many zeros before the version. It
has no more digits than can be read. -/
structure Form where
  lead : Spacing
  beforeLabel : Spacing
  beforeDigits : Spacing
  trail : Spacing
  zeros : Nat
  version : Nat
  short : zeros + (Nat.toDigits 10 version).length ≤ maxDigits

namespace Form

def numeral (f : Form) : Text := List.replicate f.zeros '0' ++ Nat.toDigits 10 f.version

/-- The header without the blanks around it. -/
def core (f : Form) : Text :=
  "//".toList ++ f.beforeLabel.text ++ "abi-version:".toList ++ f.beforeDigits.text ++ f.numeral

def text (f : Form) : Text := f.lead.text ++ f.core ++ f.trail.text

theorem length_numeral (f : Form) : f.numeral.length ≤ maxDigits := by
  rw [numeral, List.length_append, List.length_replicate]
  exact f.short

theorem isDigit_of_mem (f : Form) {c : Char} (member : c ∈ f.numeral) : c.isDigit = true := by
  rcases List.mem_append.mp member with zero | digit
  · rw [List.eq_of_mem_replicate zero]
    rfl
  · exact Nat.isDigit_of_mem_toDigits (by decide) (Nat.le_refl 10) digit

theorem valueOf_numeral (f : Form) : valueOf f.numeral = f.version := by
  rw [numeral, valueOf_zeros_append, valueOf_toDigits]

theorem declares_core (f : Form) : Declares f.core f.numeral :=
  ⟨f.beforeLabel.text, f.beforeDigits.text, f.beforeLabel.blank, f.beforeDigits.blank, rfl,
    List.append_ne_nil_of_right_ne_nil _ Nat.toDigits_ne_nil,
    fun _ member => isDecimalDigit_of_isDigit (f.isDigit_of_mem member)⟩

theorem not_mem_text (f : Form) : '\n' ∉ f.text := by
  have numeral : '\n' ∉ f.numeral := fun member => absurd (f.isDigit_of_mem member) (by decide)
  have slashes : '\n' ∉ "//".toList := by decide
  have label : '\n' ∉ "abi-version:".toList := by decide
  have core : '\n' ∉ f.core := by
    simp only [core, List.mem_append, not_or]
    exact ⟨⟨⟨⟨slashes, f.beforeLabel.inLine⟩, label⟩, f.beforeDigits.inLine⟩, numeral⟩
  simp only [text, List.mem_append, not_or]
  exact ⟨⟨f.lead.inLine, core⟩, f.trail.inLine⟩

theorem line_text (f : Form) : Header.line f.text = f.core := by
  rw [line_of_not_mem f.not_mem_text, text, Text.trim_surrounded f.lead.blank f.trail.blank,
    f.declares_core.trim_eq]

theorem version?_text (f : Form) : version? f.text = .ok (some f.version) := by
  have found : digits? (Header.line f.text) = some f.numeral := by
    rw [line_text, digits?_eq_some_iff.mpr f.declares_core]
  exact version?_eq_ok_some_iff.mpr ⟨f.numeral, found, f.length_numeral, f.valueOf_numeral⟩

end Form

/-- A version is read just where the first line, without the blanks around it, is a header with
digits of any scripts, at most 4300. It is their value in base ten. So, in all forms of a header
and above any body, the version is read that is written. -/
theorem version?_reads :
    (∀ (t : Text) (n : Nat), version? t = .ok (some n) ↔
      ∃ (digits : Text) (values : List Nat), Declares (Text.trim (t.takeWhile (· ≠ '\n'))) digits ∧
        digits.length ≤ 4300 ∧ digits.map digitValue? = values.map some ∧
        (∀ v ∈ values, v < 10) ∧ n = Nat.ofDigits 10 values.reverse) ∧
    ∀ f : Form, version? f.text = .ok (some f.version) ∧
      ∀ body : Text, version? (f.text ++ '\n' :: body) = .ok (some f.version) := by
  refine ⟨fun t n => ?_, fun f => ⟨f.version?_text, fun body => ?_⟩⟩
  · rw [version?_eq_ok_some_iff]
    constructor
    · rintro ⟨digits, found, short, rfl⟩
      have declared := digits?_eq_some_iff.mp found
      obtain ⟨values, read, small⟩ := exists_values declared.isDecimalDigit
      exact ⟨digits, values, declared, short, read, small, valueOf_eq_ofDigits read⟩
    · rintro ⟨digits, values, declared, short, read, _, rfl⟩
      exact ⟨digits, digits?_eq_some_iff.mpr declared, short, valueOf_eq_ofDigits read⟩
  · have same : version? (f.text ++ '\n' :: body) = version? f.text := by
      rw [version?, version?, line_append_feed]
    rw [same, f.version?_text]

theorem version?_reads_spaced : ∃ f : Form,
    f.text = " //\tabi-version:\u3000007\r".toList ∧
      version? (f.text ++ '\n' :: "start: NAME".toList) = .ok (some 7) := by
  let spacing (c : Char) (blank : isBlank c = true) (other : '\n' ≠ c) : Spacing :=
    ⟨[c], List.forall_mem_singleton.mpr blank, by simpa using other⟩
  let f : Form :=
    { lead := spacing ' ' rfl (by decide)
      beforeLabel := spacing '\t' rfl (by decide)
      beforeDigits := spacing '\u3000' rfl (by decide)
      trail := spacing '\r' rfl (by decide)
      zeros := 2
      version := 7
      short := by decide }
  exact ⟨f, by decide, (version?_reads.2 f).2 _⟩

end Artifact.Header

end VyperFront
