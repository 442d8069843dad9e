import VyperFront.Proofs.LineEnd
import VyperFront.Proofs.Loading

/-! What compiling an artifact comes to. Of several faults the first one counts, in a fixed order:
the file, its encoding, its header, the version and what is below. What has none of them gives a
handle, and a language. The way in which lines end makes no difference. -/

namespace VyperFront.Artifact

variable {g : Generator} {content : Except FileError (List UInt8)} {c : Config}
  {result : Except LoadFault Handle} {t digits : Text} {raw : List UInt8} {kind : LoadError.Kind}

/-- Compiling fails, by an error of the kind. -/
def Fails (result : Except LoadFault Handle) (kind : LoadError.Kind) : Prop :=
  ∃ fault, result = .error fault ∧ fault.kind = kind

/-- The artifact has a text, whose first line declares the digits. -/
def DeclaredIn (content : Except FileError (List UInt8)) (t digits : Text) : Prop :=
  content = .ok (Utf8.encode t) ∧ Header.Declares (Header.line t.unifyBreaks) digits

/-- What compiling an artifact should come to, fault by fault. -/
structure Classified (content : Except FileError (List UInt8)) (result : Except LoadFault Handle) :
    Prop where
  missing : Fails result .artifactMissing ↔ ∃ e, content = .error e
  encoding : ∀ raw, content = .ok raw → (∀ t, raw ≠ Utf8.encode t) →
    ∃ t part later fault, raw = Utf8.encode t ++ (part ++ later) ∧ Utf8.Broken part later ∧
      result = .error fault ∧ fault.kind = .artifactCorrupt ∧
      fault.message = s!"grammar artifact is not valid UTF-8 (byte {(Utf8.encode t).length})"
  header : ∀ t, content = .ok (Utf8.encode t) → (∀ digits, ¬ DeclaredIn content t digits) →
    Fails result .artifactCorrupt
  version : ∀ t digits, DeclaredIn content t digits →
    (Fails result .incompatibleVersion ↔ ¬ (13 ≤ valueOf digits ∧ valueOf digits ≤ 14))
  body : ∀ t digits, DeclaredIn content t digits → 13 ≤ valueOf digits → valueOf digits ≤ 14 →
    (Fails result .artifactCorrupt ↔ belowHeader t.unifyBreaks ≠ body)
  handle : ∀ t digits, DeclaredIn content t digits → 13 ≤ valueOf digits → valueOf digits ≤ 14 →
    belowHeader t.unifyBreaks = Artifact.body →
    ∃ (h : Handle) (l : Language), result = .ok h ∧ h.metadata.abiVersion = valueOf digits ∧
      Language.ofHandle h = .ok l ∧ l.handle = h

theorem fails_error_iff {fault : LoadFault} :
    Fails (.error fault) kind ↔ fault.kind = kind := by
  constructor
  · rintro ⟨_, ⟨⟩, same⟩
    exact same
  · exact fun same => ⟨fault, rfl, same⟩

theorem not_fails_ok {h : Handle} : ¬ Fails (.ok h) kind := by
  rintro ⟨_, ⟨⟩, _⟩

theorem supported_iff {n : Nat} : Abi.Supported (n : Int) ↔ 13 ≤ n ∧ n ≤ 14 := by
  rw [Abi.Supported, Abi.oldest, Abi.newest]
  omega

/-- The text of an artifact, and the digits that it declares, are the only ones. -/
theorem DeclaredIn.unique {u others : Text} (declared : DeclaredIn (.ok (Utf8.encode t)) u digits)
    (also : DeclaredIn (.ok (Utf8.encode t)) t others) : u = t ∧ digits = others := by
  obtain rfl := Utf8.encode_inj (Except.ok.inj declared.1)
  have read := Header.digits?_eq_some_iff.mpr declared.2
  rw [Header.digits?_eq_some_iff.mpr also.2, Option.some.injEq] at read
  exact ⟨rfl, read.symm⟩

theorem classified_missing (e : FileError) :
    Classified (.error e) (.error (.unreadable e.reason)) where
  missing := ⟨fun _ => ⟨e, rfl⟩, fun _ => ⟨_, rfl, rfl⟩⟩
  encoding := nofun
  header := nofun
  version _ _ declared := nomatch declared.1
  body _ _ declared := nomatch declared.1
  handle _ _ declared := nomatch declared.1

theorem classified_broken {part later : List UInt8} (broken : Utf8.Broken part later) :
    Classified (.ok (Utf8.encode t ++ (part ++ later)))
      (.error (.notUtf8 (Utf8.encode t).length)) := by
  have no (u : Text) : Utf8.encode t ++ (part ++ later) ≠ Utf8.encode u := fun same => by
    obtain ⟨fault, fails⟩ := broken.decode_eq t
    rw [Utf8.decode_eq_ok_iff.mpr same] at fails
    cases fails
  have none {u digits : Text}
      (declared : DeclaredIn (.ok (Utf8.encode t ++ (part ++ later))) u digits) : False :=
    no u (Except.ok.inj declared.1)
  refine ⟨?_, ?_, ?_, fun _ _ d => (none d).elim, fun _ _ d => (none d).elim,
    fun _ _ d => (none d).elim⟩
  · rw [fails_error_iff]
    exact ⟨nofun, nofun⟩
  · rintro _ ⟨⟩ _
    exact ⟨t, part, later, _, rfl, broken, rfl, rfl, rfl⟩
  · intro u same
    exact absurd (Except.ok.inj same) (no u)

theorem classified_headless (headless : ∀ digits, ¬ DeclaredIn (.ok (Utf8.encode t)) t digits) :
    Classified (.ok (Utf8.encode t)) (.error .noHeader) := by
  have none {u digits : Text} (declared : DeclaredIn (.ok (Utf8.encode t)) u digits) : False := by
    obtain rfl := Utf8.encode_inj (Except.ok.inj declared.1)
    exact headless digits declared
  refine ⟨?_, ?_, fun _ _ _ => ⟨_, rfl, rfl⟩, fun _ _ d => (none d).elim,
    fun _ _ d => (none d).elim, fun _ _ d => (none d).elim⟩
  · rw [fails_error_iff]
    exact ⟨nofun, nofun⟩
  · intro raw same no
    exact absurd (Except.ok.inj same).symm (no t)

/-- What is to be shown where digits are declared. -/
theorem DeclaredIn.classified (declared : DeclaredIn (.ok (Utf8.encode t)) t digits)
    (found : ¬ Fails result .artifactMissing)
    (version : Fails result .incompatibleVersion ↔ ¬ (13 ≤ valueOf digits ∧ valueOf digits ≤ 14))
    (body : 13 ≤ valueOf digits → valueOf digits ≤ 14 →
      (Fails result .artifactCorrupt ↔ belowHeader t.unifyBreaks ≠ body))
    (handle : 13 ≤ valueOf digits → valueOf digits ≤ 14 →
      belowHeader t.unifyBreaks = Artifact.body →
      ∃ (h : Handle) (l : Language), result = .ok h ∧ h.metadata.abiVersion = valueOf digits ∧
        Language.ofHandle h = .ok l ∧ l.handle = h) :
    Classified (.ok (Utf8.encode t)) result where
  missing := ⟨fun fails => absurd fails found, nofun⟩
  encoding raw same no := absurd (Except.ok.inj same).symm (no t)
  header u same none := by
    obtain rfl := Utf8.encode_inj (Except.ok.inj same)
    exact absurd declared (none digits)
  version u others also := by
    obtain ⟨rfl, rfl⟩ := also.unique declared
    exact version
  body u others also := by
    obtain ⟨rfl, rfl⟩ := also.unique declared
    exact body
  handle u others also := by
    obtain ⟨rfl, rfl⟩ := also.unique declared
    exact handle

theorem exists_classified_declared (takes : g.TakesBody)
    (declared : DeclaredIn (.ok (Utf8.encode t)) t digits) (c : Config) :
    ∃ result, judge g t.unifyBreaks c (some (valueOf digits)) = .ok result ∧
      Classified (.ok (Utf8.encode t)) result := by
  by_cases supported : Abi.Supported (valueOf digits : Nat)
  · have within := supported_iff.mp supported
    rw [judge, if_neg (not_not.mpr supported)]
    by_cases same : belowHeader t.unifyBreaks = body
    · obtain ⟨tables, said⟩ := takes.accepts c.lexer same
      rw [said]
      refine ⟨_, rfl, declared.classified not_fails_ok
        ⟨fun fails => absurd fails not_fails_ok, fun outside => absurd within outside⟩
        (fun _ _ => ⟨fun fails => absurd fails not_fails_ok, fun other => absurd same other⟩)
        (fun _ _ _ => ⟨_, ⟨_, supported⟩, rfl, rfl, dif_pos supported, rfl⟩)⟩
    · obtain ⟨reason, said⟩ := takes.refuses c.lexer same
      rw [said]
      exact ⟨_, rfl, declared.classified (by rintro ⟨_, ⟨⟩, ⟨⟩⟩)
        ⟨by rintro ⟨_, ⟨⟩, ⟨⟩⟩, fun outside => absurd within outside⟩
        (fun _ _ => ⟨fun _ => same, fun _ => ⟨_, rfl, rfl⟩⟩)
        (fun _ _ known => absurd known same)⟩
  · have outside := mt supported_iff.mpr supported
    rw [judge, if_pos supported]
    exact ⟨_, rfl, declared.classified (by rintro ⟨_, ⟨⟩, ⟨⟩⟩)
      ⟨fun _ => outside, fun _ => ⟨_, rfl, rfl⟩⟩
      (fun least most => absurd ⟨least, most⟩ outside)
      (fun least most => absurd ⟨least, most⟩ outside)⟩

/-- Compiling an artifact whose header can be read comes to what it should. -/
theorem exists_classified (takes : g.TakesBody) (c : Config)
    (short : ∀ t digits, DeclaredIn content t digits → digits.length ≤ 4300) :
    ∃ result, compile g content c = .ok result ∧ Classified content result := by
  cases content with
  | error e => exact ⟨_, rfl, classified_missing e⟩
  | ok raw =>
    rcases Utf8.error?_cases raw with ⟨t, rfl, _⟩ | ⟨t, part, later, fault, rfl, broken, error⟩
    · have text : textOf (Utf8.encode t) = .ok t.unifyBreaks := by
        rw [textOf, Utf8.decode_eq_ok_iff.mpr rfl]
        rfl
      rw [compile_eq text, check, Header.version?]
      cases read : Header.digits? (Header.line t.unifyBreaks) with
      | none =>
        refine ⟨_, rfl, classified_headless fun digits declared => ?_⟩
        rw [Header.digits?_eq_some_iff.mpr declared.2] at read
        cases read
      | some digits =>
        have declared : DeclaredIn (.ok (Utf8.encode t)) t digits :=
          ⟨rfl, Header.digits?_eq_some_iff.mp read⟩
        have readable : readWhole digits = .ok (valueOf digits) :=
          readWhole_eq_ok_iff.mpr ⟨short t digits declared, rfl⟩
        dsimp only
        rw [readable]
        exact exists_classified_declared takes declared c
    · have text : textOf (Utf8.encode t ++ (part ++ later)) =
          .error ⟨(Utf8.encode t).length, part.length, fault⟩ := by
        rw [textOf, Utf8.decode, error]
        rfl
      rw [compile, text]
      exact ⟨_, rfl, classified_broken broken⟩

/-- What an artifact comes to as a kind of failure, if it is one. -/
def failure? (came : Except Escape (Except LoadFault Handle)) :
    Except Escape (Option LoadError.Kind) :=
  came.map fun result =>
    match result with
    | .error fault => some fault.kind
    | .ok _ => none

theorem compile_congr {other : List UInt8} (text : textOf raw = .ok t)
    (also : textOf other = .ok t) (c : Config) :
    compile g (.ok raw) c = compile g (.ok other) c := by
  rw [compile_eq text, compile_eq also]

theorem failure?_of_broken {e : Utf8.Error} (broken : textOf raw = .error e) (c : Config) :
    failure? (compile g (.ok raw) c) = .ok (some .artifactCorrupt) := by
  rw [compile, broken]
  rfl

/-- What is said of artifacts that differ in the way in which their lines end only. -/
structure Alike (came also : Except Escape (Except LoadFault Handle)) : Prop where
  failure : failure? came = failure? also
  handles : ∀ h k, came = .ok (.ok h) → also = .ok (.ok k) →
    h.metadata.fingerprint = k.metadata.fingerprint ∧ (h == k) = true ∧
      ∀ l m, Language.ofHandle h = .ok l → Language.ofHandle k = .ok m → (l == m) = true

theorem Alike.refl (came : Except Escape (Except LoadFault Handle)) : Alike came came where
  failure := rfl
  handles h k came also := by
    obtain rfl := Except.ok.inj (Except.ok.inj (came.symm.trans also))
    refine ⟨rfl, beq_self_eq_true h.metadata.fingerprint, fun l m one other => ?_⟩
    obtain rfl := Except.ok.inj (one.symm.trans other)
    exact beq_self_eq_true l.handle.metadata.fingerprint

/-- If the generator takes the shipped body and refuses everything else, every artifact whose header
can be read is classified. Whatever the generator does, it makes no difference how lines end. -/
theorem compile_classified (g : Generator) (c : Config) :
    (g.TakesBody → ∀ content, (∀ t digits, DeclaredIn content t digits → digits.length ≤ 4300) →
      ∃ result, compile g content c = .ok result ∧ Classified content result) ∧
    ∀ raw : List UInt8, 13 ∉ raw → ∀ s other : LineEnd,
      ((∃ t, raw = Utf8.encode t) →
        compile g (.ok (s.restyle raw)) c = compile g (.ok (other.restyle raw)) c) ∧
      Alike (compile g (.ok (s.restyle raw)) c) (compile g (.ok (other.restyle raw)) c) := by
  refine ⟨fun takes _ => exists_classified takes c, fun raw plain s other => ?_⟩
  by_cases whole : ∃ t, raw = Utf8.encode t
  · obtain ⟨t, rfl⟩ := whole
    have same := compile_congr (g := g) (s.textOf_restyle plain) (other.textOf_restyle plain) c
    rw [same]
    exact ⟨fun _ => rfl, .refl _⟩
  · have no := not_exists.mp whole
    obtain ⟨e, broken⟩ := s.exists_textOf_restyle no
    obtain ⟨d, also⟩ := other.exists_textOf_restyle no
    refine ⟨fun readable => absurd readable whole, ?_, ?_⟩
    · rw [failure?_of_broken broken, failure?_of_broken also]
    · intro h _ came
      rw [compile, broken] at came
      cases came

/-- An artifact of a version that is not supported, with nothing below its header. -/
def Sample.newer : Text := "// abi-version: 15\n".toList

/-- The bytes of this artifact. -/
def Sample.newerBytes : List UInt8 :=
  [47, 47, 32, 97, 98, 105, 45, 118, 101, 114, 115, 105, 111, 110, 58, 32, 49, 53, 10]

theorem Sample.newerBytes_eq : Sample.newerBytes = Utf8.encode Sample.newer :=
  Utf8.decode_eq_ok_iff.mp rfl

theorem Sample.declared_newer : DeclaredIn (.ok Sample.newerBytes) Sample.newer "15".toList :=
  ⟨congrArg Except.ok Sample.newerBytes_eq, Header.digits?_eq_some_iff.mp rfl⟩

theorem compile_classified_newer :
    Generator.known.TakesBody ∧
      (∀ t digits, DeclaredIn (.ok Sample.newerBytes) t digits → digits.length ≤ 4300) ∧
      13 ∉ Sample.newerBytes ∧
      (∃ result, compile .known (.ok Sample.newerBytes) .default = .ok result ∧
        Fails result .incompatibleVersion) ∧
      Alike (compile .known (.ok (LineEnd.returnFeed.restyle Sample.newerBytes)) .default)
        (compile .known (.ok (LineEnd.carriageReturn.restyle Sample.newerBytes)) .default) := by
  have takes := Generator.takesBody_known
  have short (t digits : Text) (declared : DeclaredIn (.ok Sample.newerBytes) t digits) :
      digits.length ≤ 4300 := by
    have newer := Sample.declared_newer
    rw [Sample.newerBytes_eq] at declared newer
    obtain ⟨_, rfl⟩ := declared.unique newer
    decide
  have plain : 13 ∉ Sample.newerBytes := by decide
  obtain ⟨classifies, restyles⟩ := compile_classified .known .default
  obtain ⟨result, came, classified⟩ := classifies takes _ short
  have fails := (classified.version _ _ Sample.declared_newer).mpr (by decide)
  have alike := (restyles _ plain .returnFeed .carriageReturn).2
  exact ⟨takes, short, plain, ⟨result, came, fails⟩, alike⟩

end VyperFront.Artifact
