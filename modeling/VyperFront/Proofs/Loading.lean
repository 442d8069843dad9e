import VyperFront.Proofs.Header
import VyperFront.Proofs.Loader
import VyperFront.Proofs.Text.Mended

/-! Loading comes to a result, whatever is found in the place of the artifact, unless this has a
header whose number has more digits than can be read, or the generator fails on it. -/

namespace VyperFront

namespace Artifact

variable {g : Generator} {content : Except FileError (List UInt8)} {c : Config} {t : Text}
  {e : TooLong} {raw : List UInt8} {escape : Escape}

namespace Header

/-- A header that declares a version in ones. -/
def ones (n : Nat) : Text := "// abi-version: ".toList ++ List.replicate (n + 1) '1'

theorem not_mem_ones {c : Char} (front : c ∉ "// abi-version: ".toList) (other : c ≠ '1')
    (n : Nat) : c ∉ ones n := by
  intro member
  rcases List.mem_append.mp member with inside | one
  · exact front inside
  · exact other (List.eq_of_mem_replicate one)

theorem declares_ones (n : Nat) : Declares (ones n) (List.replicate (n + 1) '1') := by
  have space : ∀ c ∈ [' '], isBlank c = true := List.forall_mem_singleton.mpr rfl
  refine ⟨[' '], [' '], space, space, rfl, by simp, fun c one => ?_⟩
  rw [List.eq_of_mem_replicate one]
  rfl

theorem line_ones (n : Nat) : line (ones n) = ones n := by
  rw [line_of_not_mem (not_mem_ones (by decide) (by decide) n), (declares_ones n).trim_eq]

end Header

/-- The header of the artifact has a number of so many digits, more than can be read. -/
def Overlong (raw : List UInt8) (e : TooLong) : Prop :=
  ∃ t digits, textOf raw = .ok t ∧ Header.digits? (Header.line t) = some digits ∧
    maxDigits < digits.length ∧ e = ⟨digits.length⟩

theorem overlong_ones {n : Nat} (long : maxDigits ≤ n) :
    Overlong (Utf8.encode (Header.ones n)) ⟨n + 1⟩ := by
  have decoded : textOf (Utf8.encode (Header.ones n)) = .ok (Header.ones n) := by
    have plain := Header.not_mem_ones (c := '\r') (by decide) (by decide) n
    rw [textOf, Utf8.decode_eq_ok_iff.mpr rfl, Except.map, Text.unifyBreaks_of_not_mem plain]
  refine ⟨Header.ones n, List.replicate (n + 1) '1', decoded, ?_, ?_, ?_⟩
  · rw [Header.line_ones]
    exact Header.digits?_eq_some_iff.mpr (Header.declares_ones n)
  · rw [List.length_replicate]
    exact Nat.lt_succ_of_le long
  · rw [List.length_replicate]

theorem overlong_iff (text : textOf raw = .ok t) :
    Overlong raw e ↔ Header.version? t = .error e := by
  rw [Header.version?_eq_error_iff]
  constructor
  · rintro ⟨u, digits, decoded, written, long, same⟩
    obtain rfl := Except.ok.inj (text.symm.trans decoded)
    exact ⟨digits, written, long, same⟩
  · rintro ⟨digits, written, long, same⟩
    exact ⟨t, digits, text, written, long, same⟩

/-- What keeps compiling from its end: the header is overlong, or it declares a supported version
and the generator fails. -/
inductive Escapes (g : Generator) (c : Config) (raw : List UInt8) : Escape → Prop where
  | overlong {e : TooLong} (overlong : Overlong raw e) : Escapes g c raw (.tooLong e)
  | raised {t : Text} {version : Nat} {name message : String} (text : textOf raw = .ok t)
      (declared : Header.version? t = .ok (some version)) (supported : Abi.Supported version)
      (raised : g.verdict t c.lexer = .raised name message) :
      Escapes g c raw (.raised name message)

theorem Escapes.exists_text (escapes : Escapes g c raw escape) : ∃ t, textOf raw = .ok t := by
  cases escapes with
  | overlong overlong =>
    obtain ⟨t, _, text, _⟩ := overlong
    exact ⟨t, text⟩
  | raised text => exact ⟨_, text⟩

theorem Escapes.overlong_of_settles (escapes : Escapes g c raw escape)
    (settles : ∀ t, textOf raw = .ok t → g.Settles t c.lexer) : ∃ e, Overlong raw e := by
  cases escapes with
  | overlong overlong => exact ⟨_, overlong⟩
  | raised text _ _ raised => exact (settles _ text _ _ raised).elim

theorem judge_eq_error_iff {declared : Option Nat} :
    judge g t c declared = .error escape ↔ ∃ version name message, declared = some version ∧
      Abi.Supported version ∧ g.verdict t c.lexer = .raised name message ∧
      escape = .raised name message := by
  cases declared with
  | none =>
    constructor
    · rintro ⟨⟩
    · rintro ⟨_, _, _, ⟨⟩, _⟩
  | some version =>
    by_cases supported : Abi.Supported version
    · rw [judge, if_neg (not_not.mpr supported)]
      cases said : g.verdict t c.lexer with
      | accepted tables =>
        constructor
        · rintro ⟨⟩
        · rintro ⟨_, _, _, _, _, ⟨⟩, _⟩
      | refused reason =>
        constructor
        · rintro ⟨⟩
        · rintro ⟨_, _, _, _, _, ⟨⟩, _⟩
      | raised name message =>
        constructor
        · rintro ⟨⟩
          exact ⟨version, name, message, rfl, supported, rfl, rfl⟩
        · rintro ⟨_, _, _, _, _, ⟨⟩, rfl⟩
          rfl
    · rw [judge, if_pos supported]
      constructor
      · rintro ⟨⟩
      · rintro ⟨_, _, _, ⟨⟩, other, _⟩
        exact absurd other supported

theorem check_eq_error_iff (text : textOf raw = .ok t) :
    check g t c = .error escape ↔ Escapes g c raw escape := by
  rw [check]
  cases read : Header.version? t with
  | error e =>
    constructor
    · rintro ⟨⟩
      exact .overlong ((overlong_iff text).mpr read)
    · intro escapes
      cases escapes with
      | overlong overlong =>
        obtain rfl := Except.error.inj (read.symm.trans ((overlong_iff text).mp overlong))
        rfl
      | raised decoded declared _ _ =>
        obtain rfl := Except.ok.inj (text.symm.trans decoded)
        rw [read] at declared
        cases declared
  | ok declared =>
    dsimp only
    rw [judge_eq_error_iff]
    constructor
    · rintro ⟨version, name, message, rfl, supported, raised, rfl⟩
      exact .raised text read supported raised
    · intro escapes
      cases escapes with
      | overlong overlong =>
        rw [(overlong_iff text).mp overlong] at read
        cases read
      | raised decoded also supported raised =>
        obtain rfl := Except.ok.inj (text.symm.trans decoded)
        obtain rfl := Except.ok.inj (read.symm.trans also)
        exact ⟨_, _, _, rfl, supported, raised, rfl⟩

/-- Compiling an artifact comes to a handle or a fault, unless it escapes. -/
theorem compile_eq_error_iff : compile g content c = .error escape ↔
    ∃ raw, content = .ok raw ∧ Escapes g c raw escape := by
  cases content with
  | error fault =>
    constructor
    · rintro ⟨⟩
    · rintro ⟨_, ⟨⟩, _⟩
  | ok raw =>
    cases text : textOf raw with
    | error fault =>
      rw [compile, text]
      constructor
      · rintro ⟨⟩
      · rintro ⟨_, ⟨⟩, escapes⟩
        obtain ⟨t, decoded⟩ := escapes.exists_text
        rw [text] at decoded
        cases decoded
    | ok t =>
      rw [compile_eq text, check_eq_error_iff text]
      constructor
      · exact fun escapes => ⟨raw, rfl, escapes⟩
      · rintro ⟨_, ⟨⟩, escapes⟩
        exact escapes

end Artifact

namespace Loader

variable {l : Loader} {s : Surroundings} {c : Config} {e : TooLong}

theorem config_default (none : ∀ path ∈ Config.paths (home s), s.files.find? path = none)
    (quiet : Config.debugsBy s.environment = false) : config s = .ok .default := by
  have first : ((Config.paths (home s)).find? fun path => (s.files.find? path).isSome) = .none :=
    List.find?_eq_none.mpr fun path member => by simp [none path member]
  have same : Config.override s.environment = id := by
    funext members
    rw [Config.override, quiet]
    rfl
  rw [config, Config.load, Config.members, first, same]
  rfl

theorem outcome_eq_error_iff (configured : config s = .ok c) {escape : Escape} :
    outcome g s = .error escape ↔
      ∃ raw, s.files.read s.artifact = .ok raw ∧ Artifact.Escapes g c raw escape := by
  rw [← Artifact.compile_eq_error_iff, outcome, configured]
  dsimp only
  rw [compile]
  cases Artifact.compile g (s.files.read s.artifact) c with
  | error e => rw [Except.error.injEq, Except.error.injEq]
  | ok result =>
    cases result with
    | error fault => constructor <;> rintro ⟨⟩
    | ok h => constructor <;> rintro ⟨⟩

/-- Loading comes to a result, a handle or an error, and gives the same from then on. -/
def Ends (l : Loader) (s : Surroundings) : Prop :=
  ∃ loaded, (l.load s).value = .ok loaded ∧ ∀ t, ((l.load s).loader.load t).value = .ok loaded

theorem ends_iff_outcome (fresh : l.kept = none) :
    l.Ends s ↔ ∀ escape, outcome l.generator s ≠ .error escape := by
  cases came : outcome l.generator s with
  | error escape =>
    refine ⟨?_, fun none => absurd rfl (none escape)⟩
    rintro ⟨_, value, _⟩
    rw [(load_of_escape fresh came).1] at value
    cases value
  | ok result =>
    obtain ⟨value, loader⟩ := load_of_ok fresh came
    refine ⟨fun _ _ => nofun, fun _ => ⟨_, value, fun t => ?_⟩⟩
    have kept : (l.load s).loader.kept = some ⟨l.next, result⟩ := by rw [loader]; rfl
    rw [load_of_kept kept]

/-- With a configuration, a loader that keeps nothing comes to a result that it keeps just if
neither the header is overlong nor the generator fails. If the generator accepts or refuses what it
is given, it is the header alone that counts. -/
theorem load_ends_iff (fresh : l.kept = none) (configured : config s = .ok c) :
    (l.Ends s ↔ ¬ ∃ raw escape, s.files.read s.artifact = .ok raw ∧
        Artifact.Escapes l.generator c raw escape) ∧
      ((∀ raw t, s.files.read s.artifact = .ok raw → textOf raw = .ok t →
          l.generator.Settles t c.lexer) →
        (l.Ends s ↔ ¬ ∃ raw e, s.files.read s.artifact = .ok raw ∧ Artifact.Overlong raw e)) := by
  have ends : l.Ends s ↔ ¬ ∃ raw escape, s.files.read s.artifact = .ok raw ∧
      Artifact.Escapes l.generator c raw escape := by
    simp only [ends_iff_outcome fresh, ne_eq, outcome_eq_error_iff configured]
    exact ⟨fun none ⟨raw, escape, fails⟩ => none escape ⟨raw, fails⟩,
      fun none escape ⟨raw, fails⟩ => none ⟨raw, escape, fails⟩⟩
  refine ⟨ends, fun settles => ends.trans (not_congr ?_)⟩
  constructor
  · rintro ⟨raw, escape, read, escapes⟩
    obtain ⟨e, overlong⟩ := escapes.overlong_of_settles fun t text => settles raw t read text
    exact ⟨raw, e, read, overlong⟩
  · rintro ⟨raw, e, read, overlong⟩
    exact ⟨raw, _, read, .overlong overlong⟩

/-- Surroundings with nothing but an artifact. -/
def Sample.around (raw : List UInt8) : Surroundings :=
  ⟨[("grammar.lark", .file raw)], [], "grammar.lark"⟩

theorem Sample.config_around (raw : List UInt8) : config (Sample.around raw) = .ok .default := by
  have here : Files.find? [("grammar.lark", .file raw)] Config.localPath = none := rfl
  have there : Files.find? [("grammar.lark", .file raw)] (Config.homePath "") = none := rfl
  exact config_default (List.forall_mem_cons.mpr ⟨here, List.forall_mem_singleton.mpr there⟩) rfl

theorem Sample.read_around (raw : List UInt8) :
    (Sample.around raw).files.read (Sample.around raw).artifact = .ok raw := by
  have found : Files.find? [("grammar.lark", .file raw)] "grammar.lark" = some (.file raw) := by
    rfl
  rw [Sample.around, Files.read]
  dsimp only
  rw [found]

/-- A header without anything below it. -/
def Sample.bare : Text := "// abi-version: 14\n".toList

/-- What such an artifact comes to is an error, since it is refused. -/
theorem load_ends_iff_bare :
    let l := start .known false
    let s := Sample.around (Utf8.encode Sample.bare)
    l.kept = none ∧ config s = .ok .default ∧
      (∀ t, l.generator.Settles t .contextual) ∧
      l.generator.verdict Sample.bare .contextual = .refused none ∧ l.Ends s := by
  intro l s
  have other : Artifact.belowHeader Sample.bare ≠ Artifact.body := by
    have empty : Artifact.belowHeader Sample.bare = [] := by decide
    have solid : Artifact.body.isEmpty = false := rfl
    intro same
    rw [← same, empty] at solid
    cases solid
  have refused : l.generator.verdict Sample.bare .contextual = .refused none :=
    Artifact.Generator.verdict_known_of_ne other
  have settles (t : Text) : l.generator.Settles t .contextual := Artifact.Generator.settles_known
  have ends := (load_ends_iff (l := l) (s := s) rfl (Sample.config_around _)).2
    fun _ t _ _ => settles t
  refine ⟨rfl, Sample.config_around _, settles, refused, ends.mpr ?_⟩
  rintro ⟨raw, e, read, overlong⟩
  obtain rfl := Except.ok.inj ((Sample.read_around _).symm.trans read)
  have text : textOf (Utf8.encode Sample.bare) = .ok Sample.bare := by
    rw [textOf, Utf8.decode_eq_ok_iff.mpr rfl]
    rfl
  have declared : Artifact.Header.version? Sample.bare = .ok (some 14) := by decide
  rw [Artifact.overlong_iff text, declared] at overlong
  cases overlong

/-- With the default configuration, an overlong header makes loading escape every time. -/
theorem load_overlong {raw : List UInt8} (overlong : Artifact.Overlong raw e)
    (g : Artifact.Generator) :
    let l := start g false
    let s := Sample.around raw
    config s = .ok .default ∧ (l.load s).value = .error (.tooLong e) ∧
      ((l.load s).loader.load s).value = .error (.tooLong e) := by
  intro l s
  have configured := Sample.config_around raw
  have escapes (g : Artifact.Generator) : outcome g s = .error (.tooLong e) :=
    (outcome_eq_error_iff configured).mpr ⟨raw, Sample.read_around raw, .overlong overlong⟩
  have fresh : l.kept = none := rfl
  obtain ⟨value, loader⟩ := load_of_escape fresh (escapes _)
  have still : (l.load s).loader.kept = none := by rw [loader]; rfl
  exact ⟨configured, value, (load_of_escape still (escapes _)).1⟩

/-- So does a header of 4301 digits. -/
theorem load_escapes :
    let l := start .known false
    let s := Sample.around (Utf8.encode (Artifact.Header.ones 4300))
    config s = .ok .default ∧ (l.load s).value = .error (.tooLong ⟨4301⟩) ∧
      ((l.load s).loader.load s).value = .error (.tooLong ⟨4301⟩) :=
  load_overlong (Artifact.overlong_ones (Nat.le_refl 4300)) .known

end Loader

end VyperFront
