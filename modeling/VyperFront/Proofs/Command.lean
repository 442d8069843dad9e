import VyperFront.Command.Run
import VyperFront.Proofs.CarriageReturn
import VyperFront.Proofs.Totality

namespace VyperFront

namespace Parse

theorem hasError_root_iff {r : Reading} (vyper : r.Vyper) (source : Source) :
    (r.parse source).root.hasError = true ↔ (r.parse source).errors ≠ [] := by
  cases came : (r.parse source).outcome with
  | error e =>
    have failed := failed_of_error came
    obtain ⟨e, one⟩ := failed.errors
    simp [failed.hasError, one]
  | ok tree =>
    have clean : (r.parse source).errors = [] := by rw [errors, came]
    have understood := Reading.understood_of_errors vyper clean
    have solid : (r.parse source).root.isGap = false := by
      have root := understood.root
      cases shape : (r.parse source).root with
      | gap => rw [shape] at root; cases root
      | leaf | node => rfl
    have whole := understood.clean _ (Tree.mem_nodes_self solid)
    simp [whole.2, clean]

end Parse

namespace Command

/-- What a run leaves behind that prints a parse. -/
structure Prints (p : Parse) (r : Result) : Prop where
  status : r.status = if p.errors.isEmpty then 0 else 1
  output : r.output = s!"Parse result: {p.sexp}\n" ++
    if p.errors.isEmpty then "Parse successful\n" else "Parse has errors\n"

/-- What a run leaves behind that prints the outline of a parse. -/
structure PrintsOutline (p : Parse) (r : Result) : Prop where
  status : r.status = if p.errors.isEmpty then 0 else 1
  output : r.output = if p.errors.isEmpty then (Outline.toJson p.outline).pretty ++ "\n" else ""

variable {s : Setting} {loaded : Loaded} {l : Language} {path : String} {raw : List UInt8}
  {t : Text} {e : Utf8.Error}

theorem readWord_of_no_dash (switches : Switches) (plain : path.startsWith "-" = false) :
    readWord switches path = .ok (.plain path) := by
  rw [readWord, plain]
  rfl

theorem request_file (name : Name) (takes : name.takesFile = true)
    (plain : path.startsWith "-" = false) :
    request [name.text, path] = .run false ⟨name, some path⟩ := by
  have dash : path ≠ "--" := fun same => by
    rw [same, ← Bool.not_eq_true, String.startsWith_string_iff] at plain
    exact plain (by decide)
  have word (switches : Switches) : readWords switches [path] = .ok [.plain path] := by
    rw [readWords, if_neg dash, readWord_of_no_dash switches plain]
    rfl
  have command : readWord generalSwitches name.text = .ok (.plain name.text) := by
    apply readWord_of_no_dash
    rw [String.startsWith_string_eq_false_iff]
    cases name <;> decide
  have words : readWords generalSwitches [name.text, path] =
      .ok [.plain name.text, .plain path] := by
    have other : name.text ≠ "--" := by cases name <;> decide
    rw [readWords, if_neg other, command, word]
    rfl
  have called : Name.ofText? name.text = some name := by cases name <;> rfl
  have read : readCommand false [] name [path] = .run false ⟨name, some path⟩ := by
    rw [readCommand, word, takes]
    rfl
  rw [request, words, ← read]
  simp only [List.zip_cons_cons, List.zip_nil_right, readGeneral, List.map_cons, List.map_nil,
    readName, called]

theorem run_file (name : Name) (takes : name.takesFile = true)
    (plain : path.startsWith "-" = false) :
    run s [name.text, path] = settle (invoke s ⟨name, some path⟩) := by
  rw [run, request_file name takes plain]
  simp only [Bool.or_false]

theorem sourceText_file (plain : path.startsWith "-" = false)
    (file : s.surroundings.files.read path = .ok raw) :
    sourceText s (some path) = match Utf8.decode raw with
      | .ok t => .ok t.unifyBreaks
      | .error e => .error (.crash (.escape (.notUtf8 e raw))) := by
  have named : path ≠ "-" := fun same => by
    rw [same, ← Bool.not_eq_true, String.startsWith_string_iff] at plain
    exact plain (by decide)
  have found : content s (some path) = .ok raw := by
    rw [content, Option.filter_some, if_pos (by simpa using named)]
    dsimp only
    rw [file]
  rw [sourceText, found]
  change (match (Utf8.decode raw).map Text.unifyBreaks with | .ok _ => _ | .error _ => _) = _
  cases Utf8.decode raw <;> rfl

theorem exists_acquire (loads : (s.loader.load s.surroundings).value = .ok loaded)
    (language : languageOf loaded = .ok l) :
    ∃ verbose written, acquire s = .ok (l, verbose, written) := by
  rw [acquire, loads]
  dsimp only
  rw [language]
  exact ⟨_, _, rfl⟩

theorem run_of_error (name : Name) (takes : name.takesFile = true)
    (plain : path.startsWith "-" = false) (file : s.surroundings.files.read path = .ok raw)
    (fails : Utf8.decode raw = .error e) :
    run s [name.text, path] = .error (.escape (.notUtf8 e raw)) := by
  have text : sourceText s (some path) = .error (.crash (.escape (.notUtf8 e raw))) := by
    rw [sourceText_file plain file, fails]
  have input : parseInput s (some path) = .error (.crash (.escape (.notUtf8 e raw))) := by
    rw [parseInput, text]
    rfl
  rw [run_file name takes plain]
  cases name with
  | check | info => cases takes
  | parse => rw [invoke, runParse, input]; rfl
  | outline => rw [invoke, runOutline, input]; rfl

theorem run_of_text (plain : path.startsWith "-" = false)
    (file : s.surroundings.files.read path = .ok raw) (reads : Utf8.decode raw = .ok t)
    (loads : (s.loader.load s.surroundings).value = .ok loaded)
    (language : languageOf loaded = .ok l) (vyper : l.handle.reading.Vyper) :
    (∃ r, run s ["parse", path] = .ok r ∧ Prints (l.parse (.text t.unifyBreaks)) r) ∧
      ∃ r, run s ["outline", path] = .ok r ∧
        PrintsOutline (l.parse (.text t.unifyBreaks)) r := by
  have text : sourceText s (some path) = .ok t.unifyBreaks := by
    rw [sourceText_file plain file, reads]
  obtain ⟨verbose, written, acquires⟩ := exists_acquire loads language
  obtain ⟨notes, input⟩ : ∃ notes,
      parseInput s (some path) = .ok (l.parse (.text t.unifyBreaks), notes) := by
    rw [parseInput, text, acquires]
    exact ⟨_, rfl⟩
  have errors := Parse.hasError_root_iff vyper (.text t.unifyBreaks)
  rw [← Language.parse] at errors
  have parses := run_file (s := s) .parse rfl plain
  have outlines := run_file (s := s) .outline rfl plain
  rw [invoke, runParse, input] at parses
  rw [invoke, runOutline, input] at outlines
  generalize l.parse (.text t.unifyBreaks) = p at errors parses outlines ⊢
  change run s ["parse", path] = settle (if p.root.hasError = true then _ else _) at parses
  change run s ["outline", path] = settle (if p.root.hasError = true then _ else _) at outlines
  by_cases clean : p.errors = []
  · have sound : ¬ p.root.hasError = true := fun broken => errors.mp broken clean
    rw [if_neg sound] at parses outlines
    exact ⟨⟨_, parses, by simp [clean, success], by simp [clean, success]⟩,
      _, outlines, by simp [clean, success], by simp [clean, success]⟩
  · have broken := errors.mpr clean
    rw [if_pos broken] at parses outlines
    exact ⟨⟨_, parses, by simp [clean, failure], by simp [clean, failure]⟩,
      _, outlines, by simp [clean, failure], by simp [clean, failure]⟩

/-- A command ends on the files that are UTF-8. -/
theorem run_ends_iff (name : Name) (takes : name.takesFile = true)
    (plain : path.startsWith "-" = false) (file : s.surroundings.files.read path = .ok raw)
    (ends : ∀ t, Utf8.decode raw = .ok t → ∃ r, run s [name.text, path] = .ok r) :
    (∃ r, run s [name.text, path] = .ok r) ↔ ∃ t, raw = Utf8.encode t := by
  constructor
  · rintro ⟨r, ran⟩
    cases decoded : Utf8.decode raw with
    | ok t => exact ⟨t, Utf8.decode_eq_ok_iff.mp decoded⟩
    | error e =>
      rw [run_of_error name takes plain file decoded] at ran
      cases ran
  · rintro ⟨t, same⟩
    exact ends t (Utf8.decode_eq_ok_iff.mpr same)

/-- The bytes of a text are parsed as the text with its line breaks unified, as long as a carriage
return stands before a line feed only. -/
theorem parse_unifyBreaks (vyper : l.handle.reading.Vyper) (paired : t.Paired) :
    (l.parse (.text t.unifyBreaks)).errors.isEmpty =
        (l.parse (.bytes (Utf8.encode t))).errors.isEmpty ∧
      (l.parse (.text t.unifyBreaks)).sexp = (l.parse (.bytes (Utf8.encode t))).sexp := by
  have bytes : l.parse (.bytes (Utf8.encode t)) = l.parse (.text t) := by
    rw [Language.parse, Reading.parse, Utf8.decode_eq_ok_iff.mpr rfl]
    rfl
  obtain ⟨errors, sexp, _⟩ := Reading.parseText_withoutReturns vyper paired
  rw [← paired.unifyBreaks_eq] at errors sexp
  rw [bytes]
  refine ⟨?_, sexp⟩
  rw [Bool.eq_iff_iff, List.isEmpty_iff, List.isEmpty_iff]
  exact errors

/-- A command on a file ends just if the file is UTF-8. If moreover a carriage return stands in it
before a line feed only, the program says of the file what the parser says of its bytes: it prints
their S-expression, and has the status of an error just if there are errors. The outline comes with
the same status, and is printed just if there are none. -/
theorem run_agrees (plain : path.startsWith "-" = false)
    (file : s.surroundings.files.read path = .ok raw)
    (loads : (s.loader.load s.surroundings).value = .ok loaded)
    (language : languageOf loaded = .ok l) (vyper : l.handle.reading.Vyper) :
    ((∃ r, run s ["parse", path] = .ok r) ↔ ∃ t, raw = Utf8.encode t) ∧
      ((∃ r, run s ["outline", path] = .ok r) ↔ ∃ t, raw = Utf8.encode t) ∧
      ∀ t : Text, raw = Utf8.encode t → t.Paired →
        ∃ p u r q, (Parser.empty.setLanguage l).parse (.bytes raw) = .ok p ∧
          run s ["parse", path] = .ok r ∧ Prints p r ∧
          (Parser.empty.setLanguage l).parse (.text t.unifyBreaks) = .ok u ∧
          run s ["outline", path] = .ok q ∧ PrintsOutline u q ∧ q.status = r.status := by
  have runs {t : Text} (reads : Utf8.decode raw = .ok t) :=
    run_of_text plain file reads loads language vyper
  refine ⟨run_ends_iff .parse rfl plain file ?_,
    run_ends_iff .outline rfl plain file ?_, ?_⟩
  · intro t reads
    obtain ⟨⟨r, ran, _⟩, _⟩ := runs reads
    exact ⟨r, ran⟩
  · intro t reads
    obtain ⟨_, r, ran, _⟩ := runs reads
    exact ⟨r, ran⟩
  · intro t same paired
    obtain ⟨⟨r, ran, prints⟩, q, also, outlines⟩ := runs (Utf8.decode_eq_ok_iff.mpr same)
    obtain ⟨errors, sexp⟩ := parse_unifyBreaks vyper paired
    rw [← same] at errors sexp
    refine ⟨_, _, r, q, rfl, ran, ⟨?_, ?_⟩, rfl, also, outlines, ?_⟩
    · rw [prints.status, errors]
    · rw [prints.output, errors, sexp]
    · rw [prints.status, outlines.status]

/-- A setting with the language at hand and one file. -/
def Sample.setting (raw : List UInt8) : Setting :=
  ⟨.holding .known (Artifact.shipped .default), ⟨[("a.vy", .file raw)], [], "grammar.lark"⟩, []⟩

theorem Sample.read_setting (raw : List UInt8) :
    (Sample.setting raw).surroundings.files.read "a.vy" = .ok raw := by
  rfl

/-- The bytes of two lines that end with a carriage return and a line feed. -/
def Sample.returned : List UInt8 :=
  [105, 102, 32, 97, 58, 13, 10, 32, 98, 32, 43, 61, 32, 99, 13, 10]

theorem Sample.returned_eq : Sample.returned = Utf8.encode "if a:\r\n b += c\r\n".toList :=
  Utf8.decode_eq_ok_iff.mp rfl

theorem run_agrees_returned :
    let s := Sample.setting Sample.returned
    "a.vy".startsWith "-" = false ∧ s.surroundings.files.read "a.vy" = .ok Sample.returned ∧
      (s.loader.load s.surroundings).value = .ok ⟨0, .ok (Artifact.shipped .default)⟩ ∧
      languageOf ⟨0, .ok (Artifact.shipped .default)⟩ = .ok (Artifact.language .default) ∧
      (Artifact.language .default).handle.reading.Vyper ∧
      ∃ p r q, (Parser.empty.setLanguage (Artifact.language .default)).parse
          (.bytes Sample.returned) = .ok p ∧
        run s ["parse", "a.vy"] = .ok r ∧ Prints p r ∧ run s ["outline", "a.vy"] = .ok q ∧
        r.status = 0 ∧ q.status = 0 := by
  intro s
  have plain : "a.vy".startsWith "-" = false :=
    String.startsWith_string_eq_false_iff.mpr (by decide)
  have language :
      languageOf ⟨0, .ok (Artifact.shipped .default)⟩ = .ok (Artifact.language .default) := rfl
  refine ⟨plain, Sample.read_setting _, rfl, language, rfl, ?_⟩
  have paired : Text.Paired "if a:\r\n b += c\r\n".toList := Text.paired_iff.mpr (by decide)
  obtain ⟨p, u, r, q, parsed, ran, prints, also, outlined, outlines, same⟩ :=
    (run_agrees (s := s) plain (Sample.read_setting _) rfl language rfl).2.2 _
      Sample.returned_eq paired
  obtain ⟨v, parses, clean, _⟩ := Parser.Sample.exists_parse Parser.Sample.lines rfl
  have one : u = v := Except.ok.inj (also.symm.trans parses)
  have status : q.status = 0 := by rw [outlines.status, one, clean]; rfl
  exact ⟨p, r, q, parsed, ran, prints, outlined, same.symm.trans status, status⟩

/-- A command on a file with a byte that begins no character does not end, although the parser
answers for these bytes. -/
theorem run_escapes :
    let s := Sample.setting [0xff]
    s.surroundings.files.read "a.vy" = .ok [0xff] ∧
      run s ["parse", "a.vy"] = .error (.escape (.notUtf8 ⟨0, 1, .invalidStart⟩ [0xff])) ∧
      run s ["outline", "a.vy"] = .error (.escape (.notUtf8 ⟨0, 1, .invalidStart⟩ [0xff])) ∧
      ∃ p e, (Parser.empty.setLanguage (Artifact.language .default)).parse (.bytes [0xff]) =
        .ok p ∧ p.sexp = "(ERROR)" ∧ p.errors = [e] ∧ e.message = "Invalid UTF-8 at byte 0" := by
  intro s
  have plain : "a.vy".startsWith "-" = false :=
    String.startsWith_string_eq_false_iff.mpr (by decide)
  have fails : Utf8.decode [0xff] = .error ⟨0, 1, .invalidStart⟩ := rfl
  refine ⟨Sample.read_setting _,
    run_of_error .parse rfl plain (Sample.read_setting _) fails,
    run_of_error .outline rfl plain (Sample.read_setting _) fails, ?_⟩
  exact ⟨_, _, rfl, rfl, rfl, rfl⟩

end Command

end VyperFront
