import VyperFront.Proofs.Config.Override
import VyperFront.Proofs.Json.Reader
import VyperFront.Proofs.Loader
import VyperFront.Proofs.Text.Mended

/-! What counts for a configuration. Of the files only the first that exists does, and of the
environment only the variables that turn debugging on. A file that is no configuration leaves the
defaults, provided that it is looked at to its end. -/

namespace VyperFront.Config

/-- What is at the first of the paths where anything is. -/
def first? (files : Files) (paths : List String) : Option Entry := paths.findSome? files.find?

/-- The object that an entry holds, if it holds one. -/
def object? : Entry → Except Escape (Option (List (String × Json)))
  | .directory | .unreadable .. => .ok none
  | .file content =>
    match textOf content with
    | .error e => .error (.notUtf8 e content)
    | .ok text =>
      match Json.read text with
      | .ok (.object members) => .ok (some members)
      | .ok _ | .error (.malformed ..) => .ok none
      | .error (.tooLong e) => .error (.tooLong e)

/-- An entry that is looked at to its end. What is not read is not looked into. A file has to be
UTF-8, and no whole number that is read in it may have too many digits. -/
def Legible : Entry → Prop
  | .directory | .unreadable .. => True
  | .file content => ∃ text, textOf content = .ok text ∧ ∀ e, Json.read text ≠ .error (.tooLong e)

variable {files : Files} {paths : List String} {path : String} {entry : Entry}
  {e : Environment} {c : Config} {remarks : List Remark}

theorem legible_iff : Legible entry ↔ ∃ object, object? entry = .ok object := by
  cases entry with
  | directory | unreadable => exact ⟨fun _ => ⟨none, rfl⟩, fun _ => trivial⟩
  | file content =>
    rw [Legible, object?]
    cases textOf content with
    | error fault =>
      constructor
      · rintro ⟨_, ⟨⟩, _⟩
      · rintro ⟨_, ⟨⟩⟩
    | ok text =>
      dsimp only
      split
      · next read => exact ⟨fun _ => ⟨_, rfl⟩, fun _ => ⟨text, rfl, by rw [read]; nofun⟩⟩
      · next read => exact ⟨fun _ => ⟨_, rfl⟩, fun _ => ⟨text, rfl, by rw [read]; nofun⟩⟩
      · next read => exact ⟨fun _ => ⟨_, rfl⟩, fun _ => ⟨text, rfl, by rw [read]; nofun⟩⟩
      · next long read =>
        constructor
        · rintro ⟨_, ⟨⟩, short⟩
          exact absurd read (short long)
        · rintro ⟨_, ⟨⟩⟩

/-- A file of UTF-8 without too many digits in a row is looked at to its end. -/
theorem legible_of_short {content : List UInt8} {text : Text} (decoded : textOf content = .ok text)
    (short : ∀ long, ¬ Json.Overlong text long) : Legible (.file content) :=
  ⟨text, decoded, fun long read => short long (Json.overlong_of_read read)⟩

theorem first?_eq (files : Files) (paths : List String) :
    first? files paths = (paths.find? fun path => (files.find? path).isSome).bind files.find? := by
  rw [first?]
  induction paths with
  | nil => rfl
  | cons path rest ih =>
    rw [List.findSome?_cons, List.find?_cons]
    cases here : files.find? path with
    | none => exact ih
    | some entry => exact here.symm

/-- The members that the first entry gives. -/
def given : Option Entry → Except Escape (List (String × Json))
  | none => .ok []
  | some entry => (object? entry).map (·.getD [])

theorem members_fst (files : Files) (paths : List String) :
    (members files paths).map Prod.fst = given (first? files paths) := by
  rw [members, first?_eq]
  cases found : paths.find? fun path => (files.find? path).isSome with
  | none => rfl
  | some path =>
    have there : (files.find? path).isSome = true := by simpa using List.find?_some found
    obtain ⟨entry, here⟩ := Option.isSome_iff_exists.mp there
    rw [Option.bind_some, here, given]
    dsimp only
    rw [readFile, Files.read, here]
    cases entry with
    | directory | unreadable => rfl
    | file content =>
      dsimp only
      rw [object?]
      cases textOf content with
      | error fault => rfl
      | ok text =>
        dsimp only
        cases Json.read text with
        | ok value => cases value <;> rfl
        | error fault => cases fault <;> rfl

/-- Loading escapes where reading the first entry does. Otherwise the configuration is that of the
members given, with the changes that the environment makes. -/
theorem load_cases (files : Files) (paths : List String) (e : Environment) :
    (∃ escape, given (first? files paths) = .error escape ∧ load files paths e = .error escape) ∨
      ∃ members remarks, given (first? files paths) = .ok members ∧
        load files paths e = .ok ((ofMembersOrDefault (override e members)).1, remarks) := by
  have came := members_fst files paths
  rw [load]
  cases found : members files paths with
  | error escape =>
    rw [found] at came
    exact .inl ⟨escape, came.symm, rfl⟩
  | ok reading =>
    rw [found] at came
    exact .inr ⟨reading.1, _, came.symm, rfl⟩

theorem load_fst (files : Files) (paths : List String) (e : Environment) :
    (load files paths e).map Prod.fst =
      (given (first? files paths)).map fun members =>
        (ofMembersOrDefault (override e members)).1 := by
  obtain ⟨escape, found, loaded⟩ | ⟨members, remarks, found, loaded⟩ := load_cases files paths e
  · rw [found, loaded]
    rfl
  · rw [found, loaded]
    rfl

theorem given_of_load (loaded : load files paths e = .ok (c, remarks)) :
    ∃ members, given (first? files paths) = .ok members ∧
      c = (ofMembersOrDefault (override e members)).1 := by
  obtain ⟨escape, _, escapes⟩ | ⟨members, _, found, came⟩ := load_cases files paths e
  · cases loaded.symm.trans escapes
  · cases loaded.symm.trans came
    exact ⟨members, found, rfl⟩

theorem load_of_escape {escape : Escape} (first : first? files paths = some entry)
    (escapes : object? entry = .error escape) (e : Environment) :
    load files paths e = .error escape := by
  have none : given (first? files paths) = .error escape := by
    rw [first, given, escapes]
    rfl
  obtain ⟨other, found, loaded⟩ | ⟨members, _, found, _⟩ := load_cases files paths e
  · cases none.symm.trans found
    exact loaded
  · cases none.symm.trans found

theorem exists_load_iff : (∃ c remarks, load files paths e = .ok (c, remarks)) ↔
    ∃ members, given (first? files paths) = .ok members := by
  constructor
  · rintro ⟨c, remarks, loaded⟩
    obtain ⟨members, found, _⟩ := given_of_load loaded
    exact ⟨members, found⟩
  · rintro ⟨members, found⟩
    obtain ⟨escape, none, _⟩ | ⟨_, remarks, _, loaded⟩ := load_cases files paths e
    · cases found.symm.trans none
    · exact ⟨_, remarks, loaded⟩

theorem exists_given_iff : (∃ members, given (some entry) = .ok members) ↔ Legible entry := by
  rw [legible_iff, given]
  cases object? entry with
  | error escape =>
    constructor
    · rintro ⟨_, ⟨⟩⟩
    · rintro ⟨_, ⟨⟩⟩
  | ok object => exact ⟨fun _ => ⟨object, rfl⟩, fun _ => ⟨_, rfl⟩⟩

theorem eq_nil_or_of_given {members : List (String × Json)} {first : Option Entry}
    (found : given first = .ok members) :
    members = [] ∨ ∃ entry, first = some entry ∧ object? entry = .ok (some members) := by
  cases first with
  | none =>
    cases found
    exact .inl rfl
  | some entry =>
    rw [given] at found
    cases held : object? entry with
    | error escape =>
      rw [held] at found
      cases found
    | ok object =>
      rw [held] at found
      cases found
      cases object with
      | none => exact .inl rfl
      | some members => exact .inr ⟨entry, rfl, held⟩

/-- A configuration is loaded just if the first entry is looked at to its end. Then the lexer and
the tab width make sense, and are the defaults if the entry is no object or a wrong one, unless
only its own word on debugging is wrong and the environment has another. Values nested too deeply
for a limit on nested calls are left out. -/
theorem load_falls_back (first : first? files paths = some entry) (e : Environment) :
    ((∃ c remarks, load files paths e = .ok (c, remarks)) ↔ Legible entry) ∧
      (∀ content text, entry = .file content → textOf content = .ok text →
        (∀ long, ¬ Json.Overlong text long) → Legible entry) ∧
      ∀ c remarks, load files paths e = .ok (c, remarks) →
        (c.lexer = .contextual ∨ c.lexer = .basic) ∧ 1 ≤ c.tabWidth.columns ∧
          ((∀ members, object? entry = .ok (some members) →
              ∃ issues, ofMembers members = .error issues ∧
                (debugsBy e = false ∨ ∃ issue ∈ issues, issue.setting ≠ .debug)) →
            c.lexer = .contextual ∧ c.tabWidth = .eight) := by
  refine ⟨?_, ?_, ?_⟩
  · rw [exists_load_iff, first, exists_given_iff]
  · rintro content text rfl decoded short
    exact legible_of_short decoded short
  · intro c remarks loaded
    refine ⟨?_, c.tabWidth.pos, fun wrong => ?_⟩
    · cases c.lexer with
      | contextual => exact .inl rfl
      | basic => exact .inr rfl
    · obtain ⟨members, found, rfl⟩ := given_of_load loaded
      rw [first] at found
      obtain rfl | ⟨_, ⟨⟩, held⟩ := eq_nil_or_of_given found
      · exact layout_override rfl e
      obtain ⟨list, refused, stays⟩ := wrong members held
      obtain ⟨rfl, some⟩ := ofMembers_eq_error_iff.mp refused
      -- An issue that stays keeps the changed members from giving a configuration.
      obtain ⟨issue, there, kept⟩ : ∃ issue ∈ issues members,
          debugsBy e = false ∨ issue.setting ≠ .debug := by
        rcases stays with quiet | ⟨issue, there, other⟩
        · obtain ⟨issue, there⟩ := List.exists_mem_of_ne_nil _ some
          exact ⟨issue, there, .inl quiet⟩
        · exact ⟨issue, there, .inr other⟩
      exact defaults_of_issues (List.ne_nil_of_mem (mem_issues_override_iff.mpr ⟨there, kept⟩))

/-- A file that is no JSON leaves the defaults. -/
theorem load_falls_back_brace :
    first? [(localPath, .file [0x7b])] (Config.paths "") = some (.file [0x7b]) ∧
      ∃ c remarks, load [(localPath, .file [0x7b])] (Config.paths "") [] = .ok (c, remarks) ∧
        c.lexer = .contextual ∧ c.tabWidth = .eight := by
  have first : first? [(localPath, .file [0x7b])] (Config.paths "") = some (.file [0x7b]) := rfl
  have short (long : TooLong) : ¬ Json.Overlong ['\x7b'] long := by
    rintro ⟨many, digits, run, _, count⟩
    have one : digits.length ≤ 1 := run.length_le
    rw [maxDigits] at many
    omega
  obtain ⟨returns, legible, settles⟩ := load_falls_back first []
  obtain ⟨c, remarks, loaded⟩ := returns.mpr (legible _ _ rfl rfl short)
  refine ⟨first, c, remarks, loaded, (settles c remarks loaded).2.2 fun members held => ?_⟩
  have none : object? (.file [0x7b]) = .ok none := rfl
  rw [none] at held
  cases held

/-- A file that is not UTF-8, and one that is nothing but a number with too many digits, keep the
configuration from being loaded. -/
theorem load_illegible :
    load [(localPath, .file [0xff])] (Config.paths "") [] =
        .error (.notUtf8 ⟨0, 1, .invalidStart⟩ [0xff]) ∧
      load [(localPath, .file (Utf8.encode (List.replicate 4301 '1')))] (Config.paths "") [] =
        .error (.tooLong ⟨4301⟩) := by
  have stray : object? (.file [0xff]) = .error (.notUtf8 ⟨0, 1, .invalidStart⟩ [0xff]) := rfl
  have ones : object? (.file (Utf8.encode (List.replicate 4301 '1'))) =
      .error (.tooLong ⟨4301⟩) := by
    have plain : '\r' ∉ List.replicate 4301 '1' := fun found => by
      cases (List.mem_replicate.mp found).2
    rw [object?, textOf, Utf8.decode_eq_ok_iff.mpr rfl, Except.map,
      Text.unifyBreaks_of_not_mem plain]
    dsimp only
    rw [Json.read_replicate (n := 4300) (Nat.le_refl _)]
  exact ⟨load_of_escape rfl stray [], load_of_escape rfl ones []⟩

theorem members_append {before : List String} (none : ∀ path ∈ before, files.find? path = .none)
    (found : (files.find? path).isSome = true) (after : List String) :
    members files (before ++ path :: after) = members files [path] := by
  have skipped : (before.find? fun path => (files.find? path).isSome) = .none := by
    refine List.find?_eq_none.mpr fun path listed => ?_
    rw [none path listed]
    exact Bool.false_ne_true
  rw [members, members, List.find?_append, skipped, Option.none_or,
    List.find?_cons_of_pos (p := fun path => (files.find? path).isSome) found,
    List.find?_cons_of_pos (p := fun path => (files.find? path).isSome) found]

/-- As long as its own word on debugging is not wrong, the lexer and the tab width that a file
gives are a matter of the file alone. -/
theorem load_layout
    (sound : ∀ entry members value, first? files paths = some entry →
      object? entry = .ok (some members) →
      Json.lookup Setting.debug.text members = some value → ∃ b, readSwitch value = .ok b)
    (e : Environment) :
    (load files paths e).map (fun loaded => (loaded.1.lexer, loaded.1.tabWidth)) =
      (given (first? files paths)).map fun members =>
        ((ofMembersOrDefault members).1.lexer, (ofMembersOrDefault members).1.tabWidth) := by
  have parts : (load files paths e).map (fun loaded => (loaded.1.lexer, loaded.1.tabWidth)) =
      ((load files paths e).map Prod.fst).map fun c => (c.lexer, c.tabWidth) := by
    cases load files paths e <;> rfl
  rw [parts, load_fst]
  cases found : given (first? files paths) with
  | error escape => rfl
  | ok members =>
    have debug : (setting members .debug readSwitch default.debug).2 = [] := by
      obtain rfl | ⟨entry, first, held⟩ := eq_nil_or_of_given found
      · rfl
      · exact setting_sound_iff.mpr fun value => sound entry members value first held
    obtain ⟨lexer, width⟩ := layout_override debug e
    rw [Except.map, Except.map, Except.map, lexer, width]

/-- What comes before what. The configuration is determined by what is at the first path where
anything is and by the variables that turn debugging on; whatever is at the paths after that one
makes no difference to the remarks either. If one of the variables turns debugging on, it is on.
The lexer and the tab width are the same whatever the variables are, unless the file's own word on
debugging is wrong. -/
theorem load_precedence :
    (∀ (files others : Files) (paths places : List String) (e e' : Environment),
      first? files paths = first? others places →
      (∀ name ∈ debugVariables, e.lookup name = e'.lookup name) →
      (load files paths e).map Prod.fst = (load others places e').map Prod.fst) ∧
    (∀ (files others : Files) (before after later : List String) (path : String)
        (e e' : Environment),
      (∀ earlier ∈ before, files.find? earlier = none ∧ others.find? earlier = none) →
      (files.find? path).isSome → files.find? path = others.find? path →
      (∀ name ∈ debugVariables, e.lookup name = e'.lookup name) →
      load files (before ++ path :: after) e = load others (before ++ path :: later) e') ∧
    (∀ (files : Files) (paths : List String) (e : Environment) (name value : String) (c : Config)
        (remarks : List Remark),
      name ∈ debugVariables → e.lookup name = some value → isFlag value →
      load files paths e = .ok (c, remarks) → c.debug = true) ∧
    (∀ (files : Files) (paths : List String) (e e' : Environment),
      (∀ entry members value, first? files paths = some entry →
        object? entry = .ok (some members) →
        Json.lookup Setting.debug.text members = some value → ∃ b, readSwitch value = .ok b) →
      (load files paths e).map (fun loaded => (loaded.1.lexer, loaded.1.tabWidth)) =
        (load files paths e').map fun loaded => (loaded.1.lexer, loaded.1.tabWidth)) := by
  refine ⟨?_, ?_, ?_, ?_⟩
  · intro files others paths places e e' first same
    rw [load_fst, load_fst, first, override_congr same]
  · intro files others before after later path e e' none found agree same
    rw [load, load, override_congr same,
      members_append (fun earlier listed => (none earlier listed).1) found after,
      members_append (fun earlier listed => (none earlier listed).2) (agree ▸ found) later,
      members_congr (List.forall_mem_singleton.mpr agree)]
  · intro files paths e name value c remarks listed set flag loaded
    have loud : debugsBy e = true := debugsBy_eq_true_iff.mpr ⟨name, listed, value, set, flag⟩
    obtain ⟨members, _, rfl⟩ := given_of_load loaded
    exact debug_of_loud loud members
  · intro files paths e e' sound
    rw [load_layout sound e, load_layout sound e']

/-- A file that sets the lexer keeps it when debugging is turned on, whatever comes after it. -/
theorem load_precedence_basic :
    let file : Entry := .file (Utf8.encode "\x7b\"lexer\": \"basic\"\x7d".toList)
    let files : Files := [(localPath, file)]
    let others : Files := [(localPath, file), ("later.json", .file [0xff])]
    let loud : Environment := [("TREE_SITTER_DEBUG", "1")]
    (load files [localPath] []).map Prod.fst =
        (load others [localPath, "later.json"] [("HOME", "/root")]).map Prod.fst ∧
      load files ([] ++ localPath :: []) [] =
        load others ([] ++ localPath :: ["later.json"]) [("HOME", "/root")] ∧
      (∃ c remarks, load files [localPath] loud = .ok (c, remarks) ∧ c.debug = true) ∧
      (load files [localPath] loud).map (fun loaded => (loaded.1.lexer, loaded.1.tabWidth)) =
        (load files [localPath] []).map fun loaded => (loaded.1.lexer, loaded.1.tabWidth) := by
  intro file files others loud
  obtain ⟨determined, onward, turnedOn, layout⟩ := load_precedence
  have quiet : ∀ name ∈ debugVariables,
      List.lookup name ([] : Environment) = List.lookup name [("HOME", "/root")] := by decide
  have first : first? files [localPath] = some file := rfl
  have silent : (object? file).toOption.join.all
      (fun members => (Json.lookup Setting.debug.text members).isNone) = true := by
    decide +kernel
  have sound : ∀ entry members value, first? files [localPath] = some entry →
      object? entry = .ok (some members) →
      Json.lookup Setting.debug.text members = some value → ∃ b, readSwitch value = .ok b := by
    rintro entry members value found held written
    cases first.symm.trans found
    rw [held] at silent
    have absent : (Json.lookup Setting.debug.text members).isNone = true := silent
    rw [written] at absent
    cases absent
  have returns : (load files [localPath] loud).isOk = true := by decide +kernel
  obtain ⟨⟨c, remarks⟩, loaded⟩ : ∃ result, load files [localPath] loud = .ok result := by
    cases loaded : load files [localPath] loud with
    | error escape =>
      rw [loaded] at returns
      cases returns
    | ok result => exact ⟨result, rfl⟩
  refine ⟨determined _ _ _ _ _ _ rfl quiet, onward _ _ _ _ _ _ _ _ nofun rfl rfl quiet, ?_, ?_⟩
  · refine ⟨c, remarks, loaded, turnedOn _ _ _ "TREE_SITTER_DEBUG" "1" _ _ ?_ rfl ?_ loaded⟩
    · decide
    · decide +kernel
  · exact layout _ _ _ _ sound

end VyperFront.Config
