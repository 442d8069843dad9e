import VyperFront.Artifact.Compile
import VyperFront.Loader

namespace VyperFront.Artifact

variable {g : Generator} {content : Except FileError (List UInt8)} {c : Config} {h : Handle}
  {t : Text} {declared : Option Nat} {raw : List UInt8}

theorem compile_eq (text : textOf raw = .ok t) (g : Generator) (c : Config) :
    compile g (.ok raw) c = check g t c := by
  rw [compile, text]

/-- The tables of a handle are those that the generator gives, and it reads by the configuration. -/
structure Made (g : Generator) (c : Config) (h : Handle) : Prop where
  reading : ∃ t tables, g.verdict t c.lexer = .accepted tables ∧
    h.reading = ⟨tables.automaton, c.lexer, c.tabWidth⟩ ∧ h.metadata.nodeKinds = tables.nodeKinds
  supported : Abi.Supported h.metadata.abiVersion

theorem made_of_judge (judged : judge g t c declared = .ok (.ok h)) : Made g c h := by
  cases declared with
  | none => cases judged
  | some version =>
    by_cases supported : Abi.Supported version
    · rw [judge, if_neg (fun other => other supported)] at judged
      cases said : g.verdict t c.lexer with
      | accepted tables =>
        rw [said] at judged
        cases judged
        exact ⟨⟨t, tables, said, rfl, rfl⟩, supported⟩
      | refused reason =>
        rw [said] at judged
        cases judged
      | raised name message =>
        rw [said] at judged
        cases judged
    · rw [judge, if_pos supported] at judged
      cases judged

theorem made_of_compile (came : compile g content c = .ok (.ok h)) : Made g c h := by
  cases content with
  | error e => cases came
  | ok raw =>
    cases text : textOf raw with
    | error e =>
      rw [compile, text] at came
      cases came
    | ok t =>
      rw [compile_eq text, check] at came
      cases read : Header.version? t with
      | error e =>
        rw [read] at came
        cases came
      | ok declared =>
        rw [read] at came
        exact made_of_judge came

end VyperFront.Artifact

/-! What loading comes to. As long as nothing is kept, this is a matter of the surroundings: of
the artifact, the files that can be configurations and the environment. -/

namespace VyperFront

/-- Surroundings that a loader cannot tell apart. -/
structure Surroundings.Agree (s t : Surroundings) : Prop where
  artifact : s.artifact = t.artifact
  content : s.files.read s.artifact = t.files.read t.artifact
  home : Loader.home s = Loader.home t
  configs : ∀ path ∈ Config.paths (Loader.home s), s.files.find? path = t.files.find? path
  debugs : Config.debugsBy s.environment = Config.debugsBy t.environment

theorem Config.members_congr {files others : Files} {paths : List String}
    (agree : ∀ path ∈ paths, files.find? path = others.find? path) :
    members files paths = members others paths := by
  have first : (paths.find? fun path => (files.find? path).isSome) =
      paths.find? fun path => (others.find? path).isSome := by
    induction paths with
    | nil => rfl
    | cons path rest ih =>
      obtain ⟨here, later⟩ := List.forall_mem_cons.mp agree
      rw [List.find?_cons, List.find?_cons, here, ih later]
  rw [members, members, first]
  split
  · rfl
  · next path found =>
    have read : files.read path = others.read path := by
      rw [Files.read, Files.read, agree path (List.mem_of_find?_eq_some (first ▸ found))]
    rw [readFile, readFile, read]

namespace Loader

/-- The configuration that the surroundings give. -/
def config (s : Surroundings) : Except Escape Config :=
  (Config.load s.files (Config.paths (home s)) s.environment).map Prod.fst

/-- What loading comes to in the surroundings. -/
def outcome (g : Artifact.Generator) (s : Surroundings) :
    Except Escape (Except LoadError Handle) :=
  match config s with
  | .error escape => .error escape
  | .ok c => (compile g s c).1

/-- Whether the surroundings have a configuration that turns debugging on. -/
def debugs (s : Surroundings) : Bool :=
  match config s with
  | .error _ => false
  | .ok c => c.debug

/-- The loader, with remarks written once the surroundings say so. -/
def noting (l : Loader) (s : Surroundings) : Loader := { l with verbose := l.verbose || debugs s }

variable {g : Artifact.Generator} {l : Loader} {s t : Surroundings} {loaded : Loaded}
  {escape : Escape} {result : Except LoadError Handle} {h : Handle}

theorem debugs_eq_true_iff : debugs s = true ↔ ∃ c, config s = .ok c ∧ c.debug = true := by
  rw [debugs]
  cases config s with
  | error escape => exact ⟨nofun, nofun⟩
  | ok c => exact ⟨fun debug => ⟨c, rfl, debug⟩, by rintro ⟨_, ⟨⟩, debug⟩; exact debug⟩

theorem load_of_kept (kept : l.kept = some loaded) : l.load s = ⟨.ok loaded, l, ""⟩ := by
  rw [load, kept]

theorem load_fresh (fresh : l.kept = none) (s : Surroundings) :
    (l.load s).value = (outcome l.generator s).map (⟨l.next, ·⟩) ∧
      (l.load s).loader = match outcome l.generator s with
        | .error _ => l.noting s
        | .ok result => ((l.noting s).keep result).2 := by
  have loading : l.load s = l.loadFresh s := by rw [load, fresh]
  rw [loading, loadFresh, outcome]
  cases read : Config.load s.files (Config.paths (home s)) s.environment with
  | error escape =>
    have fails : config s = .error escape := by rw [config, read]; rfl
    have quiet : l.noting s = l := by rw [noting, debugs, fails, Bool.or_false]
    rw [fails, quiet]
    exact ⟨rfl, rfl⟩
  | ok found =>
    obtain ⟨c, early⟩ := found
    have reads : config s = .ok c := by rw [config, read]; rfl
    have notes : l.noting s = { l with verbose := l.verbose || c.debug } := by
      rw [noting, debugs, reads]
    rw [reads, notes]
    dsimp only
    cases (compile l.generator s c).1 with
    | error escape => exact ⟨rfl, rfl⟩
    | ok result => exact ⟨rfl, rfl⟩

theorem load_of_escape (fresh : l.kept = none)
    (escapes : outcome l.generator s = .error escape) :
    (l.load s).value = .error escape ∧ (l.load s).loader = l.noting s := by
  have came := load_fresh fresh s
  rwa [escapes] at came

theorem load_of_ok (fresh : l.kept = none) (came : outcome l.generator s = .ok result) :
    (l.load s).value = .ok ⟨l.next, result⟩ ∧
      (l.load s).loader = ((l.noting s).keep result).2 := by
  have loaded := load_fresh fresh s
  rwa [came] at loaded

/-- Remarks are written from the first loading on that finds debugging turned on. -/
theorem verbose_load (l : Loader) (s : Surroundings) :
    (l.load s).loader.verbose = (l.verbose || (l.kept.isNone && debugs s)) := by
  cases kept : l.kept with
  | some loaded => rw [load_of_kept kept, Option.isNone_some, Bool.false_and, Bool.or_false]
  | none =>
    rw [(load_fresh kept s).2, Option.isNone_none, Bool.true_and]
    cases outcome l.generator s <;> rfl

theorem generator_load (l : Loader) (s : Surroundings) :
    (l.load s).loader.generator = l.generator := by
  cases kept : l.kept with
  | some loaded => rw [load_of_kept kept]
  | none =>
    rw [(load_fresh kept s).2]
    cases outcome l.generator s <;> rfl

/-- The results of a loader are numbered in the order in which it came to them. -/
def Numbered (l : Loader) : Prop := ∀ loaded, l.kept = some loaded → loaded.serial < l.next

theorem Numbered.load (numbered : l.Numbered) (s : Surroundings) :
    (l.load s).loader.Numbered ∧ l.next ≤ (l.load s).loader.next := by
  cases kept : l.kept with
  | some loaded =>
    rw [load_of_kept kept]
    exact ⟨numbered, Nat.le_refl _⟩
  | none =>
    rw [(load_fresh kept s).2]
    cases outcome l.generator s with
    | error escape => exact ⟨numbered, Nat.le_refl _⟩
    | ok result =>
      refine ⟨?_, Nat.le_succ _⟩
      rintro _ ⟨⟩
      exact Nat.lt_succ_self _

theorem config_congr (agree : s.Agree t) : config s = config t := by
  have override : Config.override s.environment = Config.override t.environment := by
    funext members
    rw [Config.override, Config.override, agree.debugs]
  rw [config, config, Config.load, Config.load, ← agree.home, Config.members_congr agree.configs,
    override]

/-- Loading comes to the same in surroundings that agree. -/
theorem outcome_congr (agree : s.Agree t) : outcome g s = outcome g t := by
  have same (c : Config) : compile g s c = compile g t c := by
    rw [compile, compile, ← agree.content, ← agree.artifact]
  rw [outcome, outcome, config_congr agree]
  split
  · rfl
  · rw [same]

/-- A handle was made by the generator and the configuration. -/
theorem exists_config (came : outcome g s = .ok (.ok h)) :
    ∃ c, config s = .ok c ∧ Artifact.Made g c h := by
  rw [outcome] at came
  cases read : config s with
  | error escape =>
    rw [read] at came
    cases came
  | ok c =>
    rw [read] at came
    dsimp only at came
    rw [compile] at came
    refine ⟨c, rfl, ?_⟩
    cases compiled : Artifact.compile g (s.files.read s.artifact) c with
    | error e =>
      rw [compiled] at came
      cases came
    | ok result =>
      rw [compiled] at came
      cases result with
      | error fault => cases came
      | ok handle =>
        cases came
        exact Artifact.made_of_compile compiled

end Loader

end VyperFront
