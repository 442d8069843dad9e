import Mathlib.Data.List.Induction
import VyperFront.Proofs.Loader
import VyperFront.Session

/-! Loading is done once. Whatever is done in a session, what loading first comes to is kept
until the loader is made to forget, and everything that is asked for is told by it. -/

namespace VyperFront.Session

/-- What a result tells to what is asked for. -/
def Ask.told (loaded : Loaded) : Ask → Response
  | load => .loaded loaded
  | get =>
    match loaded.result with
    | .ok h => .handle h
    | .error e => .failed e
  | parse source =>
    match loaded.result with
    | .ok h => .parsed (h.reading.parse source)
    | .error e => .failed e

def Step.asks : Step → Bool
  | ask _ => true
  | _ => false

variable {s : Session} {a b : Ask} {step : Step} {steps more : List Step} {loaded other : Loaded}
  {escape : Escape} {result : Except LoadError Handle} {generator : Artifact.Generator}
  {verbose : Verbose} {around : Surroundings}

theorem after_append (s : Session) (steps more : List Step) :
    s.after (steps ++ more) = (s.after steps).after more :=
  List.foldl_append

theorem after_concat (s : Session) (steps : List Step) (step : Step) :
    s.after (steps ++ [step]) = ((s.after steps).step step).session := after_append s steps [step]

theorem loader_write (s : Session) (path : String) (entry : Entry) :
    (s.write path entry).session.loader = s.loader := by
  unfold write
  dsimp only
  split <;> rfl

theorem loader_remove (s : Session) (path : String) :
    (s.remove path).session.loader = s.loader := by
  unfold remove
  dsimp only
  split <;> rfl

theorem loader_ask (s : Session) (a : Ask) :
    (s.ask a).session.loader = (s.loader.load s.surroundings).loader := by
  rw [ask]
  split <;> rfl

theorem loader_step (s : Session) (step : Step) :
    (step = .reset ∧ (s.step step).session.loader = s.loader.reset) ∨
      (step.asks = true ∧
        (s.step step).session.loader = (s.loader.load s.surroundings).loader) ∨
      step ≠ .reset ∧ step.asks = false ∧ (s.step step).session.loader = s.loader := by
  cases step with
  | write path entry => exact .inr (.inr ⟨nofun, rfl, loader_write s path entry⟩)
  | remove path => exact .inr (.inr ⟨nofun, rfl, loader_remove s path⟩)
  | setVariable name value => exact .inr (.inr ⟨nofun, rfl, rfl⟩)
  | reset => exact .inl ⟨rfl, rfl⟩
  | ask a => exact .inr (.inl ⟨rfl, loader_ask s a⟩)

theorem loader_step_of_kept (kept : s.loader.kept = some loaded) (keeps : step ≠ .reset) :
    (s.step step).session.loader = s.loader := by
  rcases s.loader_step step with ⟨forgets, _⟩ | ⟨_, same⟩ | ⟨_, _, same⟩
  · exact absurd forgets keeps
  · rw [same, Loader.load_of_kept kept]
  · exact same

theorem kept_after (kept : s.loader.kept = some loaded) (keeps : .reset ∉ more) :
    (s.after more).loader.kept = some loaded := by
  induction more generalizing s with
  | nil => exact kept
  | cons step rest ih =>
    rw [List.mem_cons, not_or] at keeps
    have here := loader_step_of_kept kept (Ne.symm keeps.1)
    exact ih (here ▸ kept) keeps.2

theorem verbose_step (s : Session) (step : Step) : (s.step step).session.loader.verbose =
    (s.loader.verbose || (step.asks && s.loader.kept.isNone && Loader.debugs s.surroundings)) := by
  rcases s.loader_step step with ⟨rfl, same⟩ | ⟨asks, same⟩ | ⟨_, quiet, same⟩
  · rw [same]
    exact (Bool.or_false _).symm
  · rw [same, Loader.verbose_load, asks, Bool.true_and]
  · rw [same, quiet, Bool.false_and, Bool.false_and, Bool.or_false]

theorem verbose_after (written : s.loader.verbose = true) (more : List Step) :
    (s.after more).loader.verbose = true := by
  induction more generalizing s with
  | nil => exact written
  | cons step rest ih => exact ih (by rw [verbose_step, written, Bool.true_or])

theorem generator_step (s : Session) (step : Step) :
    (s.step step).session.loader.generator = s.loader.generator := by
  rcases s.loader_step step with ⟨rfl, same⟩ | ⟨_, same⟩ | ⟨_, _, same⟩
  · rw [same]
    rfl
  · rw [same, Loader.generator_load]
  · rw [same]

theorem generator_after (s : Session) (steps : List Step) :
    (s.after steps).loader.generator = s.loader.generator := by
  induction steps generalizing s with
  | nil => rfl
  | cons step rest ih => exact (ih _).trans (generator_step s step)

theorem numbered_step (numbered : s.loader.Numbered) (step : Step) :
    (s.step step).session.loader.Numbered ∧
      s.loader.next ≤ (s.step step).session.loader.next := by
  rcases s.loader_step step with ⟨rfl, same⟩ | ⟨_, same⟩ | ⟨_, _, same⟩
  · rw [same]
    exact ⟨nofun, Nat.le_refl _⟩
  · rw [same]
    exact numbered.load s.surroundings
  · rw [same]
    exact ⟨numbered, Nat.le_refl _⟩

theorem numbered_after (numbered : s.loader.Numbered) (more : List Step) :
    (s.after more).loader.Numbered ∧ s.loader.next ≤ (s.after more).loader.next := by
  induction more generalizing s with
  | nil => exact ⟨numbered, Nat.le_refl _⟩
  | cons step rest ih =>
    obtain ⟨here, later⟩ := numbered_step numbered step
    obtain ⟨after, further⟩ := ih here
    exact ⟨after, Nat.le_trans later further⟩

theorem numbered_start : (start generator verbose around).loader.Numbered := nofun

/-- A loader that has forgotten what it kept does not give it another time. -/
theorem serial_lt_next {earlier : List Step} (rest : List Step)
    (kept : ((start generator verbose around).after earlier).loader.kept = some other) :
    other.serial < ((start generator verbose around).after (earlier ++ rest)).loader.next := by
  have here : ((start generator verbose around).after earlier).loader.Numbered :=
    (numbered_after numbered_start earlier).1
  have later := (numbered_after here rest).2
  rw [after_append]
  exact Nat.lt_of_lt_of_le (here other kept) later

/-! Responses. -/

theorem response_of_ok (value : (s.loader.load s.surroundings).value = .ok loaded) (a : Ask) :
    (s.step (.ask a)).response = (a.respond loaded).1 := by
  rw [Session.step, ask, value]

theorem respond_eq_told (supported : ∀ h, loaded.result = .ok h →
    Abi.Supported h.metadata.abiVersion) (a : Ask) : (a.respond loaded).1 = a.told loaded := by
  obtain ⟨serial, result⟩ := loaded
  cases result with
  | error e => cases a <;> rfl
  | ok h =>
    cases a with
    | load => rfl
    | get => rfl
    | parse source =>
      have language : Command.languageOf ⟨serial, .ok h⟩ = .ok ⟨h, supported h rfl⟩ := by
        have wrapped : Language.ofHandle h = .ok ⟨h, supported h rfl⟩ :=
          dif_pos (supported h rfl)
        rw [Command.languageOf]
        dsimp only [bind, Except.bind]
        rw [wrapped]
      rw [Ask.respond, language]
      rfl

theorem ask_of_escape (compiles : s.loader.generator = generator) (fresh : s.loader.kept = none)
    (escapes : Loader.outcome generator s.surroundings = .error escape) (a : Ask) :
    (s.step (.ask a)).response = .escaped escape ∧
      (s.step (.ask a)).session.loader.kept = none := by
  subst compiles
  obtain ⟨value, loader⟩ := Loader.load_of_escape fresh escapes
  constructor
  · rw [Session.step, ask, value]
  · rw [Session.step, loader_ask, loader]
    exact fresh

theorem supported_of_outcome (came : Loader.outcome generator around = .ok result) {h : Handle}
    (same : result = .ok h) : Abi.Supported h.metadata.abiVersion := by
  obtain ⟨_, _, made⟩ := Loader.exists_config (came.trans (congrArg Except.ok same))
  exact made.supported

theorem ask_of_kept (kept : s.loader.kept = some loaded)
    (supported : ∀ h, loaded.result = .ok h → Abi.Supported h.metadata.abiVersion) (a : Ask) :
    (s.step (.ask a)).response = a.told loaded := by
  have value : (s.loader.load s.surroundings).value = .ok loaded := by
    rw [Loader.load_of_kept kept]
  rw [response_of_ok value, respond_eq_told supported]

theorem ask_of_ok (compiles : s.loader.generator = generator) (fresh : s.loader.kept = none)
    (came : Loader.outcome generator s.surroundings = .ok result) (a : Ask) :
    (s.step (.ask a)).response = a.told ⟨s.loader.next, result⟩ ∧
      (s.step (.ask a)).session.loader.kept = some ⟨s.loader.next, result⟩ := by
  subst compiles
  obtain ⟨value, loader⟩ := Loader.load_of_ok fresh came
  constructor
  · rw [response_of_ok value, respond_eq_told fun h same => supported_of_outcome came same]
  · rw [Session.step, loader_ask, loader]
    rfl

/-- The result is what loading came to at one of the steps, which asked for something when nothing
was kept, and after which nothing was forgotten. -/
def Obtained (generator : Artifact.Generator) (verbose : Verbose) (around : Surroundings)
    (steps : List Step) (loaded : Loaded) : Prop :=
  ∃ before a since, steps = before ++ .ask a :: since ∧ .reset ∉ since ∧
    ((start generator verbose around).after before).loader.kept = none ∧
    Loader.outcome generator ((start generator verbose around).after before).surroundings =
      .ok loaded.result

theorem Obtained.concat (obtained : Obtained generator verbose around steps loaded)
    (keeps : step ≠ .reset) : Obtained generator verbose around (steps ++ [step]) loaded := by
  obtain ⟨before, a, since, rfl, kept_since, rest⟩ := obtained
  refine ⟨before, a, since ++ [step], by simp, ?_, rest⟩
  intro forgets
  rcases List.mem_append.mp forgets with earlier | last
  · exact kept_since earlier
  · exact keeps (List.mem_singleton.mp last).symm

/-- What is kept was obtained at an earlier step. -/
theorem obtained_of_kept
    (kept : ((start generator verbose around).after steps).loader.kept = some loaded) :
    Obtained generator verbose around steps loaded := by
  induction steps using List.reverseRecOn with
  | nil => cases kept
  | append_singleton steps step ih =>
    rw [after_concat] at kept
    cases step with
    | write path entry =>
      rw [Session.step, loader_write] at kept
      exact (ih kept).concat nofun
    | remove path =>
      rw [Session.step, loader_remove] at kept
      exact (ih kept).concat nofun
    | setVariable name value => exact (ih kept).concat nofun
    | reset => cases kept
    | ask a =>
      cases earlier : ((start generator verbose around).after steps).loader.kept with
      | some other =>
        have keeps : Step.ask a ≠ .reset := nofun
        rw [loader_step_of_kept earlier keeps] at kept
        exact (ih kept).concat keeps
      | none =>
        have compiles : ((start generator verbose around).after steps).loader.generator =
            generator := generator_after ..
        cases came : Loader.outcome generator
            ((start generator verbose around).after steps).surroundings with
        | error escape =>
          rw [(ask_of_escape compiles earlier came a).2] at kept
          cases kept
        | ok result =>
          rw [(ask_of_ok compiles earlier came a).2] at kept
          cases kept
          exact ⟨steps, a, [], rfl, nofun, earlier, came⟩

/-- Loading is done once. Take any steps from the start of a session, and what is asked for next.

If nothing is kept, what loading comes to is a matter of the generator and the surroundings alone,
and of these only of the artifact, the files that can be configurations and the environment. If it
escapes, that is the response, and nothing is kept. If it comes to a result, this is a new one, and
it tells everything that is asked for until a reset; a handle among results reads by tables of the
generator, and by the lexer and the tab width of the configuration. If something is kept, it was
obtained in this way, and there was no reset since. A step turns remarks on just if it loads with
debugging on, and no step turns them off. -/
theorem loads_once (generator : Artifact.Generator) (verbose : Verbose) (around : Surroundings)
    (before : List Step) :
    let s := (start generator verbose around).after before
    (∀ a escape, s.loader.kept = none → Loader.outcome generator s.surroundings = .error escape →
      (s.step (.ask a)).response = .escaped escape ∧
        (s.step (.ask a)).session.loader.kept = none) ∧
    (∀ a result, s.loader.kept = none → Loader.outcome generator s.surroundings = .ok result →
      ∃ loaded, loaded.result = result ∧
        (∀ earlier rest other, before = earlier ++ rest →
          ((start generator verbose around).after earlier).loader.kept = some other →
          other.serial < loaded.serial) ∧
        (s.step (.ask a)).response = a.told loaded ∧
        ∀ more, .reset ∉ more → ∀ b,
          (((s.step (.ask a)).session.after more).step (.ask b)).response = b.told loaded) ∧
    (∀ h, Loader.outcome generator s.surroundings = .ok (.ok h) →
      ∃ c t tables, Loader.config s.surroundings = .ok c ∧
        generator.verdict t c.lexer = .accepted tables ∧
        h.reading = ⟨tables.automaton, c.lexer, c.tabWidth⟩) ∧
    (∀ t, s.surroundings.Agree t →
      Loader.outcome generator t = Loader.outcome generator s.surroundings) ∧
    (∀ loaded, s.loader.kept = some loaded → ∃ earlier a since,
      before = earlier ++ .ask a :: since ∧ .reset ∉ since ∧
      ((start generator verbose around).after earlier).loader.kept = none ∧
      Loader.outcome generator ((start generator verbose around).after earlier).surroundings =
        .ok loaded.result) ∧
    (∀ step, (s.step step).session.loader.verbose = true ↔ s.loader.verbose = true ∨
      step.asks = true ∧ s.loader.kept = none ∧
        ∃ c, Loader.config s.surroundings = .ok c ∧ c.debug = true) ∧
    ∀ more, s.loader.verbose = true → (s.after more).loader.verbose = true := by
  intro s
  have compiles : s.loader.generator = generator := generator_after ..
  refine ⟨fun a escape fresh escapes => ask_of_escape compiles fresh escapes a,
    fun a result fresh came => ?_, fun h came => ?_,
    fun t agree => (Loader.outcome_congr agree).symm, fun loaded kept => obtained_of_kept kept,
    fun step => ?_, fun more written => verbose_after written more⟩
  · obtain ⟨response, kept⟩ := ask_of_ok compiles fresh came a
    refine ⟨⟨s.loader.next, result⟩, rfl, fun earlier rest other split kept => ?_, response,
      fun more keeps b => ?_⟩
    · have less := serial_lt_next rest kept
      rwa [← split] at less
    · exact ask_of_kept (kept_after kept keeps) (fun h same => supported_of_outcome came same) b
  · obtain ⟨c, read, made⟩ := Loader.exists_config came
    obtain ⟨t, tables, accepted, reading, _⟩ := made.reading
    exact ⟨c, t, tables, read, accepted, reading⟩
  · rw [verbose_step, Bool.or_eq_true, Bool.and_eq_true, Bool.and_eq_true,
      Option.isNone_iff_eq_none, Loader.debugs_eq_true_iff, and_assoc]

end VyperFront.Session
