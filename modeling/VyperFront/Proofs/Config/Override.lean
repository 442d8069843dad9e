import VyperFront.Config.Source

namespace VyperFront

theorem Json.lookup_concat (name other : String) (value : Json) (members : List (String × Json)) :
    lookup name (members ++ [(other, value)]) =
      if name = other then some value else lookup name members := by
  rw [lookup, lookup, List.reverse_append, List.reverse_singleton, List.singleton_append,
    List.lookup_cons]
  by_cases same : name = other
  · rw [if_pos same, beq_iff_eq.mpr same]
  · rw [if_neg same, beq_eq_false_iff_ne.mpr same]

namespace Config

variable {members : List (String × Json)} {name : Setting} {α : Type}
  {read : Json → Except Fault α} {fallback : α} {e e' : Environment} {issue : Issue}

/-- All that is wrong with members. -/
def issues (members : List (String × Json)) : List Issue :=
  (setting members .debug readSwitch default.debug).2 ++
    (setting members .lexer readLexer default.lexer).2 ++
    (setting members .tabWidth readTabWidth default.tabWidth).2

theorem ofMembers_eq (members : List (String × Json)) :
    ofMembers members = if issues members = [] then
      .ok ⟨(setting members .debug readSwitch default.debug).1,
        (setting members .lexer readLexer default.lexer).1,
        (setting members .tabWidth readTabWidth default.tabWidth).1⟩
    else .error (issues members) := by
  rw [ofMembers]
  cases found : issues members with
  | nil =>
    rw [issues] at found
    rw [if_pos rfl]
    dsimp only
    rw [found]
  | cons issue rest =>
    rw [issues] at found
    rw [if_neg (List.cons_ne_nil issue rest)]
    dsimp only
    rw [found]

theorem ofMembers_eq_error_iff {found : List Issue} :
    ofMembers members = .error found ↔ issues members = found ∧ found ≠ [] := by
  rw [ofMembers_eq]
  split
  · next none =>
    constructor
    · nofun
    · rintro ⟨same, some⟩
      exact absurd (same.symm.trans none) some
  · next some =>
    constructor
    · rintro ⟨⟩
      exact ⟨rfl, some⟩
    · rintro ⟨same, _⟩
      exact congrArg _ same

theorem setting_of_mem (found : issue ∈ (setting members name read fallback).2) :
    issue.setting = name := by
  rw [setting] at found
  split at found
  · cases found
  · split at found
    · cases found
    · cases List.mem_singleton.mp found
      rfl

theorem setting_sound_iff : (setting members name read fallback).2 = [] ↔
    ∀ value, Json.lookup name.text members = some value → ∃ a, read value = .ok a := by
  rw [setting]
  cases Json.lookup name.text members with
  | none => exact ⟨fun _ => nofun, fun _ => rfl⟩
  | some value =>
    dsimp only
    cases reads : read value with
    | ok a => exact ⟨by rintro _ _ ⟨⟩; exact ⟨a, reads⟩, fun _ => rfl⟩
    | error fault =>
      constructor
      · nofun
      · intro sound
        obtain ⟨a, fine⟩ := sound value rfl
        cases reads.symm.trans fine

theorem debugsBy_eq_true_iff : debugsBy e = true ↔
    ∃ name ∈ debugVariables, ∃ value, e.lookup name = some value ∧ isFlag value = true := by
  rw [debugsBy, List.any_eq_true]
  refine exists_congr fun name => and_congr_right fun _ => ?_
  rw [Option.any_eq_true]

theorem debugsBy_congr (same : ∀ name ∈ debugVariables, e.lookup name = e'.lookup name) :
    debugsBy e = debugsBy e' := by
  rw [Bool.eq_iff_iff, debugsBy_eq_true_iff, debugsBy_eq_true_iff]
  refine exists_congr fun name => and_congr_right fun listed => ?_
  rw [same name listed]

theorem override_congr (same : ∀ name ∈ debugVariables, e.lookup name = e'.lookup name) :
    override e = override e' := by
  funext members
  rw [override, override, debugsBy_congr same]

theorem override_of_quiet (quiet : debugsBy e = false) : override e members = members := by
  rw [override, quiet]
  rfl

theorem setting_override_of_ne (other : name ≠ .debug) :
    setting (override e members) name read fallback = setting members name read fallback := by
  have apart : name.text ≠ Setting.debug.text := by
    cases name with
    | debug => exact absurd rfl other
    | lexer => decide
    | tabWidth => decide
  rw [override]
  split
  · rw [setting, setting, Json.lookup_concat, if_neg apart]
  · rfl

theorem setting_override_debug (loud : debugsBy e = true) (fallback : Bool) :
    setting (override e members) .debug readSwitch fallback = (true, []) := by
  rw [override, if_pos loud, setting, Json.lookup_concat, if_pos rfl]
  rfl

/-- An issue outlasts the change unless debugging is turned on and it is an issue with that. -/
theorem mem_issues_override_iff : issue ∈ issues (override e members) ↔
    issue ∈ issues members ∧ (debugsBy e = false ∨ issue.setting ≠ .debug) := by
  have lexer (found : issue ∈ (setting members .lexer readLexer default.lexer).2) :
      issue.setting ≠ .debug := by
    rw [setting_of_mem found]
    decide
  have width (found : issue ∈ (setting members .tabWidth readTabWidth default.tabWidth).2) :
      issue.setting ≠ .debug := by
    rw [setting_of_mem found]
    decide
  cases loud : debugsBy e with
  | false =>
    rw [override_of_quiet loud]
    exact ⟨fun found => ⟨found, .inl rfl⟩, And.left⟩
  | true =>
    rw [issues, setting_override_debug loud, setting_override_of_ne (by decide),
      setting_override_of_ne (by decide), List.nil_append, issues, List.append_assoc,
      List.mem_append]
    constructor
    · intro found
      refine ⟨List.mem_append_right _ (List.mem_append.mpr found), .inr ?_⟩
      exact found.elim lexer width
    · rintro ⟨found, impossible | other⟩
      · cases impossible
      · rcases List.mem_append.mp found with debug | rest
        · exact absurd (setting_of_mem debug) other
        · exact List.mem_append.mp rest

/-- Members that give no configuration leave the lexer and the tab width at their defaults. -/
theorem defaults_of_issues (found : issues members ≠ []) :
    (ofMembersOrDefault members).1.lexer = .contextual ∧
      (ofMembersOrDefault members).1.tabWidth = .eight := by
  rw [ofMembersOrDefault, ofMembers_eq_error_iff.mpr ⟨rfl, found⟩]
  exact ⟨rfl, rfl⟩

/-- Whatever is wrong with the members, debugging is on once the environment turns it on. -/
theorem debug_of_loud (loud : debugsBy e = true) (members : List (String × Json)) :
    (ofMembersOrDefault (override e members)).1.debug = true := by
  have written : Json.lookup Setting.debug.text (override e members) = some (.bool true) := by
    rw [override, if_pos loud, Json.lookup_concat, if_pos rfl]
  rw [ofMembersOrDefault, ofMembers_eq]
  split
  · next c found =>
    split at found
    · cases found
      rw [setting_override_debug loud]
    · cases found
  · next list found =>
    dsimp only
    rw [written]

/-- The lexer and the tab width do not depend on the environment, as long as the members' own word
on debugging is not wrong. -/
theorem layout_override (sound : (setting members .debug readSwitch default.debug).2 = [])
    (e : Environment) :
    (ofMembersOrDefault (override e members)).1.lexer = (ofMembersOrDefault members).1.lexer ∧
      (ofMembersOrDefault (override e members)).1.tabWidth =
        (ofMembersOrDefault members).1.tabWidth := by
  have same : issues (override e members) = issues members := by
    cases loud : debugsBy e with
    | false => rw [override_of_quiet loud]
    | true =>
      rw [issues, issues, setting_override_debug loud, setting_override_of_ne (by decide),
        setting_override_of_ne (by decide), sound]
  by_cases none : issues members = []
  · rw [ofMembersOrDefault, ofMembersOrDefault, ofMembers_eq, ofMembers_eq, same, if_pos none,
      if_pos none]
    dsimp only
    rw [setting_override_of_ne (by decide), setting_override_of_ne (by decide)]
    exact ⟨rfl, rfl⟩
  · obtain ⟨lexer, width⟩ := defaults_of_issues none
    obtain ⟨lexer', width'⟩ := defaults_of_issues (same.symm ▸ none)
    exact ⟨lexer'.trans lexer.symm, width'.trans width.symm⟩

end Config

end VyperFront
