import Mathlib.Data.List.Induction
import VyperFront.Proofs.Automaton.SourceFile
import VyperFront.Proofs.Machine.Completeness

/-! Stacks with the same symbols on them, but for items of a source file below. Whatever the
one shifts, the other does: after some items the machine goes on as at the beginning. -/

namespace VyperFront

open VyperFront.Graph

namespace Stack

/-- The symbols on the stack, in the order of the tokens. -/
def symbols (stack : Stack) : List Symbol := stack.derivations.map Derivation.symbol

/-- The symbols after the items of a source file. -/
def core : List Symbol → List Symbol
  | .nonterminal .fileItems :: rest => rest
  | symbols => symbols

variable {stack other moved : Stack} {t u : SourceToken} {p q : Production} {s : Symbol}
  {before after : List Symbol} {number target : Nat}

@[simp] theorem symbols_nil : symbols [] = [] := rfl

theorem symbols_cons (entry : Entry) (stack : Stack) :
    symbols (entry :: stack) = stack.symbols ++ [entry.derivation.symbol] := by
  simp [symbols, derivations]

theorem symbols_eq_nil_iff : stack.symbols = [] ↔ stack = [] := by
  simp [symbols, derivations]

theorem core_concat (apart : before ≠ [] ∨ s ≠ .nonterminal .fileItems) :
    core (before ++ [s]) = core before ++ [s] := by
  cases before with
  | nil =>
    have other : s ≠ .nonterminal .fileItems := apart.resolve_left (fun none => none rfl)
    simp only [List.nil_append, core]
    split
    · next same => exact absurd (List.cons.inj same).1 other
    · rfl
  | cons first rest =>
    rw [List.cons_append, core.eq_def, core.eq_def]
    split
    · next same =>
      obtain ⟨rfl, rfl⟩ := List.cons.inj same
      rfl
    · next other =>
      split
      · next same =>
        obtain ⟨rfl, rfl⟩ := List.cons.inj same
        exact absurd rfl (other _)
      · rfl

theorem core_append (some : before ≠ []) : core (before ++ after) = core before ++ after := by
  induction after using List.reverseRecOn with
  | nil => simp
  | append_singleton rest s ih =>
    rw [← List.append_assoc, core_concat (.inl (by simp [some])), ih, List.append_assoc]

theorem length_core_le (symbols : List Symbol) : (core symbols).length ≤ symbols.length := by
  unfold core
  split <;> simp

theorem Sound.path (sound : Sound stack) : Path 0 stack.symbols stack.top := by
  induction sound with
  | nil => exact .nil 0
  | cons _ _ leads ih =>
    rw [symbols_cons]
    exact ih.snoc leads

/-- The core leads from the beginning, or from where a source file goes on after items. -/
theorem Sound.exists_start (sound : Sound stack) :
    ∃ number, (number = 0 ∨ number = afterItems) ∧ Path number (core stack.symbols) stack.top := by
  have path := sound.path
  unfold core
  split
  · next rest same =>
    rw [same] at path
    cases path with
    | cons leads more =>
      obtain ⟨_, rfl⟩ := leads_fileItems_iff.mp leads
      exact ⟨afterItems, .inr rfl, more⟩
  · exact ⟨0, .inl rfl, path⟩

theorem Sound.symbols_eq (sound : Sound stack) (holds : Holds stack.top p p.body.length) :
    stack.symbols = symbols (Stack.below p stack) ++ p.body := by
  obtain ⟨popped, _⟩ := sound.popped holds
  rw [List.take_length] at popped
  rw [← popped, symbols, symbols, ← List.map_append, derivations, derivations, derivations,
    ← List.map_append, ← List.reverse_append, List.take_append_drop]

/-- Two stacks with the same symbols after the items of a source file. -/
structure Tracks (stack other : Stack) : Prop where
  sound : Sound stack
  also : Sound other
  core : core other.symbols = core stack.symbols

namespace Tracks

theorem symm (tracks : Tracks stack other) : Tracks other stack :=
  ⟨tracks.also, tracks.sound, tracks.core.symm⟩

/-- The stacks have the same state on top, unless they are at the end of an item. -/
theorem cases (tracks : Tracks stack other) :
    other.top = stack.top ∨
      Stack.core stack.symbols = [] ∨
      ∃ s, Stack.core stack.symbols = [s] ∧ (isItem s = true ∨ s = .nonterminal .sourceFile) := by
  obtain ⟨first, start, path⟩ := tracks.sound.exists_start
  obtain ⟨second, begin, also⟩ := tracks.also.exists_start
  rw [tracks.core] at also
  generalize Stack.core stack.symbols = symbols at path also ⊢
  cases path with
  | nil => exact .inr (.inl rfl)
  | @cons _ middle _ s rest leads path =>
    cases also with
    | @cons _ between _ _ _ others also =>
      by_cases special : isItem s = true ∨ s = .nonterminal .sourceFile
      · refine .inr (.inr ⟨s, ?_, special⟩)
        cases path with
        | nil => rfl
        | cons more _ => exact absurd more (not_leads_of_item start leads special)
      · left
        have same : between = middle := by
          by_cases items : s = .nonterminal .fileItems
          · subst items
            rw [(leads_fileItems_iff.mp leads).2, (leads_fileItems_iff.mp others).2]
          · have part : isPart s = false := by
              simp only [not_or] at special
              simp [isPart, special, items]
            have plain {number target : Nat} (start : number = 0 ∨ number = afterItems)
                (leads : Leads number s target) : Leads 0 s target := by
              rcases start with rfl | rfl
              · exact leads
              · exact (leads_zero_iff part).mpr leads
            exact (plain begin others).unique (plain start leads)
        subst same
        exact also.unique path

end Tracks

/-- With nothing but items read, the machine is at the beginning or after them. -/
theorem Sound.top_of_core_nil (sound : Sound stack) (none : core stack.symbols = []) :
    stack.top = 0 ∨ stack.top = afterItems := by
  obtain ⟨number, start, path⟩ := sound.exists_start
  rw [none] at path
  cases path
  exact start

/-- Between items only source files are reduced, at the end of the input. -/
theorem Sound.not_reduces_of_core_nil (sound : Sound stack) (none : core stack.symbols = [])
    {k : Terminal} (inside : k ≠ .endOfInput) : ¬ Reduces stack.top p k := by
  intro reduces
  have holds := reduces.holds
  obtain ⟨origin, begins, _, follows⟩ := reduces
  have head : p.head = .sourceFile := by
    rcases sound.top_of_core_nil none with zero | after
    · rw [zero] at holds
      exact Grammar.head_eq_sourceFile_of_body_eq_nil
        (Grammar.mem_productions.mpr holds.mem_productions)
        (List.eq_nil_of_length_eq_zero holds.place_eq_zero)
    · have program : Holds 0 Grammar.whole 0 :=
        holds_program (Grammar.mem_productions.mp Grammar.whole_mem_productions)
      have source : Holds 0 ⟨.sourceFile, .node .sourceFile, [.kept (.nonterminal .fileItems)]⟩ 0 :=
        @Holds.begin _ 0 _ _ _ program rfl (by decide)
      have leads : Leads 0 (.nonterminal .fileItems) afterItems :=
        leads_fileItems_iff.mpr ⟨rfl, rfl⟩
      rw [after] at holds
      rw [holds.complete_unique (leads.holds source rfl)]
  rw [head] at follows
  exact inside (follows_sourceFile follows)

theorem Sound.not_leads_of_core_single (sound : Sound stack) (single : core stack.symbols = [s])
    (special : isItem s = true ∨ s = .nonterminal .sourceFile) {r : Symbol} :
    ¬ Leads stack.top r target := by
  obtain ⟨number, start, path⟩ := sound.exists_start
  rw [single] at path
  cases path with
  | cons leads path =>
    cases path
    exact not_leads_of_item start leads special

private theorem eq_of_core_single {symbols : List Symbol} (single : core symbols = [s]) :
    symbols = [s] ∨ symbols = [.nonterminal .fileItems, s] := by
  unfold core at single
  split at single
  · exact .inr (by rw [single])
  · exact .inl single

/-- At the end of an item, all of the stack is reduced to items. -/
theorem Sound.exists_reduces_iff (sound : Sound stack) (single : core stack.symbols = [s])
    (item : isItem s = true) :
    ∃ q, q.head = .fileItems ∧ q.body = stack.symbols ∧
      ∀ {p k}, Reduces stack.top p k ↔ p = q ∧ Follows 0 .fileItems k := by
  obtain ⟨q, member, body⟩ : ∃ q ∈ Nonterminal.fileItems.productions, q.body = stack.symbols := by
    obtain ⟨alone, paired⟩ := exists_itemProduction item
    rcases eq_of_core_single single with same | same
    · exact same ▸ alone
    · exact same ▸ paired
  have head := Nonterminal.head_of_mem_productions member
  have begins := (holds_fileItems_iff member).mpr rfl
  have path := sound.path
  rw [← body] at path
  refine ⟨q, head, body, fun {p k} => ⟨fun reduces => ?_, ?_⟩⟩
  · obtain rfl := reduces.holds.complete_unique (path.complete begins)
    obtain ⟨origin, starts, _, follows⟩ := reduces
    obtain rfl := (holds_fileItems_iff member).mp starts
    exact ⟨rfl, head ▸ follows⟩
  · rintro ⟨rfl, follows⟩
    exact ⟨0, begins, path, head.symm ▸ follows⟩

/-- A whole source file is reduced at the end of the input only. -/
theorem Sound.not_reduces_of_sourceFile (sound : Sound stack)
    (single : core stack.symbols = [.nonterminal .sourceFile]) {k : Terminal}
    (inside : k ≠ .endOfInput) : ¬ Reduces stack.top p k := by
  intro reduces
  have path := sound.path
  rcases eq_of_core_single single with same | same
  · rw [same] at path
    have program : Holds 0 Grammar.whole 0 :=
      holds_program (Grammar.mem_productions.mp Grammar.whole_mem_productions)
    obtain rfl := reduces.holds.complete_unique (path.complete (p := Grammar.whole) program)
    obtain ⟨_, _, _, follows⟩ := reduces
    exact inside (follows_program follows)
  · rw [same] at path
    cases path with
    | cons leads path =>
      cases path with
      | cons more _ => exact (not_leads_part leads.target_ne_zero).2 more

namespace Tracks

theorem exists_leads (tracks : Tracks stack other) (leads : Leads stack.top s target)
    (items : s ≠ .nonterminal .fileItems) (source : s ≠ .nonterminal .sourceFile) :
    ∃ target, Leads other.top s target := by
  rcases tracks.cases with same | none | ⟨r, single, special⟩
  · exact ⟨target, same.symm ▸ leads⟩
  · have start := tracks.sound.top_of_core_nil none
    have begin := tracks.also.top_of_core_nil (tracks.core.trans none)
    cases part : isPart s with
    | true =>
      have item : isItem s = true := by simpa [isPart, items, source] using part
      exact exists_leads_item begin item
    | false =>
      have zero : Leads 0 s target := by
        rcases start with here | here
        · exact here ▸ leads
        · rw [leads_zero_iff part, ← here]
          exact leads
      rcases begin with here | here
      · exact ⟨target, here.symm ▸ zero⟩
      · exact ⟨target, here.symm ▸ (leads_zero_iff part).mp zero⟩
  · exact absurd leads (tracks.sound.not_leads_of_core_single single special)

/-- The stacks under a production that both reduce have the same symbols, too. -/
theorem below (tracks : Tracks stack other) (holds : Holds stack.top p p.body.length)
    (same : other.top = stack.top) : Tracks (Stack.below p stack) (Stack.below p other) := by
  have symbols := tracks.sound.symbols_eq holds
  have others := tracks.also.symbols_eq (same.symm ▸ holds)
  have core := tracks.core
  refine ⟨tracks.sound.drop _, tracks.also.drop _, ?_⟩
  rw [symbols, others] at core
  generalize Stack.symbols (Stack.below p stack) = first at core ⊢
  generalize Stack.symbols (Stack.below p other) = second at core ⊢
  -- Items at the bottom of the one stack only leave nothing else under the production there.
  have short {a b : List Symbol} (same : Stack.core (a ++ p.body) = Stack.core p.body)
      (some : a ≠ []) : Stack.core a = [] := by
    rw [core_append some] at same
    have lengths := congrArg List.length same
    have := length_core_le p.body
    rw [List.length_append] at lengths
    exact List.eq_nil_of_length_eq_zero (by omega)
  by_cases none : first = []
  · subst none
    by_cases also : second = []
    · rw [also]
    · exact short (b := []) core also
  · by_cases also : second = []
    · subst also
      exact (short (b := []) core.symm none).symm
    · rw [core_append none, core_append also] at core
      exact List.append_cancel_right core

theorem cons {d e : Derivation} {onward : Nat} (tracks : Tracks stack other) (valid : d.Valid)
    (leads : Leads stack.top d.symbol target) (alsoValid : e.Valid) (symbol : e.symbol = d.symbol)
    (alsoLeads : Leads other.top e.symbol onward) :
    Tracks (⟨target, d⟩ :: stack) (⟨onward, e⟩ :: other) := by
  refine ⟨.cons tracks.sound valid leads, .cons tracks.also alsoValid alsoLeads, ?_⟩
  rw [symbols_cons, symbols_cons]
  dsimp only
  rw [symbol] at alsoLeads ⊢
  by_cases items : d.symbol = .nonterminal .fileItems
  · rw [items] at leads alsoLeads
    have first := tracks.sound.eq_nil_of_top (leads_fileItems_iff.mp leads).1
    have second := tracks.also.eq_nil_of_top (leads_fileItems_iff.mp alsoLeads).1
    rw [first, second]
  · rw [core_concat (.inr items), core_concat (.inr items), tracks.core]

/-- With one state on top, both stacks reduce one production, and go on with its head. -/
private theorem exists_reduces_of_top {k : Terminal} (tracks : Tracks stack other)
    (same : other.top = stack.top) (reduces : Reduces stack.top p k) (inside : k ≠ .endOfInput)
    (leads : Leads (Stack.below p stack).top (.nonterminal p.head) target) :
    ∃ onward, Reduces other.top p k ∧
      Leads (Stack.below p other).top (.nonterminal p.head) onward ∧
      Tracks (⟨target, reduced p stack⟩ :: Stack.below p stack)
        (⟨onward, reduced p other⟩ :: Stack.below p other) := by
  have also : Reduces other.top p k := same.symm ▸ reduces
  have under := tracks.below reduces.holds same
  have valid := (tracks.sound.valid_reduced reduces.holds).1
  have alsoValid := (tracks.also.valid_reduced also.holds).1
  have source : p.head ≠ .sourceFile := by
    obtain ⟨_, _, _, follows⟩ := reduces
    intro head
    rw [head] at follows
    exact inside (follows_sourceFile follows)
  obtain ⟨onward, others⟩ :
      ∃ onward, Leads (Stack.below p other).top (.nonterminal p.head) onward := by
    by_cases items : p.head = .fileItems
    · have begins := (tracks.also.popped also.holds).2
      have member : p ∈ Nonterminal.fileItems.productions := items ▸ begins.mem_productions
      rw [(holds_fileItems_iff member).mp begins, items]
      exact ⟨afterItems, leads_fileItems_iff.mpr ⟨rfl, rfl⟩⟩
    · exact under.exists_leads leads (by simpa using items) (by simpa using source)
  exact ⟨onward, also, others, under.cons valid leads alsoValid rfl others⟩

/-- At the end of an item both stacks are reduced to items, whether or not there were some. -/
private theorem exists_reduces_of_item {k : Terminal} (tracks : Tracks stack other)
    (single : Stack.core stack.symbols = [s]) (item : isItem s = true)
    (reduces : Reduces stack.top p k)
    (leads : Leads (Stack.below p stack).top (.nonterminal p.head) target) :
    ∃ q onward, q.head = .fileItems ∧ Reduces other.top q k ∧
      Leads (Stack.below q other).top (.nonterminal q.head) onward ∧
      Tracks (⟨target, reduced p stack⟩ :: Stack.below p stack)
        (⟨onward, reduced q other⟩ :: Stack.below q other) := by
  obtain ⟨p', head, body, iff⟩ := tracks.sound.exists_reduces_iff single item
  obtain ⟨rfl, follows⟩ := iff.mp reduces
  obtain ⟨q, alsoHead, alsoBody, alsoIff⟩ :=
    tracks.also.exists_reduces_iff (tracks.core.trans single) item
  have also : Reduces other.top q k := alsoIff.mpr ⟨rfl, follows⟩
  have valid := (tracks.sound.valid_reduced reduces.holds).1
  have alsoValid := (tracks.also.valid_reduced also.holds).1
  -- What is reduced is the whole stack, so nothing is left under it.
  have bottom {stack : Stack} {p : Production} (sound : Sound stack)
      (holds : Holds stack.top p p.body.length) (body : p.body = stack.symbols) :
      Stack.below p stack = [] := by
    have symbols := sound.symbols_eq holds
    rw [body] at symbols
    exact symbols_eq_nil_iff.mp (List.self_eq_append_left.mp symbols)
  have first := bottom tracks.sound reduces.holds body
  have second := bottom tracks.also also.holds alsoBody
  have under : Tracks (Stack.below p stack) (Stack.below q other) := by
    rw [first, second]
    exact ⟨.nil, .nil, rfl⟩
  have others : Leads (Stack.below q other).top (.nonterminal q.head) afterItems := by
    rw [second, alsoHead]
    exact leads_fileItems_iff.mpr ⟨rfl, rfl⟩
  have symbol : (reduced q other).symbol = (reduced p stack).symbol := by
    rw [reduced, reduced, Derivation.symbol, Derivation.symbol, head, alsoHead]
  exact ⟨q, afterItems, alsoHead, also, others, under.cons valid leads alsoValid symbol others⟩

/-- A reduction of the one stack is met by one of the other. -/
private theorem exists_reduces {k : Terminal} (tracks : Tracks stack other)
    (reduces : Reduces stack.top p k) (inside : k ≠ .endOfInput) (program : p.head ≠ .program)
    (leads : Leads (Stack.below p stack).top (.nonterminal p.head) target) :
    ∃ q onward, q.head ≠ .program ∧ Reduces other.top q k ∧
      Leads (Stack.below q other).top (.nonterminal q.head) onward ∧
      Tracks (⟨target, reduced p stack⟩ :: Stack.below p stack)
        (⟨onward, reduced q other⟩ :: Stack.below q other) := by
  rcases tracks.cases with same | none | ⟨s, single, item | rfl⟩
  · obtain ⟨onward, met⟩ := tracks.exists_reduces_of_top same reduces inside leads
    exact ⟨p, onward, program, met⟩
  · exact absurd reduces (tracks.sound.not_reduces_of_core_nil none inside)
  · obtain ⟨q, onward, head, met⟩ := tracks.exists_reduces_of_item single item reduces leads
    exact ⟨q, onward, by simp [head], met⟩
  · exact absurd reduces (tracks.sound.not_reduces_of_sourceFile single inside)

theorem feeds (tracks : Tracks stack other) (feeds : Feeds stack t (.shifted moved))
    (inside : t.kind ≠ .endOfInput) (kind : u.kind = t.kind) :
    ∃ also, Feeds other u (.shifted also) ∧ Tracks moved also := by
  generalize shifted : Result.shifted moved = result at feeds
  induction feeds generalizing other with
  | accept => cases shifted
  | shift leads =>
    cases shifted
    obtain ⟨onward, others⟩ := tracks.exists_leads leads Symbol.noConfusion Symbol.noConfusion
    rw [← kind] at others
    exact ⟨_, .shift others, tracks.cons (.token _) leads (.token u)
      (congrArg Symbol.terminal kind) others⟩
  | reduce reduces program leads _ ih =>
    obtain ⟨q, onward, alsoProgram, met, others, under⟩ :=
      tracks.exists_reduces reduces inside program leads
    obtain ⟨also, feeds, final⟩ := ih under inside kind shifted
    exact ⟨also, .reduce (kind.symm ▸ met) alsoProgram others feeds, final⟩

theorem shifts {input others : List SourceToken} (tracks : Tracks stack other)
    (shifts : Shifts stack input moved) (inside : ∀ t ∈ input, t.kind ≠ .endOfInput)
    (kinds : others.map Token.kind = input.map Token.kind) :
    ∃ also, Shifts other others also ∧ Tracks moved also := by
  induction shifts generalizing other others with
  | nil =>
    obtain rfl := List.map_eq_nil_iff.mp kinds
    exact ⟨other, .nil, tracks⟩
  | cons feeds _ ih =>
    cases others with
    | nil => cases kinds
    | cons u rest =>
      obtain ⟨kind, kinds⟩ := List.cons.inj kinds
      obtain ⟨here, later⟩ := List.forall_mem_cons.mp inside
      obtain ⟨next, first, tracks⟩ := tracks.feeds feeds here kind
      obtain ⟨also, shifts, final⟩ := ih tracks later kinds
      exact ⟨also, .cons first shifts, final⟩

/-- Both stacks expect the same, but for the end of the input. -/
theorem contains_expected (tracks : Tracks stack other) {k : Terminal} (inside : k ≠ .endOfInput)
    (expected : (automaton.state stack.top).expected.contains k = true) :
    (automaton.state other.top).expected.contains k = true := by
  rw [Automaton.contains_expected] at expected ⊢
  rcases expected with ⟨target, leads⟩ | ⟨p, reduces⟩
  · exact .inl (tracks.exists_leads leads Symbol.noConfusion Symbol.noConfusion)
  · rcases tracks.cases with same | none | ⟨s, single, item | rfl⟩
    · rw [same]
      exact .inr ⟨p, reduces⟩
    · exact absurd reduces (tracks.sound.not_reduces_of_core_nil none inside)
    · obtain ⟨_, _, _, iff⟩ := tracks.sound.exists_reduces_iff single item
      obtain ⟨q, _, _, also⟩ := tracks.also.exists_reduces_iff (tracks.core.trans single) item
      exact .inr ⟨q, also.mpr ⟨rfl, (iff.mp reduces).2⟩⟩
    · exact absurd reduces (tracks.sound.not_reduces_of_sourceFile single inside)

end Tracks

/-- Nothing but items of a source file is on the stack. -/
structure Idle (stack : Stack) : Prop where
  sound : Sound stack
  core : core stack.symbols = []

/-- The stack has been read up to the end of an item: what begins an item does the same to it
as to a stack with items only. -/
structure Rests (stack : Stack) : Prop where
  sound : Sound stack
  idle : ∃ idle, Idle idle ∧ ∀ {t : SourceToken} {result : Result},
    Follows 0 .fileItems t.kind → Feeds idle t result → Feeds stack t result

/-- Only what begins an item is expected. -/
def Awaits (stack : Stack) : Prop :=
  ∀ {k : Terminal}, k ≠ .endOfInput →
    (automaton.state stack.top).expected.contains k = true → Follows 0 .fileItems k

theorem Idle.rests (idle : Idle stack) : Rests stack :=
  ⟨idle.sound, stack, idle, fun _ feeds => feeds⟩

theorem Idle.tracks (idle : Idle stack) (also : Idle other) : Tracks stack other :=
  ⟨idle.sound, also.sound, also.core.trans idle.core.symm⟩

theorem idle_items {items : Derivation} (valid : items.Valid)
    (symbol : items.symbol = .nonterminal .fileItems) : Idle [⟨afterItems, items⟩] := by
  have leads : Leads 0 items.symbol afterItems := symbol ▸ leads_fileItems_iff.mpr ⟨rfl, rfl⟩
  refine ⟨.cons .nil valid leads, ?_⟩
  rw [symbols_cons, symbols_nil]
  dsimp only
  rw [symbol]
  rfl

theorem idle_nil : Idle [] := ⟨.nil, rfl⟩

private theorem exists_idle : ∃ stack, Idle stack ∧ stack.top = afterItems := by
  have valid : (Derivation.phrase ⟨.fileItems, .splice, [.dropped (.terminal .newline)]⟩
      [.token ⟨.newline, [], default⟩]).Valid := by decide
  exact ⟨_, idle_items valid rfl, rfl⟩

theorem Idle.exists_leads {k : Terminal} (idle : Idle stack) (follows : Follows 0 .fileItems k)
    (inside : k ≠ .endOfInput) : ∃ target, Leads stack.top (.terminal k) target := by
  obtain ⟨target, leads⟩ := leads_of_followers follows.followers inside
  obtain ⟨other, also, top⟩ := exists_idle
  rw [← top] at leads
  exact (also.tracks idle).exists_leads leads Symbol.noConfusion Symbol.noConfusion

theorem Idle.awaits (idle : Idle stack) : Awaits stack := by
  intro k inside expected
  rcases Automaton.contains_expected.mp expected with ⟨target, leads⟩ | ⟨p, reduces⟩
  · obtain ⟨other, also, top⟩ := exists_idle
    obtain ⟨onward, leads⟩ :=
      (idle.tracks also).exists_leads leads Symbol.noConfusion Symbol.noConfusion
    rw [top] at leads
    exact follows_of_leads leads
  · exact absurd reduces (idle.sound.not_reduces_of_core_nil idle.core inside)

namespace Rests

/-- What begins an item does one thing only, whatever is before the item. -/
theorem feeds_iff (rests : Rests stack) (follows : Follows 0 .fileItems t.kind)
    (inside : t.kind ≠ .endOfInput) :
    ∃ idle, Idle idle ∧ ∀ result, Feeds stack t result ↔ Feeds idle t result := by
  obtain ⟨sound, stack', idle, resumes⟩ := rests
  refine ⟨stack', idle, fun result => ⟨fun feeds => ?_, resumes follows⟩⟩
  obtain ⟨target, leads⟩ := idle.exists_leads follows inside
  have shift := Feeds.shift (t := t) leads
  rw [feeds.unique (resumes follows shift)]
  exact shift

theorem contains_expected (rests : Rests stack) {k : Terminal} (follows : Follows 0 .fileItems k)
    (inside : k ≠ .endOfInput) : (automaton.state stack.top).expected.contains k = true := by
  obtain ⟨sound, idle, isIdle, resumes⟩ := rests
  obtain ⟨target, leads⟩ := isIdle.exists_leads follows inside
  let t : SourceToken := ⟨k, [], default⟩
  have shift : Feeds idle t _ := .shift leads
  have feeds := resumes (t := t) follows shift
  rw [Automaton.contains_expected]
  cases feeds with
  | shift leads => exact .inl ⟨_, leads⟩
  | reduce reduces => exact .inr ⟨_, reduces⟩

/-- What begins an item is shifted by all stacks that rest, and then they have the same symbols
on them. -/
theorem feeds (rests : Rests stack) (also : Rests other) (feeds : Feeds stack t (.shifted moved))
    (follows : Follows 0 .fileItems t.kind) (inside : t.kind ≠ .endOfInput)
    (kind : u.kind = t.kind) : ∃ next, Feeds other u (.shifted next) ∧ Tracks moved next := by
  obtain ⟨first, idle, iff⟩ := rests.feeds_iff follows inside
  obtain ⟨sound, second, alsoIdle, resumes⟩ := also
  obtain ⟨next, fed, tracks⟩ :=
    (idle.tracks alsoIdle).feeds ((iff _).mp feeds) inside kind
  exact ⟨next, resumes (kind.symm ▸ follows) fed, tracks⟩

end Rests

/-- After the tokens of some items the stack rests. -/
theorem rests_of_shifts {items : Derivation} (valid : items.Valid)
    (symbol : items.symbol = .nonterminal .fileItems) (shifts : Shifts [] items.yield stack) :
    Rests stack := by
  have program : Holds 0 Grammar.whole 0 :=
    holds_program (Grammar.mem_productions.mp Grammar.whole_mem_productions)
  have source : Holds 0 ⟨.sourceFile, .node .sourceFile, [.kept (.nonterminal .fileItems)]⟩ 0 :=
    @Holds.begin _ 0 _ _ _ program rfl (by decide)
  refine ⟨shifts.sound .nil, _, idle_items valid symbol, fun {t result} follows feeds => ?_⟩
  obtain ⟨target, moved, leads, also, resumes⟩ := resumable_of_valid valid [] _ 0 t source
    (symbol ▸ rfl) fun n same => by
      rw [symbol] at same
      cases same
      exact follows
  rw [symbol] at leads
  obtain rfl := (leads_fileItems_iff.mp leads).2
  obtain rfl := shifts.unique also
  exact resumes result feeds

/-- After a line break only what begins an item is expected. -/
theorem awaits_of_line (sound : Sound stack) (line : core stack.symbols = [.terminal .newline]) :
    Awaits stack := by
  intro k inside expected
  rcases Automaton.contains_expected.mp expected with ⟨target, leads⟩ | ⟨p, reduces⟩
  · exact absurd leads (sound.not_leads_of_core_single line (.inl rfl))
  · obtain ⟨_, _, _, iff⟩ := sound.exists_reduces_iff line rfl
    exact (iff.mp reduces).2

end Stack

end VyperFront
