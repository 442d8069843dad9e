import VyperFront.Proofs.Lexer.Wanted
import VyperFront.Proofs.Parser

/-! The contextual lexer does as well as the basic one. Both are run in step: whatever
token the machine takes was wanted, so that both lexers read it. -/

namespace VyperFront

open Stack Layout

theorem Stack.Feeds.expected {stack : Stack} {t : SourceToken} {result : Result}
    (feeds : Feeds stack t result) :
    (automaton.state stack.top).expected.contains t.kind = true := by
  rw [Automaton.contains_expected]
  cases feeds with
  | shift leads => exact .inl ⟨_, leads⟩
  | accept reduces => exact .inr ⟨_, reduces⟩
  | reduce reduces => exact .inr ⟨_, reduces⟩

namespace Reading

variable {r : Reading} {stack : Stack} {p q : Progress} {t : SourceToken}

/-- The same reading by the contextual lexer. -/
def contextual (r : Reading) : Reading := { r with mode := .contextual }

theorem feedAll_contextual (p : Progress) (events : List (Event Terminal Extent)) :
    r.contextual.feedAll p events = r.feedAll p events := by
  induction events generalizing p with
  | nil => rfl
  | cons event rest ih =>
    cases event with
    | fail e => rfl
    | note n => exact ih _
    | token t =>
      rw [feedAll, feedAll]
      exact congrArg (r.feed p t >>= ·) (funext ih)

theorem finish_contextual (p : Progress) (s : Layout.State) (last : Option SourceToken) :
    r.contextual.finish p s last = r.finish p s last := by
  rw [finish, finish, feedAll_contextual]
  rfl

theorem kind_of_role {k : Terminal} (newline : Kind.role k = .newline) : k = .newline := by
  cases k <;> first | rfl | cases newline

theorem wanted_of_feedAll (vyper : r.Vyper) (sound : Sound stack)
    (machine : p.machine = stack.machine) (s : Layout.State) (inside : t.kind ≠ .endOfInput)
    (ok : r.feedAll p (step r.tabWidth s t).1 = .ok q) :
    (r.contextual.wanted p.machine).contains t.kind = true := by
  have wanted : r.contextual.wanted p.machine =
      (VyperFront.automaton.state stack.top).expected ∪ .singleton .newline := by
    rw [Reading.wanted, contextual, vyper, machine, state_machine]
  rw [wanted, TerminalSet.contains_union, TerminalSet.contains_singleton, Bool.or_eq_true,
    decide_eq_true_eq]
  obtain ⟨_, moved, shifts, _⟩ :=
    (feedAll_eq_ok_iff vyper sound machine (inside_step inside)).mp ⟨q, ok, rfl⟩
  rcases step_cases r.tabWidth s t with ⟨⟨newline, _⟩, _⟩ | ⟨_, same⟩ | ⟨_, _, same⟩
  · exact .inr (kind_of_role newline).symm
  · rw [same, tokensOf_token] at shifts
    cases shifts with
    | cons feeds _ => exact .inl feeds.expected
  · rw [same, tokensOf_token] at shifts
    cases shifts with
    | cons feeds _ => exact .inl feeds.expected

/-- Whatever the basic lexer leads to, the contextual one does. -/
theorem run_contextual (vyper : r.Vyper) (basic : r.mode = .basic) {steps : Nat}
    {c : Lexer.Cursor} {s : Layout.State} {last : Option SourceToken} (sound : Sound stack)
    (machine : p.machine = stack.machine) {result : Fragment × List Note}
    (ok : r.run steps c s last p = .ok result) :
    r.contextual.run steps c s last p = .ok result := by
  induction steps generalizing c s last p stack with
  | zero => cases ok
  | succ steps ih =>
    have spelled : r.wanted p.machine = .spelled := by rw [Reading.wanted, basic]
    rw [run, spelled] at ok
    rw [run]
    cases next : Lexer.next .spelled c with
    | stuck cursor => simp [next] at ok
    | finished =>
      rw [next] at ok
      rw [Lexer.next_finished_narrow next]
      exact (finish_contextual p s last).trans ok
    | token t after =>
      rw [next] at ok
      have inside := (TerminalSet.contains_spelled.mp (Lexer.next_eq_token next).1).2.2
      obtain ⟨q, fed, more⟩ := bind_eq_ok_iff.mp ok
      obtain ⟨_, moved, shifts, same⟩ :=
        (feedAll_eq_ok_iff vyper sound machine (inside_step inside)).mp ⟨q, fed, rfl⟩
      rw [Lexer.next_narrow next (wanted_of_feedAll vyper sound machine s inside fed)]
      refine bind_eq_ok_iff.mpr ⟨q, (feedAll_contextual p _).trans fed, ?_⟩
      exact ih (shifts.sound sound) same more

theorem Tokenizes.contextual (vyper : r.Vyper) (basic : r.mode = .basic) {c : Lexer.Cursor}
    {s : Layout.State} {tokens : List SourceToken} (tokenizes : r.Tokenizes c s p tokens)
    (sound : Sound stack) (machine : p.machine = stack.machine) :
    r.contextual.Tokenizes c s p tokens := by
  have wanted (m : Machine) : r.wanted m = .spelled := by rw [Reading.wanted, basic]
  induction tokenizes generalizing stack with
  | done finished =>
    rw [wanted] at finished
    exact .done (Lexer.next_finished_narrow finished)
  | more read taken _ ih =>
    rw [wanted] at read
    have inside := (TerminalSet.contains_spelled.mp (Lexer.next_eq_token read).1).2.2
    obtain ⟨_, moved, shifts, same⟩ :=
      (feedAll_eq_ok_iff vyper sound machine (inside_step inside)).mp ⟨_, taken, rfl⟩
    have narrow := Lexer.next_narrow read (wanted_of_feedAll vyper sound machine _ inside taken)
    exact .more narrow ((feedAll_contextual _ _).trans taken) (ih (shifts.sound sound) same)

theorem parseText_contextual (vyper : r.Vyper) (basic : r.mode = .basic) {source : Text}
    (clean : (r.parseText source).errors = []) :
    r.contextual.parseText source = r.parseText source := by
  rw [parseText] at clean ⊢
  rw [parseText]
  cases came : r.read (ended source) with
  | error stop => simp [came, Parse.errors] at clean
  | ok result =>
    have also : r.contextual.read (ended source) = .ok result :=
      run_contextual vyper basic .nil rfl came
    simp [also]

theorem parse_contextual (vyper : r.Vyper) (basic : r.mode = .basic) {source : Source}
    (clean : (r.parse source).errors = []) : r.contextual.parse source = r.parse source := by
  cases source with
  | text source => exact parseText_contextual vyper basic clean
  | bytes bytes =>
    rw [parse] at clean ⊢
    rw [parse]
    cases decoded : Utf8.decode bytes with
    | error e => rfl
    | ok source =>
      rw [decoded] at clean
      exact parseText_contextual vyper basic clean

end Reading

/-- If a source has a tree by the basic lexer, it has the same by the contextual one:
the parses are equal as a whole. -/
theorem Parser.parse_contextual_of_basic (c : Config) (source : Source) (p : Parse)
    (parsed : (Parser.empty.setLanguage (Artifact.language { c with lexer := .basic })).parse
      source = .ok p) (clean : p.errors = []) :
    (Parser.empty.setLanguage (Artifact.language { c with lexer := .contextual })).parse source =
      .ok p := by
  cases parsed
  exact congrArg Except.ok
    (Reading.parse_contextual (r := ⟨automaton, .basic, c.tabWidth⟩) rfl rfl clean)

/-! A source with a `pass` on its only line. -/

namespace Parser.Sample

private def passTokens : List SourceToken :=
  [⟨.kwPass, "pass".toList, ⟨⟨0, 1, 1⟩, ⟨4, 1, 5⟩⟩⟩,
    ⟨.newline, "\n".toList, ⟨⟨4, 1, 5⟩, ⟨5, 2, 1⟩⟩⟩]

private theorem tokenizes_pass :
    Lexer.Tokenizes .spelled ⟨Reading.ended "pass".toList, .start⟩ passTokens :=
  Lexer.tokenizes_of_parts rfl rfl rfl

/-- What such a source derives from, wherever its tokens stand. -/
def passLine (pass newline : SourceToken) : Derivation :=
  .phrase ⟨.sourceFile, .node .sourceFile, [.kept (.nonterminal .fileItems)]⟩ [
    .phrase ⟨.fileItems, .splice, [.kept (.nonterminal .statement)]⟩ [
      .phrase ⟨.statement, .splice, [.kept (.nonterminal .simpleStatements)]⟩ [
        .phrase ⟨.simpleStatements, .splice,
            [.kept (.nonterminal .smallStatement), .dropped (.terminal .newline)]⟩ [
          .phrase ⟨.smallStatement, .splice, [.kept (.nonterminal .passStatement)]⟩ [
            .phrase ⟨.passStatement, .node .passStatement, [.dropped (.terminal .kwPass)]⟩
              [.token pass]],
          .token newline]]]]

private theorem derived_pass :
    Reading.Derived .eight "pass".toList (passLine passTokens[0] passTokens[1]) :=
  ⟨passTokens, tokenizes_pass, rfl, by decide, rfl, rfl⟩

end Parser.Sample

theorem Parser.parse_contextual_pass : ∃ p : Parse,
    (Parser.empty.setLanguage (Artifact.language { Config.default with lexer := .basic })).parse
        (.text "pass".toList) = .ok p ∧
      p.errors = [] ∧
      (Parser.empty.setLanguage
        (Artifact.language { Config.default with lexer := .contextual })).parse
          (.text "pass".toList) = .ok p := by
  obtain ⟨tree, trees⟩ :
      ∃ tree, (Sample.passLine Sample.passTokens[0] Sample.passTokens[1]).trees = [tree] :=
    ⟨_, rfl⟩
  obtain ⟨p, parsed, clean, -⟩ :=
    (Parser.parse_language_iff { Config.default with lexer := .basic } "pass".toList tree).mpr
      ((Reading.parseText_basic_iff (r := ⟨automaton, .basic, .eight⟩) rfl rfl _).mpr
        ⟨_, Sample.derived_pass, trees⟩)
  exact ⟨p, parsed, clean, parse_contextual_of_basic Config.default _ p parsed clean⟩

end VyperFront
