import Mathlib.Data.List.Chain
import VyperFront.Proofs.Lexer.Head
import VyperFront.Proofs.Parser.Items

/-! The lexer loses nothing. What it reads in a source without errors and what it ignores lie side
by side, and cover the text from its start to its end. -/

namespace VyperFront

/-- A part of a text that the lexer passes: a token, or what is ignored, which has no kind. -/
abbrev Tile := Token (Option Terminal) Extent

/-- The token that a part is, unless it is ignored. -/
def Tile.token? (tile : Tile) : Option SourceToken :=
  tile.kind.map fun kind => ⟨kind, tile.text, tile.place⟩

/-- Whether the text may be ignored: spacing alone, or a backslash at the end of a line. -/
def Ignorable (t : Text) : Prop :=
  (∀ c ∈ t, Lexeme.isSpacing c = true) ∨
    ∃ blanks, (∀ c ∈ blanks, Lexeme.isSpacing c = true) ∧
      (t = '\\' :: blanks ++ ['\n'] ∨ t = '\\' :: blanks ++ ['\r', '\n'])

/-- The parts cover the text that begins at the place, side by side. None is empty. -/
inductive Covers : Place → Text → List Tile → Prop where
  | nil : Covers p [] []
  | cons (some : tile.text ≠ []) (ignorable : tile.kind = none → Ignorable tile.text)
      (place : tile.place = ⟨p, p.advance tile.text⟩)
      (rest : Covers (p.advance tile.text) text tiles) :
      Covers p (tile.text ++ text) (tile :: tiles)

namespace Covers

variable {p : Place} {text more : Text} {tiles others : List Tile}

theorem append (first : Covers p text tiles) (second : Covers (p.advance text) more others) :
    Covers p (text ++ more) (tiles ++ others) := by
  induction first with
  | nil => exact second
  | cons some ignorable place _ ih =>
    rw [Place.advance_append] at second
    rw [List.append_assoc]
    exact .cons some ignorable place (ih second)

theorem one {kind : Option Terminal} (some : text ≠ []) (ignorable : kind = none → Ignorable text) :
    Covers p text [⟨kind, text, ⟨p, p.advance text⟩⟩] := by
  let tile : Tile := ⟨kind, text, ⟨p, p.advance text⟩⟩
  have single : Covers p (tile.text ++ []) [tile] := .cons some ignorable rfl .nil
  rwa [List.append_nil] at single

/-- Together the parts are the text. -/
theorem flatMap_text (covers : Covers p text tiles) : tiles.flatMap Token.text = text := by
  induction covers with
  | nil => rfl
  | cons _ _ _ _ ih => rw [List.flatMap_cons, ih]

theorem forall_mem (covers : Covers p text tiles) :
    ∀ tile ∈ tiles, tile.text ≠ [] ∧ (tile.kind = none → Ignorable tile.text) ∧
      tile.place.stop = tile.place.start.advance tile.text := by
  induction covers with
  | nil => exact nofun
  | cons some ignorable place _ ih =>
    refine List.forall_mem_cons.mpr ⟨⟨some, ignorable, ?_⟩, ih⟩
    rw [place]

theorem head_eq (covers : Covers p text tiles) : ∀ tile ∈ tiles.head?, tile.place.start = p := by
  cases covers with
  | nil => exact nofun
  | cons _ _ place _ =>
    intro tile first
    cases first
    rw [place]

theorem isChain (covers : Covers p text tiles) :
    tiles.IsChain fun a b => b.place.start = a.place.stop := by
  induction covers with
  | nil => exact .nil
  | cons _ _ place rest ih =>
    refine List.isChain_cons.mpr ⟨fun next first => ?_, ih⟩
    rw [rest.head_eq next first, place]

theorem getLast_eq (covers : Covers p text tiles) :
    ∀ tile ∈ tiles.getLast?, tile.place.stop = p.advance text := by
  induction covers with
  | nil => exact nofun
  | @cons _ _ _ tiles _ _ place rest ih =>
    rw [Place.advance_append]
    intro last member
    cases rest with
    | nil =>
      obtain rfl := List.mem_singleton.mp (List.mem_of_getLast? member)
      rw [place]
      rfl
    | cons => exact ih last (by simpa [List.getLast?_cons] using member)

end Covers

namespace Lexer

variable {wanted : TerminalSet} {c : Cursor} {t lexeme rest : Text}

theorem ignorable_of_ignored (ignored : Ignored t lexeme rest) : Ignorable lexeme := by
  rcases ignored with continued | spaced
  · unfold Lexeme.continuation at continued
    split at continued
    · next text =>
      have blank : ∀ c ∈ (Lexeme.run Lexeme.isSpacing text).1, Lexeme.isSpacing c = true :=
        fun c member => List.mem_takeWhile_imp member
      split at continued
      · next blanks _ same =>
        cases continued
        exact .inr ⟨blanks, by simpa [same] using blank, .inl rfl⟩
      · next blanks _ same =>
        cases continued
        exact .inr ⟨blanks, by simpa [same] using blank, .inr rfl⟩
      · cases continued
    · cases continued
  · unfold Lexeme.spacing at spaced
    split at spaced
    · cases spaced
    · cases spaced
      exact .inl fun c member => List.mem_takeWhile_imp member

/-- What is passed on the way to the next token, with that token. -/
def tilesFrom (wanted : TerminalSet) : (steps : Nat) → Cursor → List Tile
  | 0, _ => []
  | steps + 1, c =>
    if c.rest.isEmpty then []
    else
      match piece wanted c.rest with
      | .token kind lexeme _ => [⟨some kind, lexeme, ⟨c.place, c.place.advance lexeme⟩⟩]
      | .ignored lexeme rest =>
        let stop := c.place.advance lexeme
        ⟨none, lexeme, ⟨c.place, stop⟩⟩ :: tilesFrom wanted steps ⟨rest, stop⟩
      | .none => []

def tiles (wanted : TerminalSet) (c : Cursor) : List Tile :=
  tilesFrom wanted (c.rest.length + 1) c

/-- Where the lexer comes to a token or to the end, the parts cover what it has passed. -/
def Next.CoveredBy (c : Cursor) (tiles : List Tile) : Next → Prop
  | .token t after => ∃ read, c.rest = read ++ after.rest ∧ after.place = c.place.advance read ∧
      Covers c.place read tiles ∧ tiles.filterMap Tile.token? = [t]
  | .finished => Covers c.place c.rest tiles ∧ tiles.filterMap Tile.token? = []
  | .stuck _ => True

private theorem coveredBy_tilesFrom (wanted : TerminalSet) (steps : Nat) (c : Cursor) :
    (nextFrom wanted steps c).CoveredBy c (tilesFrom wanted steps c) := by
  induction steps generalizing c with
  | zero => trivial
  | succ steps ih =>
    have front := frontOf_piece wanted c.rest
    rw [nextFrom, tilesFrom]
    by_cases empty : c.rest.isEmpty
    · rw [if_pos empty, if_pos empty]
      obtain ⟨rest, place⟩ := c
      obtain rfl := List.isEmpty_iff.mp empty
      exact ⟨.nil, rfl⟩
    · rw [if_neg empty, if_neg empty]
      cases read : piece wanted c.rest with
      | none => trivial
      | token kind lexeme rest =>
        rw [read] at front
        obtain ⟨_, some, splits⟩ := front
        refine ⟨lexeme, splits.symm, rfl, .one some fun none => ?_, rfl⟩
        exact absurd none (Option.some_ne_none kind)
      | ignored lexeme rest =>
        rw [read] at front
        obtain ⟨some, splits⟩ := front
        have first : Covers c.place lexeme [⟨none, lexeme, ⟨c.place, c.place.advance lexeme⟩⟩] :=
          .one some fun _ => ignorable_of_ignored (piece_eq_ignored_iff.mp read)
        have later := ih ⟨rest, c.place.advance lexeme⟩
        dsimp only
        revert later
        cases nextFrom wanted steps ⟨rest, c.place.advance lexeme⟩ with
        | token t after =>
          rintro ⟨more, whole, place, covers, tokens⟩
          refine ⟨lexeme ++ more, ?_, ?_, first.append covers, tokens⟩
          · rw [List.append_assoc, ← whole, splits]
          · rw [place, Place.advance_append]
        | finished =>
          rintro ⟨covers, tokens⟩
          exact ⟨splits ▸ first.append covers, tokens⟩
        | stuck cursor => exact id

theorem coveredBy_tiles (wanted : TerminalSet) (c : Cursor) :
    (next wanted c).CoveredBy c (tiles wanted c) :=
  coveredBy_tilesFrom wanted _ c

end Lexer

namespace Reading

/-- What the lexer passes while reading goes on. -/
def tilesFrom (r : Reading) : (steps : Nat) → Lexer.Cursor → Layout.State → Progress → List Tile
  | 0, _, _, _ => []
  | steps + 1, c, layout, p =>
    Lexer.tiles (r.wanted p.machine) c ++
      match Lexer.next (r.wanted p.machine) c with
      | .token t c =>
        let (events, layout) := Layout.step r.tabWidth layout t
        match r.feedAll p events with
        | .ok p => tilesFrom r steps c layout p
        | .error _ => []
      | _ => []

/-- What the lexer passes in a text, in order: the tokens and what is ignored. -/
def tiles (r : Reading) (text : Text) : List Tile :=
  r.tilesFrom (text.length + 1) ⟨text, .start⟩ .start ⟨.start, none, []⟩

variable {r : Reading} {c : Lexer.Cursor} {s : Layout.State} {p : Progress} {text : Text}
  {tokens : List SourceToken}

theorem Tokenizes.covers (tokenizes : r.Tokenizes c s p tokens) {steps : Nat}
    (enough : c.rest.length < steps) :
    Covers c.place c.rest (r.tilesFrom steps c s p) ∧
      (r.tilesFrom steps c s p).filterMap Tile.token? = tokens := by
  induction tokenizes generalizing steps with
  | @done c s p finished =>
    obtain ⟨steps, rfl⟩ := Nat.exists_eq_add_one.mpr (Nat.zero_lt_of_lt enough)
    have covered := Lexer.coveredBy_tiles (r.wanted p.machine) c
    rw [finished] at covered
    rw [tilesFrom, finished, List.append_nil]
    exact covered
  | @more c t after p s q _ read taken _ ih =>
    obtain ⟨steps, rfl⟩ := Nat.exists_eq_add_one.mpr (Nat.zero_lt_of_lt enough)
    have covered := Lexer.coveredBy_tiles (r.wanted p.machine) c
    rw [read] at covered
    obtain ⟨front, whole, place, covers, token⟩ := covered
    have shorter := (Lexer.next_eq_token read).2
    obtain ⟨rest, others⟩ := @ih steps (by omega)
    have same : r.tilesFrom (steps + 1) c s p = Lexer.tiles (r.wanted p.machine) c ++
        r.tilesFrom steps after (Layout.step r.tabWidth s t).2 q := by
      rw [tilesFrom, read]
      simp only [taken]
    rw [same, whole, List.filterMap_append, token, others]
    exact ⟨covers.append (place ▸ rest), rfl⟩

theorem Reads.covers (reads : r.Reads text tokens) :
    Covers .start text (r.tiles text) ∧ (r.tiles text).filterMap Tile.token? = tokens :=
  Tokenizes.covers reads (Nat.lt_succ_self _)

end Reading

/-- In a source without errors, what the lexer reads and what it ignores cover the text, side by
side: the first of these parts begins at the start, each begins where the one before it ends, and
the last one ends at the end. None is empty, and together they are the text. -/
theorem Parser.parse_tiles {c : Config} {source : Source} {p : Parse}
    (parsed : (Parser.empty.setLanguage (Artifact.language c)).parse source = .ok p)
    (clean : p.errors = []) :
    ∃ tiles : List Tile,
      (Artifact.language c).handle.reading.tiles (Reading.ended p.text) = tiles ∧
      (∀ tokens, (Artifact.language c).handle.reading.Reads (Reading.ended p.text) tokens ↔
        tokens = tiles.filterMap Tile.token?) ∧
      (∀ tile ∈ tiles, tile.text ≠ [] ∧ (tile.kind = none → Ignorable tile.text) ∧
        tile.place.stop = tile.place.start.advance tile.text) ∧
      tiles.head?.map (·.place.start.offset) = some 0 ∧
      tiles.IsChain (fun a b => b.place.start = a.place.stop) ∧
      tiles.getLast?.map (·.place.stop.offset) = some (Reading.ended p.text).length ∧
      tiles.flatMap Token.text = Reading.ended p.text := by
  obtain ⟨tokens, d, reads, _⟩ := Parser.exists_derivation parsed clean
  obtain ⟨covers, same⟩ := reads.covers
  have some : (Artifact.language c).handle.reading.tiles (Reading.ended p.text) ≠ [] := by
    intro none
    have text := covers.flatMap_text
    rw [none] at text
    exact Reading.ended_ne_nil p.text text.symm
  refine ⟨_, rfl, fun others => ?_, covers.forall_mem, ?_, covers.isChain, ?_, covers.flatMap_text⟩
  · rw [same]
    exact ⟨reads.unique, fun equal => equal ▸ reads⟩
  · rw [List.head?_eq_some_head some, Option.map_some,
      covers.head_eq _ (List.head?_eq_some_head some)]
    rfl
  · rw [List.getLast?_eq_some_getLast some, Option.map_some,
      covers.getLast_eq _ (List.getLast?_eq_some_getLast some), Place.offset_advance]
    exact congrArg Option.some (Nat.zero_add _)

theorem Parser.parse_tiles_lines : ∃ p : Parse,
    (Parser.empty.setLanguage (Artifact.language .default)).parse
        (.text "if a:\n b += c".toList) = .ok p ∧
      p.errors = [] ∧
      ((Artifact.language .default).handle.reading.tiles (Reading.ended p.text)).flatMap
        Token.text = "if a:\n b += c\n".toList := by
  obtain ⟨p, parsed, clean, _, text⟩ := Sample.exists_parse "if a:\n b += c".toList rfl
  obtain ⟨_, rfl, _, _, _, _, _, whole⟩ := parse_tiles parsed clean
  exact ⟨p, parsed, clean, whole.trans (by rw [text]; rfl)⟩

end VyperFront
