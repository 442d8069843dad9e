import VyperFront.Proofs.Grammar.Onset
import VyperFront.Proofs.Machine.Stack

/-! The machine reads whatever the grammar derives. It follows a derivation part by
part; after each part, the token that comes next is one that can follow there. -/

namespace VyperFront

open VyperFront.Graph

namespace Stack

variable {stack upper : Stack} {t : SourceToken} {p : Production} {d whole : Derivation}
  {n : Nonterminal} {before : List Symbol} {parts : List Derivation} {origin place : Nat}
  {input : List SourceToken}

/-- The tokens of the derivation can be shifted, if it is awaited there and the next token can
follow it. Whatever the next token does with the derivation on top of the stack, it does then. -/
def Resumable (d : Derivation) : Prop :=
  ∀ (stack : Stack) (p : Production) (place : Nat) (t : SourceToken),
    Holds stack.top p place → p.body[place]? = some d.symbol →
    (∀ n, d.symbol = .nonterminal n → Follows stack.top n t.kind) →
    ∃ target moved, Leads stack.top d.symbol target ∧ Shifts stack d.yield moved ∧
      ∀ result, Feeds (⟨target, d⟩ :: stack) t result → Feeds moved t result

/-- Reading the tokens of the derivation puts it on top of the stack, if it is awaited
there and the next token can follow it. -/
def Readable (d : Derivation) : Prop :=
  ∀ (stack : Stack) (p : Production) (place : Nat) (t : SourceToken),
    Holds stack.top p place → p.body[place]? = some d.symbol →
    (∀ n, d.symbol = .nonterminal n → Follows stack.top n t.kind) →
    ∃ target, Leads stack.top d.symbol target ∧ ∀ input whole,
      Reads (⟨target, d⟩ :: stack) (t :: input) whole → Reads stack (d.yield ++ t :: input) whole

theorem Resumable.readable (resumable : Resumable d) : Readable d := by
  intro stack p place t awaits next follows
  obtain ⟨target, moved, leads, shifts, resumes⟩ := resumable stack p place t awaits next follows
  refine ⟨target, leads, fun input whole reads => reads_append_iff.mpr ⟨moved, shifts, ?_⟩⟩
  cases reads with
  | done feeds => exact .done (resumes _ feeds)
  | next feeds rest => exact .next (resumes _ feeds) rest

/-- What comes of shifting tokens from one stack comes of it from another one, if their first
token does the same to both. -/
theorem Shifts.resume {moved other : Stack} (shifts : Shifts stack (t :: input) moved)
    (resumes : ∀ result, Feeds stack t result → Feeds other t result) :
    Shifts other (t :: input) moved := by
  cases shifts with
  | cons feeds rest => exact .cons (resumes _ feeds) rest

/-- The token after a part of a production can follow the part. -/
private theorem exists_follower (valid : ∀ e ∈ parts, e.Valid)
    (begins : Holds origin p 0) (path : Path origin before stack.top)
    (body : p.body = before ++ d.symbol :: parts.map Derivation.symbol)
    (follows : Follows origin p.head t.kind) :
    ∃ u rest, Derivation.yields parts ++ [t] = u :: rest ∧
      ∀ n, d.symbol = .nonterminal n → Follows stack.top n u.kind := by
  have stands (n : Nonterminal) (symbol : d.symbol = .nonterminal n) :
      Stands origin p stack.top n (parts.map Derivation.symbol) :=
    ⟨begins, before, symbol ▸ body, path⟩
  have covers := Derivation.covers_yields valid
  cases later : Derivation.yields parts with
  | nil =>
    rw [later] at covers
    exact ⟨t, [], rfl, fun n symbol => .ending (stands n symbol) covers follows⟩
  | cons u rest =>
    rw [later] at covers
    exact ⟨u, rest ++ [t], rfl, fun n symbol => .within (stands n symbol) covers⟩

private theorem shifts_parts (valid : ∀ e ∈ parts, e.Valid) (resumable : ∀ e ∈ parts, Resumable e)
    (begins : Holds origin p 0) (path : Path origin before stack.top)
    (body : p.body = before ++ parts.map Derivation.symbol)
    (follows : Follows origin p.head t.kind) :
    ∃ upper moved, derivations upper = parts ∧ Path origin p.body (top (upper ++ stack)) ∧
      Shifts stack (Derivation.yields parts) moved ∧
      ∀ result, Feeds (upper ++ stack) t result → Feeds moved t result := by
  induction parts generalizing before stack with
  | nil =>
    rw [List.map_nil, List.append_nil] at body
    exact ⟨[], stack, rfl, body ▸ path, .nil, fun _ feeds => feeds⟩
  | cons e rest ih =>
    have validRest := fun d member => valid d (List.mem_cons_of_mem e member)
    have resumableRest := fun d member => resumable d (List.mem_cons_of_mem e member)
    have awaits : Holds stack.top p before.length := by
      simpa using path.holds begins body
    have next : p.body[before.length]? = some e.symbol := by simp [body]
    obtain ⟨u, tail, same, following⟩ := exists_follower validRest begins path body follows
    obtain ⟨target, passed, leads, first, resumes⟩ := resumable e List.mem_cons_self stack p
      before.length u awaits next following
    have onward : Path origin (before ++ [e.symbol]) (top (⟨target, e⟩ :: stack)) :=
      path.snoc leads
    obtain ⟨upper, moved, derived, complete, shifts, resumed⟩ :=
      ih validRest resumableRest onward (by simp [body])
    rw [Derivation.yields]
    cases later : Derivation.yields rest with
    | nil =>
      -- Nothing is shifted after this part, so the next token is the one after the production.
      rw [later] at shifts same
      cases shifts
      obtain rfl := (List.cons.inj same).1
      refine ⟨upper ++ [⟨target, e⟩], passed, ?_, ?_, ?_, ?_⟩
      · simp [derivations, ← derived]
      · simpa using complete
      · simpa using first
      · intro result feeds
        exact resumes _ (resumed _ (by simpa using feeds))
    | cons v more =>
      rw [later] at shifts same
      obtain rfl := (List.cons.inj same).1
      refine ⟨upper ++ [⟨target, e⟩], moved, ?_, ?_, ?_, ?_⟩
      · simp [derivations, ← derived]
      · simpa using complete
      · exact shifts_append_iff.mpr ⟨passed, first, shifts.resume resumes⟩
      · intro result feeds
        exact resumed _ (by simpa using feeds)

/-- The machine shifts every valid derivation. -/
theorem resumable_of_valid (valid : d.Valid) : Resumable d := by
  induction valid with
  | token t =>
    intro stack p place u awaits next _
    obtain ⟨target, leads⟩ := awaits.exists_leads next
    exact ⟨target, _, leads, .cons (.shift leads) .nil, fun _ feeds => feeds⟩
  | @phrase q parts member body valid resumable =>
    intro stack p place t awaits next follows
    have begins := awaits.begin next (Grammar.mem_productions.mp member)
    have other : q.head ≠ .program := fun program =>
      not_awaits_program awaits (program ▸ next)
    obtain ⟨target, leads⟩ := awaits.exists_leads next
    obtain ⟨upper, moved, derived, path, shifts, resumed⟩ := shifts_parts valid resumable begins
      (.nil _) body.symm (follows q.head rfl)
    refine ⟨target, moved, leads, shifts, fun result feeds => ?_⟩
    have count : q.body.length = upper.length := by
      rw [← body, List.length_map, ← derived, derivations, List.length_map, List.length_reverse]
    have rest : Stack.below q (upper ++ stack) = stack := by
      rw [Stack.below, count, List.drop_left]
    have same : reduced q (upper ++ stack) = .phrase q parts := by
      rw [reduced, count, List.take_left, derived]
    refine resumed _ (.reduce ⟨_, begins, path, follows q.head rfl⟩ other (rest ▸ leads) ?_)
    rw [rest, same]
    exact feeds

theorem readable_of_valid (valid : d.Valid) : Readable d := (resumable_of_valid valid).readable

theorem reads_of_derives {tokens : List SourceToken} (derives : d.Derives .sourceFile tokens)
    (last : t.kind = .endOfInput) : Reads [] (tokens ++ [t]) (.phrase Grammar.whole [d]) := by
  have begins : Holds 0 Grammar.whole 0 :=
    holds_program (Grammar.mem_productions.mp Grammar.whole_mem_productions)
  have next : Grammar.whole.body[0]? = some d.symbol := by
    rw [derives.symbol]
    rfl
  have follows : Follows 0 Grammar.whole.head t.kind := last ▸ .program
  have stands : Stands 0 Grammar.whole 0 .sourceFile [] := ⟨begins, [], rfl, .nil 0⟩
  have following (n : Nonterminal) (symbol : d.symbol = .nonterminal n) : Follows 0 n t.kind := by
    rw [derives.symbol] at symbol
    cases symbol
    exact .ending stands rfl follows
  obtain ⟨target, leads, reads⟩ := readable_of_valid derives.valid [] _ 0 t begins next following
  rw [← derives.yield]
  refine reads [] _ (.done (.accept ⟨0, begins, ?_, follows⟩ rfl))
  rw [derives.symbol] at leads
  exact .cons leads (.nil target)

/-- What the machine accepts from its start are the source files. -/
theorem accepts_nil_iff {tokens : List SourceToken} :
    Accepts [] tokens whole ↔
      ∃ e, e.Derives .sourceFile tokens ∧ whole = .phrase Grammar.whole [e] := by
  let last : SourceToken := ⟨.endOfInput, [], default⟩
  rw [accepts_iff (t := last) rfl]
  constructor
  · intro reads
    obtain ⟨body, final, e, same, _, rfl, derives⟩ := reads.derives .nil
    obtain ⟨rfl, _⟩ := List.append_inj' same rfl
    exact ⟨e, derives, rfl⟩
  · rintro ⟨e, derives, rfl⟩
    exact reads_of_derives derives rfl

end Stack

/-- There is one way at most to derive tokens. -/
theorem Derivation.Derives.unique {d e : Derivation} {tokens : List SourceToken}
    (derives : d.Derives .sourceFile tokens) (also : e.Derives .sourceFile tokens) : d = e := by
  let last : SourceToken := ⟨.endOfInput, [], default⟩
  have same : Derivation.phrase Grammar.whole [d] = .phrase Grammar.whole [e] :=
    (Stack.reads_of_derives derives (t := last) rfl).unique (Stack.reads_of_derives also rfl)
  simpa using same

end VyperFront
