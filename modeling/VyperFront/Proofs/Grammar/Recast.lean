import VyperFront.Proofs.Machine.Completeness
import VyperFront.Proofs.Tree.Recast

namespace VyperFront

namespace Derivation

mutual

/-- The same derivation of recast tokens. -/
def recast (m : Recast) : Derivation → Derivation
  | token t => token (m.token t)
  | phrase p parts => phrase p (recastAll m parts)

def recastAll (m : Recast) : List Derivation → List Derivation
  | [] => []
  | d :: rest => d.recast m :: recastAll m rest

end

variable {m : Recast} {d e : Derivation} {n : Nonterminal} {tokens others : List SourceToken}

theorem recastAll_eq_map (parts : List Derivation) : recastAll m parts = parts.map (recast m) := by
  induction parts with
  | nil => rfl
  | cons d rest ih => rw [recastAll, ih, List.map_cons]

@[simp] theorem symbol_recast (d : Derivation) : (d.recast m).symbol = d.symbol := by
  cases d <;> rfl

theorem Valid.recast (valid : d.Valid) : (d.recast m).Valid := by
  induction valid with
  | token t => exact .token _
  | @phrase p parts member body _ ih =>
    rw [Derivation.recast, recastAll_eq_map]
    refine .phrase member ?_ ?_
    · rw [← body, List.map_map]
      exact List.map_congr_left fun d _ => symbol_recast d
    · intro e listed
      obtain ⟨d, part, rfl⟩ := List.mem_map.mp listed
      exact ih d part

theorem Valid.yield_recast (valid : d.Valid) : (d.recast m).yield = d.yield.map m.token := by
  induction valid with
  | token t => rfl
  | @phrase p parts _ _ _ ih =>
    rw [Derivation.recast, recastAll_eq_map, yield, yield, yields_eq_flatMap, yields_eq_flatMap,
      List.map_flatMap, List.flatMap_map]
    exact List.flatMap_congr fun d part => ih d part

theorem Valid.fragment_recast (valid : d.Valid) :
    (d.recast m).fragment = d.fragment.recast m := by
  induction valid with
  | token t => rfl
  | @phrase p parts _ _ _ ih =>
    have same : (parts.map (Derivation.recast m)).map fragment =
        (parts.map fragment).map (Fragment.recast m) := by
      rw [List.map_map, List.map_map]
      exact List.map_congr_left fun d part => ih d part
    rw [Derivation.recast, recastAll_eq_map, fragment_phrase, fragment_phrase, same,
      Fragment.reduce_recast]

theorem Valid.trees_recast (valid : d.Valid) :
    (d.recast m).trees = d.trees.map (Tree.recast m) :=
  congrArg Fragment.trees valid.fragment_recast

theorem Derives.recast (derives : d.Derives n tokens) (m : Recast) :
    (d.recast m).Derives n (tokens.map m.token) where
  valid := derives.valid.recast
  symbol := (symbol_recast d).trans derives.symbol
  yield := derives.yield ▸ derives.valid.yield_recast

/-- Tokens of the same kinds have derivations of the same shape only. -/
theorem Derives.bare_eq (derives : d.Derives .sourceFile tokens)
    (also : e.Derives .sourceFile others)
    (kinds : others.map Token.kind = tokens.map Token.kind) :
    e.recast .bare = d.recast .bare := by
  have bare (tokens : List SourceToken) : tokens.map Recast.bare.token =
      (tokens.map Token.kind).map fun kind => ⟨kind, [], ⟨default, default⟩⟩ := by
    rw [List.map_map]
    rfl
  have same := also.recast .bare
  rw [bare, kinds, ← bare] at same
  exact ((derives.recast .bare).unique same).symm

end Derivation

namespace Stack

variable {stack other : Stack} {t u : SourceToken} {result : Result} {input others : List SourceToken}
  {d : Derivation}

/-- The states of the entries. -/
def states (stack : Stack) : List Nat := stack.map Entry.state

theorem top_eq_of_states (same : other.states = stack.states) : other.top = stack.top := by
  cases stack <;> cases other <;> simp_all [states, top]

theorem states_drop (count : Nat) : states (stack.drop count) = stack.states.drop count :=
  List.map_drop ..

/-- The result comes of the same states. -/
def Result.Matches : Result → Result → Prop
  | .shifted stack, .shifted other => other.states = stack.states
  | .accepted _, .accepted _ => True
  | _, _ => False

theorem Feeds.exists_of_states (feeds : Feeds stack t result) (same : other.states = stack.states)
    (kind : u.kind = t.kind) : ∃ also, Feeds other u also ∧ result.Matches also := by
  induction feeds generalizing other with
  | @shift target _ _ leads =>
    rw [← kind, ← top_eq_of_states same] at leads
    exact ⟨_, .shift leads, congrArg (target :: ·) same⟩
  | accept reduces program =>
    rw [← kind, ← top_eq_of_states same] at reduces
    exact ⟨_, .accept reduces program, trivial⟩
  | @reduce p stack target _ _ reduces isOther leads _ ih =>
    have under : states (Stack.below p other) = states (Stack.below p stack) := by
      rw [Stack.below, Stack.below, states_drop, states_drop, same]
    rw [← kind, ← top_eq_of_states same] at reduces
    rw [← top_eq_of_states under] at leads
    obtain ⟨also, feeds, matching⟩ :=
      @ih (⟨target, reduced p other⟩ :: Stack.below p other) (congrArg (target :: ·) under) kind
    exact ⟨also, .reduce reduces isOther leads feeds, matching⟩

theorem Shifts.exists_of_states {moved : Stack} (shifts : Shifts stack input moved)
    (same : other.states = stack.states)
    (kinds : others.map Token.kind = input.map Token.kind) :
    ∃ also, Shifts other others also ∧ also.states = moved.states := by
  induction shifts generalizing other others with
  | nil =>
    obtain rfl := List.map_eq_nil_iff.mp kinds
    exact ⟨other, .nil, same⟩
  | cons feeds _ ih =>
    cases others with
    | nil => cases kinds
    | cons u rest =>
      obtain ⟨kind, kinds⟩ := List.cons.inj kinds
      obtain ⟨also, feeds, matching⟩ := feeds.exists_of_states same kind
      cases also with
      | accepted => cases matching
      | shifted next =>
        obtain ⟨final, shifts, states⟩ := ih matching kinds
        exact ⟨final, .cons feeds shifts, states⟩

end Stack

/-- Other tokens of the same kinds can be derived, too. -/
theorem Derivation.Derives.exists_of_kinds {d : Derivation} {tokens others : List SourceToken}
    (derives : d.Derives .sourceFile tokens)
    (kinds : others.map Token.kind = tokens.map Token.kind) :
    ∃ e : Derivation, e.Derives .sourceFile others := by
  obtain ⟨final, shifts, ends⟩ := Stack.accepts_nil_iff.mpr ⟨d, derives, rfl⟩
  obtain ⟨also, others, states⟩ := shifts.exists_of_states rfl kinds
  let last : SourceToken := ⟨.endOfInput, [], default⟩
  obtain ⟨result, feeds, matching⟩ := (ends last rfl).exists_of_states states rfl
  cases result with
  | shifted => cases matching
  | accepted whole =>
    have accepts : Stack.Accepts [] _ whole :=
      ⟨also, others, fun t kind => feeds.accepted_of_kind_eq kind⟩
    obtain ⟨e, derives, _⟩ := Stack.accepts_nil_iff.mp accepts
    exact ⟨e, derives⟩

end VyperFront
