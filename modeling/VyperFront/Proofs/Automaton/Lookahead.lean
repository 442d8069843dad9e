import VyperFront.Automaton.Basic
import VyperFront.Proofs.Automaton.Follow
import VyperFront.Proofs.Automaton.Solution

/-! The lookahead sets are exact: a place has the terminals that can follow the phrase
there, and no others. Production by production, the equations say where it ends and
what follows the phrases in it. -/

namespace VyperFront

open Lookahead VyperFront.Graph

variable {origin number target : Nat} {p : Production} {n m : Nonterminal} {s : Symbol}
  {before after : List Symbol} {t : Terminal} {e small large : Equations}

namespace Automaton

private theorem get?_targets_from {edges : List (Symbol × Nat)} {table : Table Nat}
    (nodup : (edges.map Prod.fst).Nodup) :
    ((edges.foldl (fun targets (s, target) => targets.insert s.code target) table).get? s.code =
      some target) ↔
      (s, target) ∈ edges ∨ s ∉ edges.map Prod.fst ∧ table.get? s.code = some target := by
  induction edges generalizing table with
  | nil => simp
  | cons edge rest ih =>
    obtain ⟨r, other⟩ := edge
    rw [List.map_cons, List.nodup_cons] at nodup
    rw [List.foldl_cons, ih nodup.2, Table.get?_insert]
    by_cases same : s = r
    · subst same
      have out (target : Nat) : (s, target) ∉ rest := fun member =>
        nodup.1 (List.mem_map.mpr ⟨_, member, rfl⟩)
      simp [nodup.1, out, eq_comm]
    · have different : s.code ≠ r.code := fun code => same (Symbol.code_inj.mp code)
      simp [same, different]

theorem get?_targets {edges : List (Symbol × Nat)} (nodup : (edges.map Prod.fst).Nodup) :
    (targets edges).get? s.code = some target ↔ (s, target) ∈ edges := by
  rw [targets, get?_targets_from nodup]
  simp

theorem target?_edges :
    target? (edges vertices) number s = some target ↔ Leads number s target := by
  unfold target? edges
  rw [Table.get?_ofList, List.getElem?_map]
  constructor
  · intro found
    cases present : vertices[number]? with
    | none => simp [present] at found
    | some v =>
      rw [present] at found
      exact ⟨v, present, (get?_targets (nodup_edges present)).mp found⟩
  · rintro ⟨v, present, edge⟩
    rw [present]
    exact (get?_targets (nodup_edges present)).mpr edge

theorem begins_iff :
    begins (edges vertices) number n = true ↔
      (∃ target, Leads number (.nonterminal n) target) ∨ number = 0 ∧ n = .program := by
  simp only [begins, Bool.or_eq_true, Option.isSome_iff_exists, target?_edges, Bool.and_eq_true,
    beq_iff_eq]

theorem holds_begin_iff :
    Holds number p 0 ↔
      p ∈ p.head.productions ∧ begins (edges vertices) number p.head = true := by
  rw [begins_iff]
  constructor
  · intro holds
    refine ⟨holds.mem_productions, ?_⟩
    rcases holds.begun with first | ⟨_, _, awaits, next⟩
    · exact .inr first
    · exact .inl (awaits.exists_leads next)
  · rintro ⟨member, ⟨target, leads⟩ | ⟨rfl, program⟩⟩
    · obtain ⟨_, _, awaits, next⟩ := leads.awaited
      exact awaits.begin next member
    · exact holds_program (program ▸ member)

end Automaton

namespace Lookahead

theorem place_inj : place number n = place origin m ↔ number = origin ∧ n = m := by
  have few (k : Nonterminal) : k.ctorIdx < 128 := by
    have := (List.getElem?_eq_some_iff.mp k.getElem?_all).1
    have : Nonterminal.all.length ≤ 128 := by decide
    omega
  have := few n
  have := few m
  rw [← Nonterminal.ctorIdx_inj, place, place]
  omega

namespace Equations

/-- All that the first equations say, the second say too. -/
structure Includes (small large : Equations) : Prop where
  seeds : small.seeds ⊆ large.seeds
  flows : small.flows ⊆ large.flows
  ends : small.ends ⊆ large.ends

theorem Includes.refl (e : Equations) : Includes e e := ⟨fun _ => id, fun _ => id, fun _ => id⟩

theorem Includes.trans (first : Includes small e) (second : Includes e large) :
    Includes small large :=
  ⟨fun _ member => second.seeds (first.seeds member),
    fun _ member => second.flows (first.flows member),
    fun _ member => second.ends (first.ends member)⟩

theorem includes_foldl {f : Equations → α → Equations} (grows : ∀ e a, Includes e (f e a))
    (l : List α) (e : Equations) : Includes e (l.foldl f e) := by
  induction l generalizing e with
  | nil => exact .refl e
  | cons a rest ih => exact (grows e a).trans (ih (f e a))

theorem exists_includes_foldl {f : Equations → α → Equations}
    (grows : ∀ e a, Includes e (f e a)) {l : List α} {a : α} (member : a ∈ l) (e : Equations) :
    ∃ before, Includes (f before a) (l.foldl f e) := by
  induction l generalizing e with
  | nil => cases member
  | cons first rest ih =>
    rcases List.mem_cons.mp member with rfl | later
    · exact ⟨e, includes_foldl grows rest (f e a)⟩
    · exact ih later (f e first)

/-- The equations say only what is so. -/
structure Sound (e : Equations) : Prop where
  seeds : ∀ position s, (position, s) ∈ e.seeds → ∃ number n, position = place number n ∧
    ∀ t, s.contains t = true → Follows number n t
  flows : ∀ flow ∈ e.flows, ∃ origin m number n, flow.source = place origin m ∧
    flow.target = place number n ∧ ∀ t, Follows origin m t → Follows number n t
  ends : ∀ number p position, (number, p, position) ∈ e.ends → ∃ origin,
    position = place origin p.head ∧ Holds origin p 0 ∧ Path origin p.body number

/-- The equations say what follows a phrase in a production. -/
structure Says (e : Equations) (origin : Nat) (p : Production) (number : Nat) (n : Nonterminal)
    (after : List Symbol) : Prop where
  seed : (place number n, (Onset.ofSymbols Grammar.onsets after).first) ∈ e.seeds
  flow : (Onset.ofSymbols Grammar.onsets after).empty = true →
    ⟨place origin p.head, place number n⟩ ∈ e.flows

theorem Says.mono (said : Says small origin p number n after) (includes : Includes small large) :
    Says large origin p number n after :=
  ⟨includes.seeds said.seed, fun empty => includes.flows (said.flow empty)⟩

/-- What the equations gain from a step through a production. -/
private def gain (origin number : Nat) (s : Symbol) (after : Onset) (e : Equations) :
    Equations :=
  match s with
  | .terminal _ => e
  | .nonterminal n =>
    { e with
      seeds := (place number n, after.first) :: e.seeds
      flows := if after.empty then ⟨origin, place number n⟩ :: e.flows else e.flows }

private theorem trace_cons {edges : Table (Table Nat)} {onsets : Table Onset} (position : Nat)
    (leads : target? edges number s = some target) :
    trace edges position p number (steps onsets (s :: after)) e =
      trace edges position p target (steps onsets after)
        (gain position number s (Onset.ofSymbols onsets after) e) := by
  rw [steps, trace, leads]
  rfl

private theorem includes_gain (position : Nat) (onset : Onset) :
    Includes e (gain position number s onset e) := by
  cases s with
  | terminal t => exact .refl e
  | nonterminal n =>
    refine ⟨List.subset_cons_self _ _, ?_, fun _ => id⟩
    dsimp only [gain]
    split
    · exact List.subset_cons_self _ _
    · exact fun _ => id

private theorem says_gain :
    Says (gain (place origin p.head) number (.nonterminal n)
      (Onset.ofSymbols Grammar.onsets after) e) origin p number n after := by
  refine ⟨List.mem_cons_self, fun empty => ?_⟩
  simp [gain, empty]

theorem includes_trace (edges : Table (Table Nat)) (position : Nat) (p : Production)
    (number : Nat) (steps : List Step) (e : Equations) :
    Includes e (trace edges position p number steps e) := by
  induction steps generalizing number e with
  | nil => exact ⟨fun _ => id, fun _ => id, List.subset_cons_self _ _⟩
  | cons step rest ih =>
    rw [trace]
    split
    · exact .refl e
    · next next _ => exact (includes_gain position step.after).trans (ih next _)

/-- Tracing a production through the graph finds where it ends. -/
private theorem ends_trace (position : Nat) (path : Path number after target) (e : Equations) :
    (target, p, position) ∈ (trace (Automaton.edges vertices) position p number
      (steps Grammar.onsets after) e).ends := by
  induction path generalizing e with
  | nil => exact List.mem_cons_self
  | cons leads _ ih =>
    rw [trace_cons position (Automaton.target?_edges.mpr leads)]
    exact ih _

/-- Tracing a production through the graph finds every phrase in it. -/
private theorem says_trace {middle : Nat} (path : Path number before middle)
    (leads : Leads middle (.nonterminal n) target) (e : Equations) :
    Says (trace (Automaton.edges vertices) (place origin p.head) p number
      (steps Grammar.onsets (before ++ .nonterminal n :: after)) e) origin p middle n after := by
  induction path generalizing e with
  | nil =>
    rw [List.nil_append, trace_cons _ (Automaton.target?_edges.mpr leads)]
    exact says_gain.mono (includes_trace ..)
  | cons first _ ih =>
    rw [List.cons_append, trace_cons _ (Automaton.target?_edges.mpr first)]
    exact ih leads _

private theorem sound_gain (sound : Sound e) (begins : Holds origin p 0)
    (path : Path origin before number) (body : p.body = before ++ s :: after) :
    Sound (gain (place origin p.head) number s (Onset.ofSymbols Grammar.onsets after) e) := by
  cases s with
  | terminal t => exact sound
  | nonterminal n =>
    have stands : Stands origin p number n after := ⟨begins, before, body, path⟩
    refine ⟨?_, ?_, sound.ends⟩
    · intro position s member
      rcases List.mem_cons.mp member with new | old
      · cases new
        exact ⟨number, n, rfl, fun t => .within stands⟩
      · exact sound.seeds position s old
    · intro flow member
      dsimp only [gain] at member
      split at member
      · next empty =>
        rcases List.mem_cons.mp member with rfl | old
        · exact ⟨origin, p.head, number, n, rfl, rfl, fun t => .ending stands empty⟩
        · exact sound.flows flow old
      · exact sound.flows flow member

private theorem sound_trace {edges : Table (Table Nat)}
    (leading : ∀ {number s target}, target? edges number s = some target → Leads number s target)
    (sound : Sound e) (begins : Holds origin p 0)
    (path : Path origin before number) (body : p.body = before ++ after) :
    Sound (trace edges (place origin p.head) p number
      (steps Grammar.onsets after) e) := by
  induction after generalizing before number e with
  | nil =>
    rw [steps, trace]
    refine ⟨sound.seeds, sound.flows, ?_⟩
    intro v q position member
    rcases List.mem_cons.mp member with new | old
    · cases new
      rw [List.append_nil] at body
      exact ⟨origin, rfl, begins, body ▸ path⟩
    · exact sound.ends v q position old
  | cons s rest ih =>
    cases next : target? edges number s with
    | none =>
      rw [steps, trace, next]
      exact sound
    | some target =>
      rw [trace_cons _ next]
      exact ih (sound_gain sound begins path body)
        (path.snoc (leading next)) (by simp [body])

private theorem includes_phrase (edges : Table (Table Nat)) (number : Nat) (e : Equations)
    (entry : Nonterminal × List (Production × List Step)) :
    Includes e (if begins edges number entry.1 then
      entry.2.foldl (fun e (p, steps) => trace edges (place number entry.1) p number steps e) e
    else e) := by
  split
  · exact includes_foldl (fun e traced => includes_trace ..) entry.2 e
  · exact .refl e

private theorem includes_equationsAt (plan : Plan) (edges : Table (Table Nat)) (e : Equations)
    (number : Nat) : Includes e (equationsAt plan edges e number) :=
  includes_foldl (includes_phrase edges number) plan e

/-- Every production is traced from every vertex where it begins. -/
private theorem exists_trace {onsets : Table Onset} {edges : Table (Table Nat)} {count : Nat}
    (member : p ∈ p.head.productions) (beginning : begins edges origin p.head = true)
    (inside : origin < count) :
    ∃ e, Includes (trace edges (place origin p.head) p origin (steps onsets p.body) e)
      (equations (plan onsets) edges count) := by
  have planned : (p.head, p.head.productions.map fun p => (p, steps onsets p.body)) ∈
      plan onsets := List.mem_map.mpr ⟨p.head, p.head.mem_all, rfl⟩
  have listed : (p, steps onsets p.body) ∈
      p.head.productions.map fun p => (p, steps onsets p.body) :=
    List.mem_map.mpr ⟨p, member, rfl⟩
  obtain ⟨first, outer⟩ := exists_includes_foldl (includes_equationsAt (plan onsets) edges)
    (List.mem_range.mpr inside) ⟨[(place 0 .program, .singleton .endOfInput)], [], []⟩
  obtain ⟨second, middle⟩ := exists_includes_foldl
    (includes_phrase edges origin) planned first
  obtain ⟨third, inner⟩ := exists_includes_foldl
    (fun e traced => includes_trace edges (place origin p.head) traced.1 origin traced.2 e)
    listed second
  rw [if_pos beginning] at middle
  exact ⟨third, (inner.trans middle).trans outer⟩

private theorem starts_equations (plan : Plan) (edges : Table (Table Nat)) (count : Nat) :
    (place 0 .program, .singleton .endOfInput) ∈ (equations plan edges count).seeds :=
  (includes_foldl (includes_equationsAt plan edges) _ _).seeds List.mem_cons_self

private theorem sound_equationsFor {edges : Table (Table Nat)} {count : Nat}
    (leading : ∀ {number s target}, target? edges number s = some target → Leads number s target)
    (beginning : ∀ {number p}, p ∈ p.head.productions → begins edges number p.head = true →
      Holds number p 0) :
    Sound (equations (plan Grammar.onsets) edges count) := by
  have start : Sound ⟨[(place 0 .program, .singleton .endOfInput)], [], []⟩ := by
    refine ⟨?_, fun _ => nofun, fun _ _ _ => nofun⟩
    intro position s member
    cases List.mem_singleton.mp member
    refine ⟨0, .program, rfl, fun t here => ?_⟩
    obtain rfl : .endOfInput = t := by simpa using here
    exact .program
  refine List.foldlRecOn _ _ start fun e sound number _ => ?_
  refine List.foldlRecOn _ _ sound fun e sound entry planned => ?_
  obtain ⟨n, _, rfl⟩ := List.mem_map.mp planned
  dsimp only
  split
  · next begins =>
    refine List.foldlRecOn _ _ sound fun e sound traced listed => ?_
    obtain ⟨p, member, rfl⟩ := List.mem_map.mp listed
    obtain rfl := Nonterminal.head_of_mem_productions member
    exact sound_trace leading sound (beginning member begins) (.nil number) rfl
  · exact sound

end Equations

end Lookahead

namespace Automaton

open Lookahead.Equations

private theorem exists_trace_vertices (begins : Holds origin p 0) :
    ∃ e, Includes (trace (edges vertices) (place origin p.head) p origin
      (steps Grammar.onsets p.body) e) (equations vertices) := by
  obtain ⟨member, beginning⟩ := holds_begin_iff.mp begins
  obtain ⟨v, found, _⟩ := begins
  exact exists_trace member beginning (List.getElem?_eq_some_iff.mp found).1

theorem sound_equations : Sound (equations vertices) :=
  sound_equationsFor (fun found => target?_edges.mp found)
    fun member begins => holds_begin_iff.mpr ⟨member, begins⟩

theorem says_equations (stands : Stands origin p number n after) :
    Says (equations vertices) origin p number n after := by
  obtain ⟨place, awaits, next, _⟩ := stands.holds
  have here : p.body[place]? = some (.nonterminal n) := by
    rw [← List.head?_drop, next]
    rfl
  obtain ⟨target, leads⟩ := awaits.exists_leads here
  obtain ⟨begins, before, body, path⟩ := stands
  obtain ⟨e, includes⟩ := exists_trace_vertices begins
  rw [body] at includes
  exact (says_trace path leads e).mono includes

theorem mem_ends_equations {position : Nat} :
    (number, p, position) ∈ (equations vertices).ends ↔
      ∃ origin, position = place origin p.head ∧ Holds origin p 0 ∧ Path origin p.body number := by
  constructor
  · exact sound_equations.ends number p position
  · rintro ⟨origin, rfl, begins, path⟩
    obtain ⟨e, includes⟩ := exists_trace_vertices begins
    exact includes.ends (ends_trace _ path e)

/-- The lookahead sets have the terminals that can follow, and no others. -/
theorem contains_lookahead :
    (follow (equations vertices).solution (place number n)).contains t = true ↔
      Follows number n t := by
  have sound := sound_equations
  constructor
  · intro present
    refine solution_sound (P := fun position t => ∀ number n, position = place number n →
      Follows number n t) ?_ ?_ present number n rfl
    · intro position s member t here number n same
      obtain ⟨origin, m, also, follows⟩ := sound.seeds position s member
      obtain ⟨rfl, rfl⟩ := place_inj.mp (same.symm.trans also)
      exact follows t here
    · intro flow member t before number n same
      obtain ⟨origin, m, vertex, k, source, also, follows⟩ := sound.flows flow member
      obtain ⟨rfl, rfl⟩ := place_inj.mp (same.symm.trans also)
      exact follows t (before origin m source)
  · intro follows
    induction follows with
    | program =>
      exact contains_solution_of_seed (starts_equations _ _ _)
        ((TerminalSet.contains_singleton _ _).trans (decide_eq_true rfl))
    | within stands first => exact contains_solution_of_seed (says_equations stands).seed first
    | ending stands empty _ ih =>
      exact contains_solution_of_flow ((says_equations stands).flow empty) ih

end Automaton

end VyperFront
