import Mathlib.Data.String.Basic
import VyperFront.Proofs.Tree.Calls
import VyperFront.Proofs.Tree.Fields

namespace VyperFront

/-- Entries and numbers that tell each other. The first entry has the given number, and those
after it the next ones; there are no other numbers and no other entries. -/
structure Numbering (first : Nat) (entries : List String) (entryFor : Int → Option String)
    (numberOf : String → Option Nat) : Prop where
  inverse : ∀ id entry, entryFor id = some entry ↔ ∃ n, numberOf entry = some n ∧ id = (n : Int)
  numbers : ∀ id, (entryFor id).isSome = true ↔
    (first : Int) ≤ id ∧ id < (first : Int) + (entries.length : Int)
  entries : ∀ entry, (numberOf entry).isSome = true ↔ entry ∈ entries

namespace Metadata

variable {entries : List String} {first : Nat} {id : Int} {entry : String}

theorem entryAt?_eq_some_iff : entryAt? first entries id = some entry ↔
    ∃ n, entries[n]? = some entry ∧ id = ((n + first : Nat) : Int) := by
  rw [entryAt?]
  constructor
  · intro found
    split at found
    · cases found
    · next inside => exact ⟨_, found, by omega⟩
  · rintro ⟨n, found, rfl⟩
    have place : (((n + first : Nat) : Int) - first).toNat = n := by omega
    rw [if_neg (by omega), place, found]

theorem numbering_of_nodup (first : Nat) (nodup : entries.Nodup) :
    Numbering first entries (entryAt? first entries)
      fun entry => (entries.idxOf? entry).map (· + first) where
  inverse := by
    intro id entry
    rw [entryAt?_eq_some_iff]
    constructor
    · rintro ⟨n, found, rfl⟩
      obtain ⟨inside, here⟩ := List.getElem?_eq_some_iff.mp found
      have number : entries.idxOf? entry = some n := by
        apply List.idxOf?_eq_some_iff.mpr
        refine ⟨inside, here, ?_⟩
        intro m earlier same
        have equal := nodup.getElem_inj_iff.mp (same.trans here.symm)
        omega
      exact ⟨n + first, by rw [number, Option.map_some], rfl⟩
    · rintro ⟨m, number, rfl⟩
      obtain ⟨n, place, rfl⟩ := Option.map_eq_some_iff.mp number
      obtain ⟨inside, here, _⟩ := List.idxOf?_eq_some_iff.mp place
      exact ⟨n, List.getElem?_eq_some_iff.mpr ⟨inside, here⟩, rfl⟩
  numbers := by
    intro id
    rw [Option.isSome_iff_exists]
    constructor
    · rintro ⟨entry, found⟩
      obtain ⟨n, here, rfl⟩ := entryAt?_eq_some_iff.mp found
      have inside := (List.getElem?_eq_some_iff.mp here).1
      omega
    · rintro ⟨lower, upper⟩
      have inside : (id - first).toNat < entries.length := by omega
      exact ⟨_, entryAt?_eq_some_iff.mpr
        ⟨_, List.getElem?_eq_getElem inside, by omega⟩⟩
  entries := by
    intro entry
    rw [Option.isSome_map, List.isSome_idxOf?]

theorem numbering_nodeKinds {m : Metadata} (nodup : m.nodeKinds.Nodup) :
    Numbering 0 m.nodeKinds m.nodeKindForId? m.idForNodeKind? := by
  have numbers : m.idForNodeKind? = fun kind => (m.nodeKinds.idxOf? kind).map (· + 0) := by
    funext kind
    exact (congrFun Option.map_id _).symm
  rw [numbers]
  exact numbering_of_nodup 0 nodup

theorem numbering_fieldNames {m : Metadata} (nodup : m.fieldNames.Nodup) :
    Numbering 1 m.fieldNames m.fieldNameForId? m.fieldIdForName? :=
  numbering_of_nodup 1 nodup

end Metadata

namespace Grammar

/-- The kinds of the grammar: that of what is not understood, those of tokens, and those that
productions name. What a production splices or passes on has no kind of its own. -/
inductive Names : NodeKind → Prop where
  | error : Names .error
  | token (named : NodeKind.ofTerminal? t = some kind) : Names kind
  | production (member : p ∈ productions) (shape : p.shape = .node kind) : Names kind

private def isNamed (kind : NodeKind) : Bool :=
  kind = .error || Terminal.all.any (NodeKind.ofTerminal? · = some kind) ||
    productions.any (·.shape = .node kind)

set_option maxRecDepth 10000 in
private theorem named_checked : NodeKind.all.all isNamed = true := by
  decide

theorem names (kind : NodeKind) : Names kind := by
  have checked := List.all_eq_true.mp named_checked kind kind.mem_all
  rw [isNamed, Bool.or_eq_true, Bool.or_eq_true, List.any_eq_true, List.any_eq_true] at checked
  rcases checked with (error | ⟨t, _, named⟩) | ⟨p, member, shape⟩
  · rw [of_decide_eq_true error]
    exact .error
  · exact .token (of_decide_eq_true named)
  · exact .production member (of_decide_eq_true shape)

end Grammar

theorem NodeKind.mem_fields_of_field? {kind : NodeKind} {i : Nat} {f : Field}
    (found : kind.field? i = some f) : f ∈ kind.fields := by
  rw [field?] at found
  split at found
  · next g here => exact Option.some.inj found ▸ List.mem_of_getElem? here
  · exact List.mem_of_getLast? found

namespace Field

set_option maxRecDepth 4000 in
private theorem used_checked : all.all (fun f => NodeKind.all.any (·.fields.contains f)) = true := by
  decide

theorem exists_kind (f : Field) : ∃ kind : NodeKind, f ∈ kind.fields := by
  have checked := List.all_eq_true.mp used_checked f f.mem_all
  obtain ⟨kind, _, used⟩ := List.any_eq_true.mp checked
  exact ⟨kind, List.contains_iff_mem.mp used⟩

end Field

namespace Artifact.Tables

set_option maxRecDepth 10000 in
private theorem kinds_checked : (NodeKind.all.map NodeKind.text).IsChain (· < ·) := by
  decide

theorem sorted_nodeKinds : vyper.nodeKinds.Pairwise (· < ·) :=
  List.isChain_iff_pairwise.mp kinds_checked

theorem mem_nodeKinds_iff {name : String} : name ∈ vyper.nodeKinds ↔
    ∃ kind, Grammar.Names kind ∧ kind.text = name := by
  rw [vyper, List.mem_map]
  constructor
  · rintro ⟨kind, _, text⟩
    exact ⟨kind, Grammar.names kind, text⟩
  · rintro ⟨kind, _, text⟩
    exact ⟨kind, kind.mem_all, text⟩

end Artifact.Tables

namespace Metadata

private theorem fields_checked : (Field.all.map Field.text).IsChain (· < ·) := by
  decide

variable {version : Int} {fingerprint name : String} {kinds : List String}

theorem sorted_fieldNames : (vyper version fingerprint kinds).fieldNames.Pairwise (· < ·) :=
  List.isChain_iff_pairwise.mp fields_checked

theorem mem_fieldNames_iff : name ∈ (vyper version fingerprint kinds).fieldNames ↔
    ∃ kind : NodeKind, ∃ f ∈ kind.fields, f.text = name := by
  rw [vyper, List.mem_map]
  constructor
  · rintro ⟨f, _, text⟩
    obtain ⟨kind, used⟩ := f.exists_kind
    exact ⟨kind, f, used, text⟩
  · rintro ⟨_, f, _, text⟩
    exact ⟨f, f.mem_all, text⟩

end Metadata

namespace Tree

variable {t : Tree} {kind : NodeKind}

theorem type_of_kind? (named : t.kind? = some kind) : t.type = kind.text := by
  cases t with
  | gap => cases named
  | node other extent trees => exact congrArg NodeKind.text (Option.some.inj named)
  | leaf token =>
    have same : NodeKind.ofTerminal? token.kind = some kind := named
    rw [type, same]

/-- A child stands in a field of its node's kind, or in none. -/
theorem exists_field {child : Option Field × Tree} {f : Field} (member : child ∈ t.children)
    (field : child.1 = some f) : ∃ kind, t.kind? = some kind ∧ f ∈ kind.fields := by
  cases t with
  | gap => cases member
  | leaf token => cases member
  | node kind extent trees =>
    obtain ⟨⟨below, i⟩, _, rfl⟩ := List.mem_map.mp member
    exact ⟨kind, rfl, NodeKind.mem_fields_of_field? field⟩

end Tree

namespace Derivation

/-- Where a production passes on what it keeps, that is one tree. -/
theorem Valid.exists_passed {p : Production} {parts : List Derivation}
    (valid : (Derivation.phrase p parts).Valid) (pass : p.shape = .pass) :
    ∃ t, (Derivation.phrase p parts).trees = [t] ∧ t.isGap = false := by
  have single : (Derivation.phrase p parts).IsSingle := by
    intro splice
    rw [pass] at splice
    cases splice
  obtain ⟨e, _, _, core, same⟩ := valid.exists_core single
  rw [← same]
  cases e with
  | token u => exact ⟨_, rfl, rfl⟩
  | phrase q others =>
    obtain ⟨kind, shape⟩ := core
    rw [Derivation.trees, shape]
    exact ⟨_, rfl, rfl⟩

end Derivation

/-- The symbol tables are complete. The kinds that are listed are those of the grammar, each once
and in order: of errors, of tokens, and of the productions that make a node. A production that
only passes on what it keeps always has one tree for it, so that it needs no kind. Whatever is
parsed, with errors or without, the kinds and fields in its tree are listed. And whatever
metadata lists without repeating it, entries and numbers tell each other, kinds from zero and
fields from one, and nothing else has a number or an entry. -/
theorem Parser.parse_symbols (c : Config) :
    ((∀ name, name ∈ (Artifact.language c).metadata.nodeKinds ↔
        ∃ kind, Grammar.Names kind ∧ kind.text = name) ∧
      (∀ name, name ∈ (Artifact.language c).metadata.fieldNames ↔
        ∃ kind : NodeKind, ∃ f ∈ kind.fields, f.text = name) ∧
      (Artifact.language c).metadata.nodeKinds.Pairwise (· < ·) ∧
      (Artifact.language c).metadata.fieldNames.Pairwise (· < ·)) ∧
    (∀ p parts, (Derivation.phrase p parts).Valid → p.shape = .pass →
      ∃ t, (Derivation.phrase p parts).trees = [t] ∧ t.isGap = false) ∧
    (∀ source, ∃ p, (Parser.empty.setLanguage (Artifact.language c)).parse source = .ok p ∧
      ∀ t ∈ p.root.nodes,
        (t.isNamed = true → t.type ∈ (Artifact.language c).metadata.nodeKinds) ∧
        ∀ child ∈ t.children, ∀ f, child.1 = some f →
          f.text ∈ (Artifact.language c).metadata.fieldNames) ∧
    (∀ m : Metadata, m.nodeKinds.Nodup →
      Numbering 0 m.nodeKinds m.nodeKindForId? m.idForNodeKind?) ∧
    ∀ m : Metadata, m.fieldNames.Nodup →
      Numbering 1 m.fieldNames m.fieldNameForId? m.fieldIdForName? := by
  refine ⟨⟨fun _ => Artifact.Tables.mem_nodeKinds_iff, fun _ => Metadata.mem_fieldNames_iff,
    Artifact.Tables.sorted_nodeKinds, Metadata.sorted_fieldNames⟩,
    fun p parts valid pass => valid.exists_passed pass, ?_,
    fun m nodup => Metadata.numbering_nodeKinds nodup,
    fun m nodup => Metadata.numbering_fieldNames nodup⟩
  intro source
  refine ⟨(Artifact.language c).parse source, rfl, ?_⟩
  intro t member
  constructor
  · intro named
    obtain ⟨kind, found⟩ := Option.isSome_iff_exists.mp named
    rw [Tree.type_of_kind? found]
    exact Artifact.Tables.mem_nodeKinds_iff.mpr ⟨kind, Grammar.names kind, rfl⟩
  · intro child below f field
    obtain ⟨kind, _, used⟩ := Tree.exists_field below field
    exact Metadata.mem_fieldNames_iff.mpr ⟨kind, f, used, rfl⟩

namespace Parser

private def passedName : Derivation :=
  .phrase ⟨.atom, .pass, [.kept (.terminal .name)]⟩
    [.token ⟨.name, "a".toList, ⟨⟨3, 1, 4⟩, ⟨4, 1, 5⟩⟩⟩]

theorem parse_symbols_lines :
    (passedName.Valid ∧ ∃ t, passedName.trees = [t] ∧ t.isGap = false) ∧
    (∃ p, (Parser.empty.setLanguage (Artifact.language .default)).parse (.text Sample.lines) =
        .ok p ∧
      Sample.condition ∈ p.root.nodes ∧
      Sample.condition.type ∈ (Artifact.language .default).metadata.nodeKinds ∧
      (some .condition, .leaf Sample.tokens[1]) ∈ Sample.condition.children ∧
      Field.condition.text ∈ (Artifact.language .default).metadata.fieldNames) ∧
    ((Artifact.language .default).metadata.nodeKinds.Nodup ∧
      (Artifact.language .default).metadata.idForNodeKind? "if_statement" = some 33) ∧
    (Artifact.language .default).metadata.fieldNames.Nodup ∧
      (Artifact.language .default).metadata.fieldIdForName? "condition" = some 8 := by
  obtain ⟨⟨_, _, kinds, fields⟩, passes, trees, numberKinds, numberFields⟩ :=
    parse_symbols .default
  have valid : passedName.Valid := by decide
  have kindsOnce := kinds.imp fun less => ne_of_lt less
  have fieldsOnce := fields.imp fun less => ne_of_lt less
  obtain ⟨p, parsed, _, root, _⟩ := Sample.exists_parse Sample.lines rfl
  obtain ⟨q, same, listed⟩ := trees (.text Sample.lines)
  obtain rfl : p = q := Except.ok.inj (parsed.symm.trans same)
  have member : Sample.condition ∈ p.root.nodes := by
    rw [root]
    exact List.mem_cons_of_mem _ List.mem_cons_self
  have child : (some Field.condition, Tree.leaf Sample.tokens[1]) ∈ Sample.condition.children :=
    List.mem_cons_self
  obtain ⟨type, below⟩ := listed _ member
  obtain ⟨n, kindNumber, kindId⟩ :=
    ((numberKinds _ kindsOnce).inverse 33 "if_statement").mp rfl
  obtain ⟨m, fieldNumber, fieldId⟩ :=
    ((numberFields _ fieldsOnce).inverse 8 "condition").mp rfl
  obtain rfl : n = 33 := by omega
  obtain rfl : m = 8 := by omega
  exact ⟨⟨valid, passes _ _ valid rfl⟩, ⟨p, parsed, member, type rfl, child,
    below _ child _ rfl⟩, ⟨kindsOnce, kindNumber⟩, fieldsOnce, fieldNumber⟩

end Parser

end VyperFront
