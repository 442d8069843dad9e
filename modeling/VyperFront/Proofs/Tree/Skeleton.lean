import VyperFront.Proofs.Totality

/-! The S-expression of a tree says what its types and fields say, and nothing is lost on the way.
It is a text for its skeleton, and the skeleton can be read back from it. -/

namespace VyperFront

/-- A type, and the parts below it after the names of their fields. -/
inductive Skeleton where
  | form (type : Text) (parts : List (Option Text × Skeleton))

namespace Skeleton

mutual

/-- A skeleton in one line. -/
def text : Skeleton → Text
  | form type parts => '(' :: (type ++ textOf parts ++ [')'])

/-- The parts, each after a blank and the name of its field. -/
def textOf : List (Option Text × Skeleton) → Text
  | [] => []
  | (none, k) :: rest => ' ' :: (k.text ++ textOf rest)
  | (some label, k) :: rest => ' ' :: (label ++ [':', ' '] ++ k.text ++ textOf rest)

end

/-- What stands between types and names of fields. -/
def isSeparator (c : Char) : Bool := c ∈ ['(', ')', ' ', ':']

/-- A text without separators. -/
abbrev IsWord (t : Text) : Prop := ∀ c ∈ t, isSeparator c = false

/-- A skeleton whose types and names of fields are all words. -/
inductive Clean : Skeleton → Prop where
  | form (word : IsWord type) (labels : ∀ part ∈ parts, ∀ label ∈ part.1, IsWord label)
    (below : ∀ part ∈ parts, part.2.Clean) : Clean (form type parts)

/-! Forms are read from the front, with the open ones on a stack. -/

/-- A form that was opened, as far as it was read. -/
structure Opened where
  label : Option Text
  type : Option Text
  parts : List (Option Text × Skeleton)

/-- How far a text was read: the open forms, the innermost first, the field that the next form
stands in, and the word that was begun. -/
structure Scan where
  forms : List Opened
  label : Option Text
  word : Text

namespace Scan

/-- Before anything was read. The outermost form is not in the text: it takes what is. -/
def start : Scan := ⟨[⟨none, some [], []⟩], none, []⟩

/-- The first word in a form is its type. -/
def settle (s : Scan) : Scan :=
  match s.forms with
  | ⟨label, none, parts⟩ :: outer => ⟨⟨label, some s.word, parts⟩ :: outer, s.label, []⟩
  | _ => s

/-- The innermost form becomes a part of the one around it. -/
def close (s : Scan) : Scan :=
  match s.forms with
  | ⟨label, some type, parts⟩ :: outer :: rest =>
    ⟨{ outer with parts := outer.parts ++ [(label, form type parts)] } :: rest, none, []⟩
  | _ => s

def step (s : Scan) : Char → Scan
  | '(' => ⟨⟨s.label, none, []⟩ :: s.forms, none, []⟩
  | ')' => s.settle.close
  | ':' => ⟨s.forms, some s.word, []⟩
  | ' ' => s.settle
  | c => { s with word := s.word ++ [c] }

end Scan

/-- The skeleton that a text is of, if it is one of a single form. -/
def ofText? (t : Text) : Option Skeleton :=
  match (t.foldl Scan.step .start).forms with
  | [⟨_, _, [(none, k)]⟩] => some k
  | _ => none

variable {s : Scan} {w type : Text} {label : Option Text} {k : Skeleton}
  {parts before : List (Option Text × Skeleton)} {rest : List Opened}

theorem isWord_iff : IsWord w ↔ w.all (!isSeparator ·) = true := by
  simp only [IsWord, List.all_eq_true, Bool.not_eq_true']

theorem step_of_not_separator {c : Char} (plain : isSeparator c = false) :
    s.step c = { s with word := s.word ++ [c] } := by
  unfold Scan.step
  split
  all_goals first | rfl | cases plain

theorem foldl_word (word : IsWord w) : w.foldl Scan.step s = { s with word := s.word ++ w } := by
  induction w generalizing s with
  | nil => rw [List.append_nil]; rfl
  | cons c w ih =>
    obtain ⟨here, later⟩ := List.forall_mem_cons.mp word
    rw [List.foldl_cons, step_of_not_separator here, ih later, List.append_assoc]
    rfl

/-- The text of a form that is read within a form becomes a part of that one. -/
def Reads (k : Skeleton) : Prop :=
  ∀ (outer : Opened) (rest : List Opened) (label : Option Text),
    k.text.foldl Scan.step ⟨outer :: rest, label, []⟩ =
      ⟨{ outer with parts := outer.parts ++ [(label, k)] } :: rest, none, []⟩

/-- The parts of a form are read one after the other, once its type is settled. -/
theorem settle_foldl_textOf (labels : ∀ part ∈ parts, ∀ label ∈ part.1, IsWord label)
    (reads : ∀ part ∈ parts, part.2.Reads)
    (settled : s.settle = ⟨⟨label, some type, before⟩ :: rest, none, []⟩) :
    ((textOf parts).foldl Scan.step s).settle =
      ⟨⟨label, some type, before ++ parts⟩ :: rest, none, []⟩ := by
  induction parts generalizing s before with
  | nil => rw [textOf, List.foldl_nil, settled, List.append_nil]
  | cons part parts ih =>
    obtain ⟨own, others⟩ := List.forall_mem_cons.mp labels
    obtain ⟨here, later⟩ := List.forall_mem_cons.mp reads
    -- The first blank ends the type. The others find it settled.
    have blank : s.step ' ' = ⟨⟨label, some type, before⟩ :: rest, none, []⟩ := settled
    obtain ⟨none | name, k⟩ := part
    · rw [textOf, List.foldl_cons, blank, List.foldl_append, here, ih others later rfl,
        List.append_assoc]
      rfl
    · have named : ([':', ' '] : Text).foldl Scan.step
          ⟨⟨label, some type, before⟩ :: rest, none, name⟩ =
            ⟨⟨label, some type, before⟩ :: rest, some name, []⟩ := rfl
      rw [textOf, List.foldl_cons, blank, List.foldl_append, List.foldl_append, List.foldl_append,
        foldl_word (own name rfl), List.nil_append, named, here, ih others later rfl,
        List.append_assoc]
      rfl

theorem Clean.reads (clean : k.Clean) : k.Reads := by
  induction clean with
  | @form type parts word labels _ ih =>
    intro outer rest label
    have inner : (⟨⟨label, none, []⟩ :: outer :: rest, none, type⟩ : Scan).settle =
        ⟨⟨label, some type, []⟩ :: outer :: rest, none, []⟩ := rfl
    have closed := settle_foldl_textOf labels ih inner
    rw [text, List.foldl_cons, List.foldl_append, List.foldl_append]
    have opened : (⟨outer :: rest, label, []⟩ : Scan).step '(' =
        ⟨⟨label, none, []⟩ :: outer :: rest, none, []⟩ := rfl
    rw [opened, foldl_word word, List.nil_append, List.foldl_cons, List.foldl_nil]
    refine (congrArg Scan.close closed).trans ?_
    rw [List.nil_append]
    rfl

theorem Clean.ofText?_text (clean : k.Clean) : ofText? k.text = some k := by
  rw [ofText?, Scan.start, clean.reads]
  rfl

theorem Clean.text_inj {l : Skeleton} (clean : k.Clean) (other : l.Clean) :
    k.text = l.text ↔ k = l := by
  constructor
  · intro same
    exact Option.some.inj (clean.ofText?_text.symm.trans (same ▸ other.ofText?_text))
  · exact congrArg text

end Skeleton

namespace Tree

open Skeleton (IsWord isSeparator isWord_iff)

mutual

/-- What the S-expression of a tree is written of. -/
def skeleton : Tree → Skeleton
  | leaf token => .form (leaf token).type.toList []
  | node kind _ children => .form kind.text.toList (skeletons kind 0 children)
  | gap => .form [] []

/-- The named trees of a list of children, from a position on. -/
def skeletons (kind : NodeKind) (position : Nat) : List Tree → List (Option Text × Skeleton)
  | [] => []
  | t :: rest =>
    if t.isNamed then
      ((kind.field? position).map (·.text.toList), t.skeleton) :: skeletons kind (position + 1) rest
    else skeletons kind (position + 1) rest

end

variable {t : Tree} {kind : NodeKind} {trees : List Tree}

private theorem skeletons_eq (kind : NodeKind) (position : Nat) (trees : List Tree) :
    skeletons kind position trees =
      ((((trees.zipIdx position).filter (!·.1.isGap)).map fun (child, i) =>
        (kind.field? i, child)).filter (·.2.isNamed)).map fun child =>
          (child.1.map (·.text.toList), child.2.skeleton) := by
  induction trees generalizing position with
  | nil => rfl
  | cons t rest ih =>
    rw [skeletons, ih, List.zipIdx_cons, List.filter_cons]
    cases t with
    | gap => rfl
    | leaf token =>
      cases named : (leaf token).isNamed <;> simp [named, isGap]
    | node kind extent trees => rfl

/-- A skeleton is the type, and the named children with their fields and their skeletons. -/
theorem skeleton_eq (t : Tree) :
    t.skeleton = .form t.type.toList
      (t.namedChildren.map fun child => (child.1.map (·.text.toList), child.2.skeleton)) := by
  cases t with
  | leaf token => rfl
  | gap => rfl
  | node kind extent trees => rw [skeleton, skeletons_eq]; rfl

theorem toList_form (type : String) (parts : List String) :
    (form type parts).toList =
      '(' :: (type.toList ++ (parts.flatMap fun part => ' ' :: part.toList) ++ [')']) := by
  cases parts with
  | nil => simp [form]
  | cons part rest =>
    have joined : ∀ (first : Text) (rest : List String),
        [' '].intercalate (first :: rest.map String.toList) =
          first ++ rest.flatMap fun part => ' ' :: part.toList := by
      intro first rest
      induction rest generalizing first with
      | nil => simp
      | cons part rest ih => simp [ih]
    simp [form, String.toList_intercalate, joined]

private theorem flatMap_sexps (same : ∀ t ∈ trees, t.isNamed = true → t.sexp.toList = t.skeleton.text)
    (position : Nat) : ((sexps kind position trees).flatMap fun part => ' ' :: part.toList) =
      Skeleton.textOf (skeletons kind position trees) := by
  induction trees generalizing position with
  | nil => rfl
  | cons t rest ih =>
    obtain ⟨here, later⟩ := List.forall_mem_cons.mp same
    rw [sexps, skeletons]
    split
    · next named =>
      rw [List.flatMap_cons, ih later]
      cases kind.field? position with
      | none => simp [labelled, Skeleton.textOf, here named]
      | some field => simp [labelled, Skeleton.textOf, here named]
    · exact ih later (position + 1)

theorem toList_sexp (solid : t.isGap = false) : t.sexp.toList = t.skeleton.text := by
  induction t using induct with
  | gap => cases solid
  | leaf token =>
    rw [sexp, toList_form, skeleton, Skeleton.text, Skeleton.textOf]
    rfl
  | node kind extent trees ih =>
    rw [sexp, toList_form, skeleton, Skeleton.text, flatMap_sexps]
    intro t member named
    refine ih t member ?_
    cases t with
    | gap => cases named
    | _ => rfl

theorem isWord_field (field : Field) : IsWord field.text.toList := by
  have words : (Field.all.all (·.text.toList.all (!isSeparator ·))) = true := by decide
  exact isWord_iff.mpr (List.all_eq_true.mp words field field.mem_all)

theorem isWord_kind (kind : NodeKind) : IsWord kind.text.toList := by
  have words : (NodeKind.all.all (·.text.toList.all (!isSeparator ·))) = true := by
    decide +kernel
  exact isWord_iff.mpr (List.all_eq_true.mp words kind kind.mem_all)

theorem clean_skeletons (below : ∀ t ∈ trees, t.skeleton.Clean) (position : Nat) :
    ∀ part ∈ skeletons kind position trees,
      (∀ label ∈ part.1, IsWord label) ∧ part.2.Clean := by
  induction trees generalizing position with
  | nil => exact nofun
  | cons t rest ih =>
    obtain ⟨here, later⟩ := List.forall_mem_cons.mp below
    rw [skeletons]
    split
    · refine List.forall_mem_cons.mpr ⟨⟨?_, here⟩, ih later (position + 1)⟩
      intro label member
      obtain ⟨field, _, rfl⟩ := Option.mem_map.mp member
      exact isWord_field field
    · exact ih later (position + 1)

/-- A tree whose leaves have words for types has a clean skeleton. -/
theorem clean_skeleton (words : ∀ token ∈ t.leaves, IsWord (leaf token).type.toList) :
    t.skeleton.Clean := by
  induction t using induct with
  | leaf token => exact .form (words token (List.mem_singleton_self _)) nofun nofun
  | gap => exact .form nofun nofun nofun
  | node kind extent trees ih =>
    have each : ∀ t ∈ trees, t.skeleton.Clean := by
      intro t member
      refine ih t member fun token inside => words token ?_
      rw [mem_leaves] at inside ⊢
      exact List.mem_cons_of_mem _ (mem_nodesOf.mpr ⟨t, member, inside⟩)
    have below := @clean_skeletons kind trees each 0
    exact .form (isWord_kind kind) (fun part member => (below part member).1)
      fun part member => (below part member).2

end Tree

namespace Terminal

/-- Whether the terminal is spelled with a separator. -/
def separates : Terminal → Bool
  | leftParen | rightParen | colon => true
  | _ => false

theorem isWord_spelling {t : Terminal} {spelling : String} (plain : t.separates = false)
    (spelled : t.spelling? = some spelling) : Skeleton.IsWord spelling.toList := by
  have words : (all.all fun t => t.separates ||
      t.spelling?.all (·.toList.all (!Skeleton.isSeparator ·))) = true := by decide
  have word := List.all_eq_true.mp words t t.mem_all
  rw [plain, spelled, Bool.false_or] at word
  exact Skeleton.isWord_iff.mpr word

end Terminal

set_option maxRecDepth 10000 in
private theorem Grammar.separates_checked : (productions.all (·.slots.all fun
    | .kept (.terminal t) => !t.separates
    | _ => true)) = true := by
  decide

theorem Grammar.separates_of_kept {p : Production} {t : Terminal} (member : p ∈ productions)
    (kept : .kept (.terminal t) ∈ p.slots) : t.separates = false :=
  (Bool.not_eq_true' _).mp
    (List.all_eq_true.mp (List.all_eq_true.mp separates_checked p member) _ kept)

theorem Tree.isWord_type_leaf {token : SourceToken} (leaf : token.kind.canBeLeaf = true)
    (plain : token.kind.separates = false) (spelled : token.Spelled) :
    Skeleton.IsWord (Tree.leaf token).type.toList := by
  rcases Tree.type_leaf_cases leaf spelled with ⟨kind, _, type⟩ | unnamed
  · rw [type]
    exact isWord_kind kind
  · exact Terminal.isWord_spelling plain unnamed

/-- The skeletons of all that is parsed are clean, with errors or without. -/
theorem Reading.clean_skeleton {r : Reading} (vyper : r.Vyper) (source : Source) :
    ∀ t ∈ (r.parse source).root.nodes, t.skeleton.Clean := by
  intro t member
  refine Tree.clean_skeleton fun token leaf => ?_
  have leaf := Tree.mem_leaves.mpr (Tree.mem_nodes_trans (Tree.mem_leaves.mp leaf) member)
  cases came : (r.parse source).outcome with
  | error e =>
    rw [Parse.root, came] at leaf
    cases leaf
  | ok tree =>
    have clean : (r.parse source).errors = [] := by rw [Parse.errors, came]
    obtain ⟨⟨can, plain⟩, spelled⟩ := forall_leaf vyper clean (fun _ listed _ inside =>
      And.intro (Grammar.canBeLeaf_of_kept listed inside) (Grammar.separates_of_kept listed inside))
      token leaf
    exact Tree.isWord_type_leaf can plain spelled

/-- Two nodes of trees have the same S-expression just if they have the same skeleton. It can be
read from the S-expression. -/
theorem Parser.sexp_faithful {c d : Config} {source other : Source} {p q : Parse}
    (first : (Parser.empty.setLanguage (Artifact.language c)).parse source = .ok p)
    (second : (Parser.empty.setLanguage (Artifact.language d)).parse other = .ok q)
    {s t : Tree} (inside : s ∈ p.root.nodes) (within : t ∈ q.root.nodes) :
    (s.sexp = t.sexp ↔ s.skeleton = t.skeleton) ∧
      Skeleton.ofText? s.sexp.toList = some s.skeleton := by
  cases first
  cases second
  have clean := Reading.clean_skeleton (r := ⟨automaton, c.lexer, c.tabWidth⟩) rfl source s inside
  have also := Reading.clean_skeleton (r := ⟨automaton, d.lexer, d.tabWidth⟩) rfl other t within
  rw [← String.toList_inj, Tree.toList_sexp (Tree.solid_of_mem_nodes inside),
    Tree.toList_sexp (Tree.solid_of_mem_nodes within)]
  exact ⟨clean.text_inj also, clean.ofText?_text⟩

/-- The whole of two lines, and the condition in them. -/
theorem Parser.sexp_faithful_lines : ∃ p : Parse,
    (Parser.empty.setLanguage (Artifact.language .default)).parse (.text Sample.lines) = .ok p ∧
      Sample.tree ∈ p.root.nodes ∧ Sample.condition ∈ p.root.nodes ∧
      (Sample.tree.sexp = Sample.condition.sexp ↔
        Sample.tree.skeleton = Sample.condition.skeleton) ∧
      Skeleton.ofText? Sample.tree.sexp.toList = some Sample.tree.skeleton := by
  obtain ⟨p, parsed, _, root, _⟩ := Sample.exists_parse Sample.lines rfl
  have whole : Sample.tree ∈ p.root.nodes := by
    rw [root]
    exact List.mem_cons_self
  have part : Sample.condition ∈ p.root.nodes := by
    rw [root]
    exact List.mem_cons_of_mem _ List.mem_cons_self
  exact ⟨p, parsed, whole, part, sexp_faithful parsed parsed whole part⟩

end VyperFront
