import VyperFront.Grammar.Production
import VyperFront.Table

/-! Items: productions with a place in their body. All items are numbered, those
of one production consecutively, so that a set of items is a bit mask and moving
every item of a set past its next symbol is a shift. -/

namespace VyperFront

/-- A set of items, as the bits of their numbers. -/
abbrev ItemSet := Nat

/-- Sets of items with what they stand for. A branch has the union of the sets
below it, so that all of them can be passed over at once. -/
inductive ItemIndex (α : Type) where
  | nil
  | entry (items : ItemSet) (value : α)
  | branch (items : ItemSet) (low high : ItemIndex α)

namespace ItemIndex

/-- The union of all sets. -/
def items : ItemIndex α → ItemSet
  | nil => 0
  | entry items _ => items
  | branch items _ _ => items

def join (low high : ItemIndex α) : ItemIndex α := branch (low.items ||| high.items) low high

def pairUp : List (ItemIndex α) → List (ItemIndex α)
  | first :: second :: rest => first.join second :: pairUp rest
  | indexes => indexes

/-- One index of many, joined in pairs for so many rounds and then one by one. -/
def joinAll : (rounds : Nat) → List (ItemIndex α) → ItemIndex α
  | 0, indexes => indexes.foldr join nil
  | rounds + 1, indexes => joinAll rounds (pairUp indexes)

def ofList (entries : List (ItemSet × α)) : ItemIndex α :=
  joinAll entries.length.log2 (entries.map fun (items, value) => entry items value)

/-- What the sets stand for that meet the given one, with the items they share. -/
def meeting (all : ItemSet) : ItemIndex α → List (ItemSet × α)
  | nil => []
  | entry items value => bif (all &&& items).beq 0 then [] else [(all &&& items, value)]
  | branch items low high =>
    bif (all &&& items).beq 0 then [] else low.meeting all ++ high.meeting all

end ItemIndex

namespace ItemSet

/-- The productions with the numbers of their first items. -/
def numberFrom : Nat → List Production → List (Nat × Production)
  | _, [] => []
  | number, p :: rest => (number, p) :: numberFrom (number + p.body.length + 1) rest

/-- The productions of the grammar with the numbers of their first items. -/
@[irreducible] def numbered : List (Nat × Production) := numberFrom 0 Grammar.productions

def add (number : Nat) (items : ItemSet) : ItemSet := items ||| 1 <<< number

/-- The items under each key. There is a place for the code of every symbol from
the start, so that the table is balanced. -/
def collect (keyed : List (Nat × Nat)) : Table ItemSet :=
  keyed.foldl (fun sets (key, number) => sets.update 0 (add number) key)
    (.ofList (List.replicate (2 * Nonterminal.all.length) 0))

/-- The items that wait for a symbol, by its code. -/
@[irreducible] def waiting : Table ItemSet :=
  collect <| numbered.flatMap fun (number, p) =>
    (p.body.zipIdx number).map fun (s, item) => (s.code, item)

/-- The items that begin the productions of a phrase, by its position. -/
@[irreducible] def starting : Table ItemSet :=
  collect <| numbered.map fun (number, p) => (p.head.ctorIdx, number)

def waitingFor (s : Symbol) : ItemSet := (waiting.get? s.code).getD 0

def startingWith (n : Nonterminal) : ItemSet := (starting.get? n.ctorIdx).getD 0

/-- Adds to a set what each phrase brings that an item of the set waits for. -/
def predict (phrases : ItemIndex ItemSet) (items : ItemSet) : ItemSet :=
  (phrases.meeting items).foldl (fun all (_, brought) => all ||| brought) items

/-- Each phrase with what it brings, by the items that wait for it. -/
def byWaiting (brought : List ItemSet) : ItemIndex ItemSet :=
  .ofList ((Nonterminal.all.map fun n => waitingFor (.nonterminal n)).zip brought)

/-- What each phrase brings when it is predicted, closed under prediction. Each
round but the last adds something for some phrase. -/
def close : (rounds : Nat) → (brought : List ItemSet) → List ItemSet
  | 0, brought => brought
  | rounds + 1, brought =>
    let next := brought.map (predict (byWaiting brought))
    bif next == brought then brought else close rounds next

/-- What each phrase brings when it is predicted: the items that begin it and
those that begin what they wait for. -/
@[irreducible] def brought : List ItemSet :=
  close Nonterminal.all.length (Nonterminal.all.map startingWith)

/-- Moves items past the symbol that they wait for. -/
def advance (items : ItemSet) : ItemSet := items <<< 1

end ItemSet

end VyperFront
