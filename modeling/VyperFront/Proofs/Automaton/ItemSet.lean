import Mathlib.Data.List.Nodup
import Mathlib.Data.Nat.Bitwise
import VyperFront.Automaton.Item

namespace VyperFront

namespace ItemIndex

/-- The sets of the index with what they stand for. -/
def toList : ItemIndex α → List (ItemSet × α)
  | nil => []
  | entry items value => [(items, value)]
  | branch _ low high => low.toList ++ high.toList

/-- Every branch has the union of the sets below it. -/
def Covers : ItemIndex α → Prop
  | nil => True
  | entry _ _ => True
  | branch items low high => items = low.items ||| high.items ∧ low.Covers ∧ high.Covers

private theorem toList_pairUp (indexes : List (ItemIndex α)) :
    (pairUp indexes).flatMap toList = indexes.flatMap toList := by
  fun_induction pairUp indexes with
  | case1 first second rest ih => simp [join, toList, ih]
  | case2 => rfl

private theorem covers_pairUp {indexes : List (ItemIndex α)}
    (covers : ∀ index ∈ indexes, index.Covers) : ∀ index ∈ pairUp indexes, index.Covers := by
  fun_induction pairUp indexes with
  | case1 first second rest ih =>
    intro index member
    rcases List.mem_cons.mp member with rfl | later
    · exact ⟨rfl, covers first (by simp), covers second (by simp)⟩
    · exact ih (fun index present => covers index (by simp [present])) index later
  | case2 => exact covers

private theorem toList_joinAll (rounds : Nat) (indexes : List (ItemIndex α)) :
    (joinAll rounds indexes).toList = indexes.flatMap toList := by
  induction rounds generalizing indexes with
  | zero =>
    induction indexes with
    | nil => rfl
    | cons index rest ih =>
      rw [List.flatMap_cons, ← ih]
      rfl
  | succ rounds ih => rw [joinAll, ih, toList_pairUp]

private theorem covers_joinAll (rounds : Nat) {indexes : List (ItemIndex α)}
    (covers : ∀ index ∈ indexes, index.Covers) : (joinAll rounds indexes).Covers := by
  induction rounds generalizing indexes with
  | zero =>
    induction indexes with
    | nil => trivial
    | cons index rest ih =>
      exact ⟨rfl, covers index (by simp), ih fun other present => covers other (by simp [present])⟩
  | succ rounds ih => exact ih (covers_pairUp covers)

theorem toList_ofList (entries : List (ItemSet × α)) : (ofList entries).toList = entries := by
  rw [ofList, toList_joinAll, List.flatMap_map]
  simp [toList]

theorem covers_ofList (entries : List (ItemSet × α)) : (ofList entries).Covers := by
  apply covers_joinAll
  intro index present
  obtain ⟨pair, _, rfl⟩ := List.mem_map.mp present
  trivial

private theorem disjoint_below {index : ItemIndex α} (covers : index.Covers) {all : ItemSet}
    (disjoint : all &&& index.items = 0) : ∀ pair ∈ index.toList, all &&& pair.1 = 0 := by
  induction index with
  | nil => simp [toList]
  | entry items' value => simpa [toList, items] using disjoint
  | branch items low high ihLow ihHigh =>
    obtain ⟨rfl, coversLow, coversHigh⟩ := covers
    rw [items, Nat.and_or_distrib_left, Nat.or_eq_zero_iff] at disjoint
    intro pair present
    rcases List.mem_append.mp present with inLow | inHigh
    · exact ihLow coversLow disjoint.1 pair inLow
    · exact ihHigh coversHigh disjoint.2 pair inHigh

/-- What an entry contributes when a set is looked up. -/
def meet (all : ItemSet) (pair : ItemSet × α) : Option (ItemSet × α) :=
  if all &&& pair.1 = 0 then none else some (all &&& pair.1, pair.2)

private theorem meeting_eq {index : ItemIndex α} (covers : index.Covers) (all : ItemSet) :
    index.meeting all = index.toList.filterMap (meet all) := by
  induction index with
  | nil => rfl
  | entry items value =>
    by_cases disjoint : all &&& items = 0 <;>
      simp [meeting, toList, meet, cond_eq_ite, Nat.beq_eq, disjoint]
  | branch items low high ihLow ihHigh =>
    by_cases disjoint : all &&& items = 0
    · have none : (branch items low high).toList.filterMap (meet all) = [] := by
        rw [List.filterMap_eq_nil_iff]
        intro pair present
        simp [meet, disjoint_below covers disjoint pair present]
      simp [meeting, disjoint, none]
    · rw [meeting, ihLow covers.2.1, ihHigh covers.2.2, toList, List.filterMap_append]
      simp only [cond_eq_ite, Nat.beq_eq, if_neg disjoint]

/-- Passing over whole branches leaves nothing out. -/
theorem meeting_ofList (entries : List (ItemSet × α)) (all : ItemSet) :
    (ofList entries).meeting all = entries.filterMap (meet all) := by
  rw [meeting_eq (covers_ofList entries), toList_ofList]

theorem mem_meeting_ofList {entries : List (ItemSet × α)} {all met : ItemSet} {value : α} :
    (met, value) ∈ (ofList entries).meeting all ↔
      ∃ items, (items, value) ∈ entries ∧ all &&& items ≠ 0 ∧ met = all &&& items := by
  rw [meeting_ofList, List.mem_filterMap]
  constructor
  · rintro ⟨⟨items, other⟩, present, met⟩
    unfold meet at met
    split at met
    · cases met
    · next shared =>
      cases met
      exact ⟨items, present, shared, rfl⟩
  · rintro ⟨items, present, shared, rfl⟩
    exact ⟨(items, value), present, if_neg shared⟩

/-- In an index of things by what waits for them, a look-up finds each thing that
shares items with the set. -/
theorem mem_meeting_keyed {keys : List α} {waiting : α → ItemSet} {all met : ItemSet} {key : α} :
    (met, key) ∈ (ofList (keys.map fun key => (waiting key, key))).meeting all ↔
      key ∈ keys ∧ all &&& waiting key ≠ 0 ∧ met = all &&& waiting key := by
  rw [mem_meeting_ofList]
  constructor
  · rintro ⟨items, listed, shared, rfl⟩
    obtain ⟨other, member, same⟩ := List.mem_map.mp listed
    cases same
    exact ⟨member, shared, rfl⟩
  · rintro ⟨member, shared, rfl⟩
    exact ⟨_, List.mem_map.mpr ⟨key, member, rfl⟩, shared, rfl⟩

theorem nodup_meeting_keyed {keys : List α} (nodup : keys.Nodup) (waiting : α → ItemSet)
    (all : ItemSet) :
    (((ofList (keys.map fun key => (waiting key, key))).meeting all).map Prod.snd).Nodup := by
  rw [meeting_ofList]
  refine nodup.sublist ?_
  clear nodup
  induction keys with
  | nil => exact List.Sublist.refl _
  | cons key rest ih =>
    by_cases disjoint : all &&& waiting key = 0
    · simpa [List.filterMap_cons, meet, disjoint] using ih.cons key
    · simpa [List.filterMap_cons, meet, disjoint] using ih.cons_cons key

end ItemIndex

namespace ItemSet

/-- A production with a place in its body has the number. -/
def Numbers (number : Nat) (p : Production) (place : Nat) : Prop :=
  ∃ first, (first, p) ∈ numbered ∧ place ≤ p.body.length ∧ number = first + place

/-- A production with a place in its body is among the items. -/
def Holds (items : ItemSet) (p : Production) (place : Nat) : Prop :=
  ∃ number, Numbers number p place ∧ items.testBit number = true

private theorem le_of_mem_numberFrom {start first : Nat} {p : Production}
    {productions : List Production} (member : (first, p) ∈ numberFrom start productions) :
    start ≤ first := by
  induction productions generalizing start with
  | nil => cases member
  | cons q rest ih =>
    rcases List.mem_cons.mp member with same | later
    · cases same
      exact Nat.le_refl _
    · have := ih later
      omega

/-- The numbers of different productions do not overlap. -/
private theorem numberFrom_unique {start first other place position : Nat} {p q : Production}
    {productions : List Production} (left : (first, p) ∈ numberFrom start productions)
    (right : (other, q) ∈ numberFrom start productions) (inside : place ≤ p.body.length)
    (within : position ≤ q.body.length) (same : first + place = other + position) :
    first = other ∧ p = q := by
  induction productions generalizing start with
  | nil => cases left
  | cons head rest ih =>
    rcases List.mem_cons.mp left with here | later
    · cases here
      rcases List.mem_cons.mp right with also | after
      · cases also
        exact ⟨rfl, rfl⟩
      · have := le_of_mem_numberFrom after
        omega
    · rcases List.mem_cons.mp right with also | after
      · cases also
        have := le_of_mem_numberFrom later
        omega
      · exact ih later after

theorem Numbers.unique {number place position : Nat} {p q : Production}
    (left : Numbers number p place) (right : Numbers number q position) :
    p = q ∧ place = position := by
  obtain ⟨first, member, inside, rfl⟩ := left
  obtain ⟨other, present, within, same⟩ := right
  rw [numbered] at member present
  obtain ⟨rfl, rfl⟩ := numberFrom_unique member present inside within same
  exact ⟨rfl, by omega⟩

private theorem map_numberFrom (start : Nat) (productions : List Production) :
    (numberFrom start productions).map Prod.snd = productions := by
  induction productions generalizing start with
  | nil => rfl
  | cons p rest ih => simp [numberFrom, ih]

theorem exists_mem_numbered {p : Production} :
    (∃ first, (first, p) ∈ numbered) ↔ p ∈ Grammar.productions := by
  have same : numbered.map Prod.snd = Grammar.productions := by
    rw [numbered, map_numberFrom]
  rw [← same, List.mem_map]
  constructor
  · rintro ⟨first, member⟩
    exact ⟨(first, p), member, rfl⟩
  · rintro ⟨⟨first, _⟩, present, rfl⟩
    exact ⟨first, present⟩

theorem Numbers.mem_productions {number place : Nat} {p : Production}
    (numbers : Numbers number p place) : p ∈ Grammar.productions := by
  obtain ⟨first, member, _⟩ := numbers
  exact exists_mem_numbered.mp ⟨first, member⟩

theorem Holds.mem_productions {items : ItemSet} {p : Production} {place : Nat}
    (holds : Holds items p place) : p ∈ Grammar.productions := by
  obtain ⟨number, numbers, _⟩ := holds
  exact numbers.mem_productions

@[simp] theorem testBit_add (number : Nat) (items : ItemSet) (i : Nat) :
    (add number items).testBit i = (items.testBit i || decide (number = i)) := by
  rw [add, Nat.testBit_or, Nat.one_shiftLeft, Nat.testBit_two_pow]

private theorem testBit_collect_from (keyed : List (Nat × Nat)) (sets : Table ItemSet)
    (key number : Nat) :
    ((keyed.foldl (fun sets (key, number) => sets.update 0 (add number) key) sets).get? key
      |>.getD 0).testBit number =
      (((sets.get? key).getD 0).testBit number || keyed.contains (key, number)) := by
  induction keyed generalizing sets with
  | nil => simp
  | cons pair rest ih =>
    rw [List.foldl_cons, ih, Table.get?_update]
    by_cases here : key = pair.1
    · subst here
      by_cases also : pair.2 = number
      · subst also; simp
      · have other : (pair.1, number) ≠ pair := fun same => also (by rw [← same])
        simp [also, other]
    · have other : (key, number) ≠ pair := fun same => here (by rw [← same])
      simp [here, other]

theorem testBit_collect {keyed : List (Nat × Nat)} {key number : Nat} :
    (((collect keyed).get? key).getD 0).testBit number = true ↔ (key, number) ∈ keyed := by
  have blank : ((Table.ofList (List.replicate (2 * Nonterminal.all.length) 0)).get? key).getD 0
      = 0 := by
    rw [Table.get?_ofList, List.getElem?_replicate]
    split <;> rfl
  rw [collect, testBit_collect_from, blank]
  simp

theorem testBit_waitingFor {s : Symbol} {number : Nat} :
    (waitingFor s).testBit number = true ↔
      ∃ p place, Numbers number p place ∧ p.body[place]? = some s := by
  rw [waitingFor, waiting, testBit_collect, List.mem_flatMap]
  constructor
  · rintro ⟨⟨first, p⟩, member, listed⟩
    obtain ⟨⟨r, item⟩, numbered, same⟩ := List.mem_map.mp listed
    obtain ⟨code, rfl⟩ := Prod.mk.inj same
    obtain rfl := Symbol.code_inj.mp code
    obtain ⟨after, found⟩ := List.mk_mem_zipIdx_iff_le_and_getElem?_sub.mp numbered
    have inside := (List.getElem?_eq_some_iff.mp found).1
    exact ⟨p, item - first, ⟨first, member, by omega, by omega⟩, found⟩
  · rintro ⟨p, place, ⟨first, member, _, rfl⟩, found⟩
    refine ⟨(first, p), member, List.mem_map.mpr ⟨(s, first + place), ?_, rfl⟩⟩
    rw [List.mk_mem_zipIdx_iff_le_and_getElem?_sub]
    exact ⟨by omega, by rwa [Nat.add_sub_cancel_left]⟩

theorem testBit_startingWith {n : Nonterminal} {number : Nat} :
    (startingWith n).testBit number = true ↔ ∃ p, Numbers number p 0 ∧ p.head = n := by
  rw [startingWith, starting, testBit_collect, List.mem_map]
  constructor
  · rintro ⟨⟨first, p⟩, member, same⟩
    obtain ⟨head, rfl⟩ := Prod.mk.inj same
    exact ⟨p, ⟨first, member, Nat.zero_le _, rfl⟩, Nonterminal.ctorIdx_inj.mp head⟩
  · rintro ⟨p, ⟨first, member, _, same⟩, rfl⟩
    exact ⟨(first, p), member, by rw [same, Nat.add_zero]⟩

/-- Some of the items wait for the symbol. -/
def Awaits (items : ItemSet) (s : Symbol) : Prop :=
  ∃ p place, Holds items p place ∧ p.body[place]? = some s

theorem awaits_iff {items : ItemSet} {s : Symbol} :
    Awaits items s ↔ items &&& waitingFor s ≠ 0 := by
  constructor
  · rintro ⟨p, place, ⟨number, numbers, held⟩, found⟩ empty
    have shared := congrArg (Nat.testBit · number) empty
    simp [Nat.testBit_and, held, testBit_waitingFor.mpr ⟨p, place, numbers, found⟩] at shared
  · intro shared
    obtain ⟨number, bit⟩ := Nat.exists_testBit_of_ne_zero shared
    rw [Nat.testBit_and, Bool.and_eq_true] at bit
    obtain ⟨p, place, numbers, found⟩ := testBit_waitingFor.mp bit.2
    exact ⟨p, place, ⟨number, numbers, bit.1⟩, found⟩

/-- The items that a list has for a phrase. -/
def broughtBy (brought : List ItemSet) (n : Nonterminal) : ItemSet :=
  (brought[n.ctorIdx]?).getD 0

private theorem testBit_foldl_or (sets : List (ItemSet × ItemSet)) (items : ItemSet)
    (number : Nat) :
    (sets.foldl (fun all (_, brought) => all ||| brought) items).testBit number = true ↔
      items.testBit number = true ∨ ∃ pair ∈ sets, pair.2.testBit number = true := by
  induction sets generalizing items with
  | nil => simp
  | cons pair rest ih =>
    rw [List.foldl_cons, ih, Nat.testBit_or, Bool.or_eq_true, List.exists_mem_cons_iff, or_assoc]

private theorem mem_zip_map {keys : List κ} {f : κ → α} {values : List β} {a : α} {b : β} :
    (a, b) ∈ (keys.map f).zip values ↔
      ∃ (position : Nat) (key : κ), keys[position]? = some key ∧ f key = a ∧
        values[position]? = some b := by
  rw [List.mem_iff_getElem?]
  simp only [List.getElem?_zip_eq_some, List.getElem?_map, Option.map_eq_some_iff]
  constructor
  · rintro ⟨position, ⟨key, found, same⟩, present⟩
    exact ⟨position, key, found, same, present⟩
  · rintro ⟨position, key, found, same, present⟩
    exact ⟨position, ⟨key, found, same⟩, present⟩

private theorem mem_byWaiting {brought : List ItemSet} {items met set : ItemSet} :
    (met, set) ∈ (byWaiting brought).meeting items ↔
      ∃ n, brought[Nonterminal.ctorIdx n]? = some set ∧
        Awaits items (.nonterminal n) ∧ met = items &&& waitingFor (.nonterminal n) := by
  rw [byWaiting, ItemIndex.mem_meeting_ofList]
  constructor
  · rintro ⟨waiting, entry, shared, rfl⟩
    obtain ⟨position, n, found, rfl, present⟩ := mem_zip_map.mp entry
    obtain rfl := Nonterminal.ctorIdx_of_getElem?_all found
    exact ⟨n, present, awaits_iff.mpr shared, rfl⟩
  · rintro ⟨n, present, awaits, rfl⟩
    exact ⟨_, mem_zip_map.mpr ⟨n.ctorIdx, n, n.getElem?_all, rfl, present⟩,
      awaits_iff.mp awaits, rfl⟩

/-- Prediction adds what the awaited phrases bring. -/
theorem testBit_predict {brought : List ItemSet} {items : ItemSet} {number : Nat} :
    (predict (byWaiting brought) items).testBit number = true ↔
      items.testBit number = true ∨
        ∃ n, Awaits items (.nonterminal n) ∧ (broughtBy brought n).testBit number = true := by
  rw [predict, testBit_foldl_or]
  refine or_congr_right ⟨?_, ?_⟩
  · rintro ⟨⟨met, set⟩, present, bit⟩
    obtain ⟨n, found, awaits, _⟩ := mem_byWaiting.mp present
    exact ⟨n, awaits, by rwa [broughtBy, found]⟩
  · rintro ⟨n, awaits, bit⟩
    rw [broughtBy] at bit
    cases found : brought[n.ctorIdx]? with
    | none => simp [found] at bit
    | some set =>
      rw [found] at bit
      exact ⟨(_, set), mem_byWaiting.mpr ⟨n, found, awaits, rfl⟩, bit⟩

end ItemSet

end VyperFront
