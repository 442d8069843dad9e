/-! Tables: search trees over numbers. They are plain data, so that a look-up
costs a path and evaluates in proofs as it does in programs. -/

namespace VyperFront

inductive Table (α : Type) where
  | leaf
  | node (key : Nat) (value : α) (low high : Table α)
  deriving Repr

namespace Table

instance : Inhabited (Table α) := ⟨leaf⟩

def get? : Table α → Nat → Option α
  | leaf, _ => none
  | node key value low high, k =>
    bif k.beq key then some value
    else bif k.ble key then low.get? k else high.get? k

/-- Changes the value at a key, which starts from the given one if it is new. -/
def update (fresh : α) (f : α → α) (k : Nat) : Table α → Table α
  | leaf => node k (f fresh) leaf leaf
  | node key value low high =>
    bif k.beq key then node key (f value) low high
    else bif k.ble key then node key value (low.update fresh f k) high
    else node key value low (high.update fresh f k)

def insert (k : Nat) (a : α) (t : Table α) : Table α :=
  t.update a (fun _ => a) k

def toList : Table α → List (Nat × α)
  | leaf => []
  | node key value low high => low.toList ++ (key, value) :: high.toList

def map (f : α → β) : Table α → Table β
  | leaf => leaf
  | node key value low high => node key (f value) (low.map f) (high.map f)

/-- A tree over the first `size` elements, and the elements that are left. The
keys count from the given number. -/
private def build : (depth key size : Nat) → List α → Table α × List α
  | 0, _, _, elements => (leaf, elements)
  | _, _, 0, elements => (leaf, elements)
  | depth + 1, key, size + 1, elements =>
    match build depth key (size / 2) elements with
    | (low, value :: rest) =>
      let middle := key + size / 2
      let (high, rest) := build depth (middle + 1) (size - size / 2) rest
      (node middle value low high, rest)
    | (low, []) => (low, [])

/-- The table of a list's elements by position, as a balanced tree. -/
def ofList (elements : List α) : Table α :=
  (build elements.length 0 elements.length elements).1

theorem get?_update (fresh : α) (f : α → α) (k j : Nat) (t : Table α) :
    (t.update fresh f k).get? j =
      if j = k then some (f ((t.get? k).getD fresh)) else t.get? j := by
  induction t with
  | leaf =>
    simp only [update, get?, cond_eq_ite, Nat.beq_eq, Nat.ble_eq]
    grind
  | node key value low high ihLow ihHigh =>
    simp only [update, get?, cond_eq_ite, Nat.beq_eq, Nat.ble_eq]
    grind [get?, Nat.beq_eq, Nat.ble_eq]

@[simp] theorem get?_leaf (k : Nat) : (leaf : Table α).get? k = none := rfl

theorem get?_insert (a : α) (k j : Nat) (t : Table α) :
    (t.insert k a).get? j = if j = k then some a else t.get? j :=
  get?_update ..

private theorem build_spec (depth key size : Nat) (elements : List α)
    (deep : size ≤ depth) (enough : size ≤ elements.length) :
    (build depth key size elements).2 = elements.drop size ∧
      ∀ k, (build depth key size elements).1.get? k =
        if key ≤ k ∧ k < key + size then elements[k - key]? else none := by
  induction depth generalizing key size elements with
  | zero =>
    obtain rfl : size = 0 := by omega
    refine ⟨rfl, fun k => ?_⟩
    rw [if_neg (by omega)]
    rfl
  | succ depth ih =>
    cases size with
    | zero =>
      refine ⟨rfl, fun k => ?_⟩
      rw [if_neg (by omega)]
      rfl
    | succ size =>
      obtain ⟨lowRest, lowGet⟩ := ih key (size / 2) elements (by omega) (by omega)
      have middle : size / 2 < elements.length := by omega
      have split : elements.drop (size / 2) =
          elements[size / 2] :: elements.drop (size / 2 + 1) :=
        List.drop_eq_getElem_cons middle
      obtain ⟨highRest, highGet⟩ := ih (key + size / 2 + 1) (size - size / 2)
        (elements.drop (size / 2 + 1)) (by omega) (by simp; omega)
      have lowBuilt : build depth key (size / 2) elements =
          ((build depth key (size / 2) elements).1,
            elements[size / 2] :: elements.drop (size / 2 + 1)) :=
        Prod.ext rfl (lowRest.trans split)
      rw [build, lowBuilt]
      refine ⟨?_, fun k => ?_⟩
      · simp only [highRest, List.drop_drop]
        congr 1
        omega
      · simp only [get?, cond_eq_ite, Nat.beq_eq, Nat.ble_eq, lowGet, highGet,
          List.getElem?_drop]
        rcases Nat.lt_trichotomy k (key + size / 2) with below | rfl | above
        · rw [if_neg (Nat.ne_of_lt below), if_pos (Nat.le_of_lt below)]
          by_cases inside : key ≤ k
          · rw [if_pos ⟨inside, below⟩, if_pos ⟨inside, by omega⟩]
          · rw [if_neg (inside ·.1), if_neg (inside ·.1)]
        · rw [if_pos rfl, if_pos ⟨by omega, by omega⟩, Nat.add_sub_cancel_left,
            List.getElem?_eq_getElem middle]
        · rw [if_neg (Nat.ne_of_gt above), if_neg (Nat.not_le.mpr above),
            show size / 2 + 1 + (k - (key + size / 2 + 1)) = k - key by omega]
          by_cases inside : k < key + (size + 1)
          · rw [if_pos ⟨above, by omega⟩, if_pos ⟨by omega, inside⟩]
          · rw [if_neg fun within => inside (by omega), if_neg (inside ·.2)]

theorem get?_ofList (elements : List α) (k : Nat) : (ofList elements).get? k = elements[k]? := by
  rw [ofList, (build_spec _ 0 _ elements (Nat.le_refl _) (Nat.le_refl _)).2]
  by_cases inside : k < elements.length
  · simp [inside]
  · simp [inside]

end Table

end VyperFront
