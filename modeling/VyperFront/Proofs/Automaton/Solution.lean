import Mathlib.Algebra.GroupWithZero.Nat
import Mathlib.Algebra.Order.BigOperators.Group.List
import Mathlib.Algebra.Order.Group.Nat
import VyperFront.Automaton.Lookahead

/-! Solving the equations of lookaheads. Each round is sound and, unless all flows are
settled, leaves less missing, so that there are enough rounds for all that is. -/

namespace VyperFront

namespace Lookahead

variable {sets : Table TerminalSet} {flows : List Flow} {place other : Nat} {t : Terminal}

@[simp] theorem contains_follow_join (s : TerminalSet) :
    (follow (join s place sets) other).contains t =
      ((follow sets other).contains t || (decide (other = place) && s.contains t)) := by
  unfold follow join
  rw [Table.get?_update]
  by_cases here : other = place
  · subst here
    simp
  · simp [here]

/-- No flow has anything left to carry. -/
def Closed (flows : List Flow) (sets : Table TerminalSet) : Prop :=
  ∀ flow ∈ flows, ∀ t, (follow sets flow.source).contains t = true →
    (follow sets flow.target).contains t = true

theorem settled_iff {flow : Flow} :
    settled sets flow = true ↔ ∀ t, (follow sets flow.source).contains t = true →
      (follow sets flow.target).contains t = true := by
  rw [settled, beq_iff_eq]
  constructor
  · intro same t present
    rw [← same, TerminalSet.contains_union, present, Bool.true_or]
  · intro carried
    apply TerminalSet.ext
    intro t
    rw [TerminalSet.contains_union]
    cases present : (follow sets flow.source).contains t with
    | false => rfl
    | true => rw [carried t present, Bool.or_true]

private theorem carry_cons (flow : Flow) (rest : List Flow) :
    carry (flow :: rest) sets =
      carry rest (join (follow sets flow.source) flow.target sets) := rfl

theorem contains_carry (present : (follow sets place).contains t = true) :
    (follow (carry flows sets) place).contains t = true := by
  induction flows generalizing sets with
  | nil => exact present
  | cons flow rest ih => exact ih (by rw [contains_follow_join, present, Bool.true_or])

/-- A round takes what every source has to the target. -/
theorem contains_target_carry {flow : Flow} (member : flow ∈ flows)
    (present : (follow sets flow.source).contains t = true) :
    (follow (carry flows sets) flow.target).contains t = true := by
  induction flows generalizing sets with
  | nil => cases member
  | cons first rest ih =>
    rcases List.mem_cons.mp member with rfl | later
    · rw [carry_cons]
      exact contains_carry (by simp [present])
    · exact ih later (by rw [contains_follow_join, present, Bool.true_or])

theorem carry_sound {P : Nat → Terminal → Prop}
    (flowing : ∀ flow ∈ flows, ∀ t, P flow.source t → P flow.target t)
    (sound : ∀ place t, (follow sets place).contains t = true → P place t)
    (present : (follow (carry flows sets) place).contains t = true) : P place t := by
  induction flows generalizing sets with
  | nil => exact sound place t present
  | cons flow rest ih =>
    refine ih (fun other member => flowing other (List.mem_cons_of_mem _ member)) ?_ present
    intro place t present
    rw [contains_follow_join, Bool.or_eq_true, Bool.and_eq_true, decide_eq_true_eq] at present
    rcases present with before | ⟨rfl, carried⟩
    · exact sound place t before
    · exact flowing flow List.mem_cons_self t (sound flow.source t carried)

/-- How many terminals the targets of the flows do not have. -/
def missing (flows : List Flow) (sets : Table TerminalSet) : Nat :=
  (flows.map fun flow => Terminal.all.countP fun t => !(follow sets flow.target).contains t).sum

theorem missing_le : missing flows sets ≤ flows.length * Terminal.all.length := by
  unfold missing
  induction flows with
  | nil => simp
  | cons flow rest ih =>
    have := List.countP_le_length (l := Terminal.all)
      (p := fun t => !(follow sets flow.target).contains t)
    simp only [List.map_cons, List.sum_cons, List.length_cons]
    rw [Nat.add_mul]
    omega

private theorem countP_lt {p q : α → Bool} {l : List α} {a : α}
    (fewer : ∀ b ∈ l, p b = true → q b = true) (member : a ∈ l) (out : p a = false)
    (also : q a = true) : l.countP p < l.countP q := by
  induction l with
  | nil => cases member
  | cons b rest ih =>
    have less := List.countP_mono_left fun c present => fewer c (List.mem_cons_of_mem b present)
    rw [List.countP_cons, List.countP_cons]
    rcases List.mem_cons.mp member with rfl | later
    · simp [out, also]
      omega
    · have := ih (fun c present => fewer c (List.mem_cons_of_mem b present)) later
      by_cases first : p b = true
      · simp only [first, fewer b List.mem_cons_self first, if_true]
        omega
      · simp only [first, Bool.false_eq_true, if_false]
        omega

/-- A round leaves less missing, unless all flows are settled. -/
theorem missing_carry_lt (unsettled : flows.all (settled sets) = false) :
    missing flows (carry flows sets) < missing flows sets := by
  obtain ⟨flow, member, open_⟩ := List.all_eq_false.mp unsettled
  have fewer (target : Nat) : ∀ t ∈ Terminal.all,
      (!(follow (carry flows sets) target).contains t) = true →
        (!(follow sets target).contains t) = true := by
    intro t _ absent
    rw [Bool.not_eq_true'] at absent ⊢
    refine Bool.eq_false_iff.mpr fun present => ?_
    rw [contains_carry present] at absent
    cases absent
  refine List.sum_lt_sum _ _ (fun other _ => List.countP_mono_left (fewer other.target))
    ⟨flow, member, ?_⟩
  rw [settled_iff] at open_
  push Not at open_
  obtain ⟨t, carried, lacking⟩ := open_
  refine countP_lt (fewer flow.target) t.mem_all ?_ ?_
  · rw [contains_target_carry member carried]
    rfl
  · rw [Bool.eq_false_iff.mpr lacking]
    rfl

theorem contains_solve {rounds : Nat} (present : (follow sets place).contains t = true) :
    (follow (solve flows rounds sets) place).contains t = true := by
  induction rounds generalizing sets with
  | zero => exact present
  | succ rounds ih =>
    rw [solve]
    split
    · exact present
    · exact ih (contains_carry present)

theorem solve_sound {P : Nat → Terminal → Prop}
    (flowing : ∀ flow ∈ flows, ∀ t, P flow.source t → P flow.target t) {rounds : Nat}
    (sound : ∀ place t, (follow sets place).contains t = true → P place t)
    (present : (follow (solve flows rounds sets) place).contains t = true) : P place t := by
  induction rounds generalizing sets with
  | zero => exact sound place t present
  | succ rounds ih =>
    rw [solve] at present
    split at present
    · exact sound place t present
    · exact ih (fun _ _ carried => carry_sound flowing sound carried) present

/-- Rounds enough for all that is missing settle every flow. -/
theorem closed_solve {rounds : Nat} (enough : missing flows sets ≤ rounds) :
    Closed flows (solve flows rounds sets) := by
  induction rounds generalizing sets with
  | zero =>
    intro flow member t _
    rw [solve]
    by_contra absent
    have none := List.sum_eq_zero_iff_forall_eq_nat.mp (Nat.le_zero.mp enough) _
      (List.mem_map_of_mem member)
    exact List.countP_eq_zero.mp none t t.mem_all (by rw [Bool.eq_false_iff.mpr absent]; rfl)
  | succ rounds ih =>
    rw [solve]
    split
    · next settled =>
      intro flow member
      exact settled_iff.mp (List.all_eq_true.mp settled flow member)
    · next unsettled =>
      have := missing_carry_lt (Bool.eq_false_iff.mpr unsettled)
      exact ih (by omega)

private theorem contains_seeded {seeds : List (Nat × TerminalSet)} :
    (follow (seeds.foldl (fun sets (place, s) => join s place sets) sets) place).contains t
        = true ↔
      (follow sets place).contains t = true ∨
        ∃ s, (place, s) ∈ seeds ∧ s.contains t = true := by
  induction seeds generalizing sets with
  | nil => simp
  | cons seed rest ih =>
    rw [List.foldl_cons, ih, contains_follow_join, Bool.or_eq_true, Bool.and_eq_true,
      decide_eq_true_eq, or_assoc]
    refine or_congr_right ⟨?_, ?_⟩
    · rintro (⟨rfl, present⟩ | ⟨s, member, present⟩)
      · exact ⟨seed.2, List.mem_cons_self, present⟩
      · exact ⟨s, List.mem_cons_of_mem seed member, present⟩
    · rintro ⟨s, member, present⟩
      rcases List.mem_cons.mp member with rfl | later
      · exact .inl ⟨rfl, present⟩
      · exact .inr ⟨s, later, present⟩

theorem contains_solution_of_seed {e : Equations} {s : TerminalSet}
    (member : (place, s) ∈ e.seeds) (present : s.contains t = true) :
    (follow e.solution place).contains t = true :=
  contains_solve (contains_seeded.mpr (.inr ⟨s, member, present⟩))

theorem contains_solution_of_flow {e : Equations} {flow : Flow} (member : flow ∈ e.flows)
    (present : (follow e.solution flow.source).contains t = true) :
    (follow e.solution flow.target).contains t = true := by
  refine closed_solve ?_ flow (List.mem_reverse.mpr member) t present
  rw [← List.length_reverse]
  exact missing_le

/-- The solution has nothing but what the equations bring about. -/
theorem solution_sound {P : Nat → Terminal → Prop} {e : Equations}
    (seeding : ∀ place s, (place, s) ∈ e.seeds → ∀ t, s.contains t = true → P place t)
    (flowing : ∀ flow ∈ e.flows, ∀ t, P flow.source t → P flow.target t)
    (present : (follow e.solution place).contains t = true) : P place t := by
  refine solve_sound (fun flow member => flowing flow (List.mem_reverse.mp member)) ?_ present
  intro place t seeded
  rcases contains_seeded.mp seeded with nothing | ⟨s, member, here⟩
  · simp [follow] at nothing
  · exact seeding place s member t here

end Lookahead

end VyperFront
