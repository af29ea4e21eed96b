import Mathlib
import Interleave.Linearization.Search

set_option autoImplicit false

/-! Walks over a plan: words of positions, latest first, in which every step advances a
position that may advance. The maximal walks from a given one are listed in the order in
which their positions are tried. -/

namespace Interleave.Plan

variable (plan : Plan)

def bodyLength (position : Nat) : Nat := (Search.body plan position).size

/-- All calls at a position are in the word. -/
def Finished (choices : List Nat) (position : Nat) : Prop :=
  choices.count position = plan.bodyLength position

def Enabled (choices : List Nat) (position : Nat) : Prop :=
  choices.count position < plan.bodyLength position ∧
    ∀ before ∈ plan.predecessors.getD position [], plan.Finished choices before

instance decidableFinished (choices : List Nat) (position : Nat) :
    Decidable (plan.Finished choices position) :=
  inferInstanceAs (Decidable (_ = _))

instance decidableEnabled (choices : List Nat) (position : Nat) :
    Decidable (plan.Enabled choices position) :=
  inferInstanceAs (Decidable (_ ∧ _))

inductive Walk : List Nat → Prop where
  | start : Walk []
  | advance {choices : List Nat} {position : Nat} (earlier : Walk choices)
      (enabled : plan.Enabled choices position) : Walk (position :: choices)

def Maximal (choices : List Nat) : Prop := ∀ position, ¬plan.Enabled choices position

def total : Nat := (plan.bodies.map Array.size).sum

def nexts (choices : List Nat) (first : Nat) : List Nat :=
  (List.range' first (plan.bodies.size - first)).filter (fun position =>
    plan.Enabled choices position)

/-- The maximal walks from a walk that is at most `room` steps short of its end. -/
def leaves : (room : Nat) → (choices : List Nat) → List (List Nat)
  | 0, choices => [choices]
  | room + 1, choices =>
      if plan.nexts choices 0 = [] then [choices]
      else (plan.nexts choices 0).flatMap (fun position => leaves room (position :: choices))

variable {plan}

/-! ### Bounds -/

theorem Enabled.bounded {choices : List Nat} {position : Nat}
    (enabled : plan.Enabled choices position) : position < plan.bodies.size := by
  by_contra outside
  have empty : plan.bodyLength position = 0 := by
    simp only [bodyLength, Search.body, Array.getD_eq_getD_getElem?]
    rw [Array.getElem?_eq_none (by omega)]
    rfl
  have room := enabled.1
  rw [empty] at room
  exact Nat.not_lt_zero _ room

theorem Walk.count_le {choices : List Nat} (walk : plan.Walk choices) (position : Nat) :
    choices.count position ≤ plan.bodyLength position := by
  induction walk with
  | start => exact Nat.zero_le _
  | @advance choices latest _earlier enabled ih =>
      rw [List.count_cons]
      by_cases same : latest = position
      · subst same
        rw [beq_self_eq_true, if_pos rfl]
        exact enabled.1
      · rw [if_neg (by simpa using same)]
        exact ih

theorem Walk.bounded {choices : List Nat} (walk : plan.Walk choices) :
    ∀ position ∈ choices, position < plan.bodies.size := by
  induction walk with
  | start =>
      intro position impossible
      cases impossible
  | advance _earlier enabled ih =>
      intro position member
      rcases List.mem_cons.mp member with rfl | later
      · exact enabled.bounded
      · exact ih position later

theorem Walk.of_append {later choices : List Nat} (walk : plan.Walk (later ++ choices)) :
    plan.Walk choices := by
  induction later with
  | nil => exact walk
  | cons latest later ih =>
      cases walk with
      | advance earlier _enabled => exact ih earlier

theorem Walk.enabled_of_cons {choices : List Nat} {position : Nat}
    (walk : plan.Walk (position :: choices)) : plan.Enabled choices position := by
  cases walk with
  | advance _earlier enabled => exact enabled

theorem total_eq_sum : plan.total = ∑ position ∈ Finset.range plan.bodies.size,
    plan.bodyLength position := by
  have listed : (plan.bodies.map Array.size).toList =
      (List.range plan.bodies.size).map plan.bodyLength := by
    apply List.ext_getElem
    · simp
    · intro position left _right
      simp only [Array.length_toList, Array.size_map] at left
      simp [bodyLength, Search.body, Array.getD_eq_getD_getElem?, left]
  rw [total, ← Array.sum_toList, listed, Finset.sum_range, ← List.sum_ofFn]
  congr 1
  apply List.ext_getElem <;> simp

theorem Walk.length_eq_sum {choices : List Nat} (walk : plan.Walk choices) :
    choices.length = ∑ position ∈ Finset.range plan.bodies.size, choices.count position := by
  rw [← List.sum_toFinset_count_eq_length]
  apply Finset.sum_subset
  · intro position member
    exact Finset.mem_range.mpr (walk.bounded position (List.mem_toFinset.mp member))
  · intro position _inRange absent
    exact List.count_eq_zero.mpr (fun member => absent (List.mem_toFinset.mpr member))

theorem Walk.length_le {choices : List Nat} (walk : plan.Walk choices) :
    choices.length ≤ plan.total := by
  rw [walk.length_eq_sum, total_eq_sum]
  exact Finset.sum_le_sum (fun position _inRange => walk.count_le position)

theorem Walk.length_lt {choices : List Nat} {position : Nat} (walk : plan.Walk choices)
    (enabled : plan.Enabled choices position) : choices.length < plan.total :=
  (Walk.advance walk enabled).length_le

/-! ### What may advance -/

theorem mem_nexts {choices : List Nat} {first position : Nat} :
    position ∈ plan.nexts choices first ↔ first ≤ position ∧ plan.Enabled choices position := by
  rw [nexts, List.mem_filter, List.mem_range'_1, decide_eq_true_eq]
  constructor
  · rintro ⟨range, enabled⟩
    exact ⟨range.1, enabled⟩
  · rintro ⟨above, enabled⟩
    have bound := enabled.bounded
    exact ⟨by omega, enabled⟩

theorem nexts_eq_nil_iff {choices : List Nat} {first : Nat} :
    plan.nexts choices first = [] ↔ ∀ position, first ≤ position →
      ¬plan.Enabled choices position := by
  rw [List.eq_nil_iff_forall_not_mem]
  constructor
  · intro none position above enabled
    exact none position (mem_nexts.mpr ⟨above, enabled⟩)
  · intro none position member
    exact none position (mem_nexts.mp member).1 (mem_nexts.mp member).2

theorem maximal_iff {choices : List Nat} :
    plan.Maximal choices ↔ plan.nexts choices 0 = [] := by
  rw [nexts_eq_nil_iff]
  exact ⟨fun maximal position _above => maximal position,
    fun none position => none position (Nat.zero_le _)⟩

theorem nexts_sorted (choices : List Nat) (first : Nat) :
    (plan.nexts choices first).Pairwise (· < ·) := by
  apply List.Pairwise.filter
  exact List.pairwise_lt_range'

/-- After the first position that may advance come those that the rest of the positions hold. -/
theorem nexts_tail {choices : List Nat} {first position : Nat} {rest : List Nat}
    (found : plan.nexts choices first = position :: rest) :
    rest = plan.nexts choices (position + 1) := by
  have sorted : (plan.nexts choices first).Pairwise (· < ·) := nexts_sorted choices first
  rw [found, List.pairwise_cons] at sorted
  apply List.Pairwise.eq_of_mem_iff sorted.2 (nexts_sorted choices (position + 1))
  intro other
  have listed : other ∈ plan.nexts choices first ↔ other = position ∨ other ∈ rest := by
    rw [found, List.mem_cons]
  rw [mem_nexts] at listed ⊢
  have here : first ≤ position ∧ plan.Enabled choices position :=
    mem_nexts.mp (by rw [found]; exact List.mem_cons_self)
  constructor
  · intro member
    have later := sorted.1 other member
    exact ⟨later, (listed.mpr (Or.inr member)).2⟩
  · rintro ⟨above, enabled⟩
    rcases listed.mp ⟨by omega, enabled⟩ with same | member
    · omega
    · exact member

/-! ### Leaves -/

/-- With room to spare only where a position may advance, a walk is a leaf or its leaves are
those of its successors. -/
theorem leaves_eq {choices : List Nat} (walk : plan.Walk choices) :
    plan.leaves (plan.total - choices.length) choices =
      (if plan.nexts choices 0 = [] then [choices] else []) ++
        (plan.nexts choices 0).flatMap (fun position =>
          plan.leaves (plan.total - (choices.length + 1)) (position :: choices)) := by
  by_cases none : plan.nexts choices 0 = []
  · rw [if_pos none, none, List.flatMap_nil, List.append_nil]
    cases plan.total - choices.length with
    | zero => rfl
    | succ room =>
        unfold leaves
        rw [if_pos none]
  · obtain ⟨position, member⟩ := List.exists_mem_of_ne_nil _ none
    have space := walk.length_lt (mem_nexts.mp member).2
    have room : plan.total - choices.length = plan.total - (choices.length + 1) + 1 := by omega
    rw [if_neg none, List.nil_append, room]
    conv_lhs => unfold leaves
    rw [if_neg none]

/-- The leaves of a walk are exactly the maximal walks that go on from it. -/
theorem mem_leaves_iff {choices word : List Nat} (walk : plan.Walk choices) :
    word ∈ plan.leaves (plan.total - choices.length) choices ↔
      plan.Walk word ∧ plan.Maximal word ∧ choices <:+ word := by
  generalize depth : plan.total - choices.length = room
  induction room generalizing choices with
  | zero =>
      have none : plan.nexts choices 0 = [] := by
        rw [nexts_eq_nil_iff]
        intro position _above enabled
        have space := walk.length_lt enabled
        omega
      rw [leaves, List.mem_singleton]
      constructor
      · rintro rfl
        exact ⟨walk, maximal_iff.mpr none, List.suffix_refl _⟩
      · rintro ⟨wordWalk, _maximal, later, rfl⟩
        have bound := wordWalk.length_le
        have short := walk.length_le
        rw [List.length_append] at bound
        rw [List.eq_nil_of_length_eq_zero (by omega : later.length = 0), List.nil_append]
  | succ room ih =>
      rw [← depth, leaves_eq walk, List.mem_append, List.mem_flatMap]
      have deeper : plan.total - (choices.length + 1) = room := by omega
      rw [deeper]
      constructor
      · rintro (leaf | ⟨position, member, inside⟩)
        · split at leaf
          · rename_i none
            rw [List.mem_singleton] at leaf
            subst leaf
            exact ⟨walk, maximal_iff.mpr none, List.suffix_refl _⟩
          · cases leaf
        · have enabled := (mem_nexts.mp member).2
          obtain ⟨wordWalk, maximal, continued⟩ := (ih (walk.advance enabled)
            (by rw [List.length_cons]; exact deeper)).mp inside
          exact ⟨wordWalk, maximal, (List.suffix_cons position choices).trans continued⟩
      · rintro ⟨wordWalk, maximal, later, rfl⟩
        rcases List.eq_nil_or_concat later with rfl | ⟨before, position, rfl⟩
        · left
          rw [List.nil_append] at maximal ⊢
          rw [if_pos (maximal_iff.mp maximal)]
          exact List.mem_singleton_self choices
        · right
          have split : before.concat position ++ choices = before ++ position :: choices :=
            List.concat_append
          have along := wordWalk
          rw [split] at along
          have enabled := (Walk.of_append along).enabled_of_cons
          refine ⟨position, mem_nexts.mpr ⟨Nat.zero_le _, enabled⟩, ?_⟩
          exact (ih (walk.advance enabled) (by rw [List.length_cons]; exact deeper)).mpr
            ⟨wordWalk, maximal, before, split.symm⟩

theorem Walk.exists_completion {choices : List Nat} (walk : plan.Walk choices) :
    ∃ later, plan.Walk (later ++ choices) ∧ plan.Maximal (later ++ choices) := by
  generalize depth : plan.total - choices.length = room
  induction room generalizing choices with
  | zero =>
      refine ⟨[], walk, ?_⟩
      intro position enabled
      have space := walk.length_lt enabled
      omega
  | succ room ih =>
      by_cases maximal : plan.Maximal choices
      · exact ⟨[], walk, maximal⟩
      · obtain ⟨position, enabled⟩ := not_forall_not.mp maximal
        obtain ⟨later, complete⟩ := ih (walk.advance enabled)
          (by rw [List.length_cons]; omega)
        refine ⟨later ++ [position], ?_⟩
        rw [List.append_assoc, List.singleton_append]
        exact complete

/-- Leaves come in the lexicographic order of their words, read from the first choice on. -/
theorem leaves_sorted {choices : List Nat} (walk : plan.Walk choices) :
    (plan.leaves (plan.total - choices.length) choices).Pairwise (fun left right =>
      left.reverse < right.reverse) := by
  generalize depth : plan.total - choices.length = room
  induction room generalizing choices with
  | zero => exact List.pairwise_singleton _ _
  | succ room ih =>
      have deeper : plan.total - (choices.length + 1) = room := by omega
      rw [← depth, leaves_eq walk, deeper]
      by_cases none : plan.nexts choices 0 = []
      · rw [if_pos none, none, List.flatMap_nil, List.append_nil]
        exact List.pairwise_singleton _ _
      · rw [if_neg none, List.nil_append, List.pairwise_flatMap]
        constructor
        · intro position member
          exact ih (walk.advance (mem_nexts.mp member).2)
            (by rw [List.length_cons]; exact deeper)
        · apply (nexts_sorted choices 0).imp_of_mem
          intro left right leftMember rightMember less leftWord leftLeaf rightWord rightLeaf
          have leftWalk := walk.advance (mem_nexts.mp leftMember).2
          have rightWalk := walk.advance (mem_nexts.mp rightMember).2
          rw [← deeper] at leftLeaf rightLeaf
          obtain ⟨_, _, leftLater, rfl⟩ := (mem_leaves_iff leftWalk).mp leftLeaf
          obtain ⟨_, _, rightLater, rfl⟩ := (mem_leaves_iff rightWalk).mp rightLeaf
          rw [List.reverse_append, List.reverse_append, List.reverse_cons, List.reverse_cons,
            List.append_assoc, List.append_assoc]
          apply List.append_left_lt
          rw [List.singleton_append, List.singleton_append]
          exact List.cons_lt_cons_iff.mpr (Or.inl less)

end Interleave.Plan
