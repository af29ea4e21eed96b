import Interleave.Proofs.Validity

set_option autoImplicit false

/-! Cycles of the order. What a sweep leaves behind are the positions that a cycle leads to, so
the check reports a cycle exactly where the order has one. The thread it names is the first
declared one that comes after a thread of a cycle, which need not be on a cycle itself. -/

namespace Interleave.Scenario

namespace Sweep

/-- A position and one that waits for it. -/
def Edge (successors : Array (List Nat)) (before after : Nat) : Prop :=
  before < successors.size ∧ after ∈ successors.getD before []

/-- A position on a cycle, or after one. -/
def Blocked (successors : Array (List Nat)) (position : Nat) : Prop :=
  ∃ looped, Relation.TransGen (Edge successors) looped looped ∧
    Relation.TransGen (Edge successors) looped position

variable {successors : Array (List Nat)} {gone : List Nat} {sweep : Sweep}

/-- What has been taken has been taken after all that leads to it, and later than that. -/
theorem Taken.not_blocked (taken : Taken successors gone) {position : Nat}
    (member : position ∈ gone) : ¬Blocked successors position := by
  obtain ⟨rank, _below, increasing⟩ := taken.exists_rank
  have upward : ∀ {before after : Nat}, Relation.TransGen (Edge successors) before after →
      after ∈ gone → before ∈ gone ∧ rank before < rank after := by
    intro before after chain
    induction chain with
    | single edge =>
        intro inside
        exact ⟨taken.predecessor_mem inside edge.1 edge.2, increasing _ inside _ edge.1 edge.2⟩
    | tail _chain edge ih =>
        intro inside
        obtain ⟨first, less⟩ := ih (taken.predecessor_mem inside edge.1 edge.2)
        exact ⟨first, less.trans (increasing _ inside _ edge.1 edge.2)⟩
  rintro ⟨looped, loop, chain⟩
  exact Nat.lt_irrefl _ (upward loop (upward chain member).1).2

/-- Where finitely many positions each have a predecessor among them, one leads back to itself:
else going back from one to the next would come to an end. -/
theorem exists_looped_of_backward (left : Set Nat) (finite : left.Finite)
    (nonempty : left.Nonempty)
    (backward : ∀ position ∈ left, ∃ before ∈ left, Edge successors before position) :
    ∃ looped ∈ left, Relation.TransGen (Edge successors) looped looped := by
  by_contra free
  have finiteType : Finite left := finite.to_subtype
  have transitive : IsTrans left (fun first second =>
      Relation.TransGen (Edge successors) first.val second.val) :=
    ⟨fun _ _ _ => Relation.TransGen.trans⟩
  have irreflexive : Std.Irrefl (fun first second : left =>
      Relation.TransGen (Edge successors) first.val second.val) :=
    ⟨fun looped loop => free ⟨looped.val, looped.property, loop⟩⟩
  have descends := Finite.wellFounded_of_trans_of_irrefl (fun first second : left =>
    Relation.TransGen (Edge successors) first.val second.val)
  obtain ⟨start, inLeft⟩ := nonempty
  obtain ⟨first, _, least⟩ := descends.has_min Set.univ ⟨⟨start, inLeft⟩, trivial⟩
  obtain ⟨before, inside, edge⟩ := backward first.val first.property
  exact least ⟨before, inside⟩ trivial (.single edge)

theorem Invariant.pending_eq_empty_iff (holds : Invariant successors gone sweep)
    (stopped : sweep.ready = []) {position : Nat} (bound : position < successors.size) :
    pending successors gone position = ∅ ↔ position ∈ gone := by
  constructor
  · intro free
    by_contra fresh
    have isReady := (holds.mem_ready position).mpr ⟨bound, fresh, free⟩
    rw [stopped] at isReady
    cases isReady
  · intro taken
    rw [Finset.eq_empty_iff_forall_notMem]
    intro before inPending
    obtain ⟨inRange, fresh, edge⟩ := (mem_pending _ _ _ _).mp inPending
    exact fresh (holds.taken.predecessor_mem taken inRange edge)

/-- What is left in the end is what a cycle leads to. -/
theorem Invariant.mem_gone_iff (holds : Invariant successors gone sweep)
    (stopped : sweep.ready = []) {position : Nat} (bound : position < successors.size) :
    position ∈ gone ↔ ¬Blocked successors position := by
  constructor
  · exact holds.taken.not_blocked
  · intro free
    by_contra fresh
    -- Going back from a position that is left never leaves what is left.
    have backward : ∀ other < successors.size, other ∉ gone →
        ∃ before, Edge successors before other ∧ before ∉ gone := by
      intro other otherBound otherFresh
      have waits : pending successors gone other ≠ ∅ := fun none =>
        otherFresh ((holds.pending_eq_empty_iff stopped otherBound).mp none)
      obtain ⟨before, inPending⟩ := Finset.nonempty_iff_ne_empty.mpr waits
      obtain ⟨inRange, beforeFresh, edge⟩ := (mem_pending _ _ _ _).mp inPending
      exact ⟨before, ⟨inRange, edge⟩, beforeFresh⟩
    obtain ⟨looped, ⟨_, _, chain⟩, loop⟩ := exists_looped_of_backward
      {other | other < successors.size ∧ other ∉ gone ∧
        Relation.ReflTransGen (Edge successors) other position}
      ((Set.finite_Iio successors.size).subset (fun other inside => inside.1))
      ⟨position, bound, fresh, .refl⟩ (by
        rintro other ⟨otherBound, otherFresh, chain⟩
        obtain ⟨before, edge, beforeFresh⟩ := backward other otherBound otherFresh
        exact ⟨before, ⟨edge.1, beforeFresh, chain.head edge⟩, edge⟩)
    exact free ⟨looped, loop, loop.trans_left chain⟩

theorem Invariant.waiting_pos_iff (holds : Invariant successors gone sweep)
    (stopped : sweep.ready = []) {position : Nat} (bound : position < successors.size) :
    0 < sweep.waiting.getD position 0 ↔ Blocked successors position := by
  rw [holds.waiting_eq position bound, Finset.card_pos, Finset.nonempty_iff_ne_empty, ne_eq,
    holds.pending_eq_empty_iff stopped bound, holds.mem_gone_iff stopped bound, not_not]

theorem Invariant.taken_eq_size_iff (holds : Invariant successors gone sweep)
    (stopped : sweep.ready = []) :
    sweep.taken = successors.size ↔
      ∀ position < successors.size, ¬Blocked successors position := by
  constructor
  · intro all position bound
    exact holds.taken.not_blocked
      (holds.taken.mem_of_size_le (by rw [← holds.taken_eq, all]) bound)
  · intro free
    have full : gone.toFinset = Finset.range successors.size := by
      ext position
      rw [List.mem_toFinset, Finset.mem_range]
      exact ⟨holds.taken.bounded position,
        fun bound => (holds.mem_gone_iff stopped bound).mpr (free position bound)⟩
    rw [holds.taken_eq, ← List.toFinset_card_of_nodup holds.taken.nodup, full,
      Finset.card_range]

end Sweep

/-! ### Threads of the order -/

def Precedes (scenario : Scenario) : Nat → Nat → Prop :=
  Relation.TransGen (fun before after => (before, after) ∈ scenario.order)

/-- A thread on a cycle of the order, or after one. -/
def Stuck (scenario : Scenario) (index : Nat) : Prop :=
  ∃ looped, scenario.Precedes looped looped ∧ scenario.Precedes looped index

variable {scenario : Scenario}

theorem edge_iff (distinct : scenario.indices.Nodup) (before after : Nat) :
    Sweep.Edge scenario.successors before after ↔
      ∃ pair ∈ scenario.order, scenario.indices[before]? = some pair.1 ∧
        scenario.indices[after]? = some pair.2 := by
  unfold Sweep.Edge
  rw [successors_size]
  constructor
  · rintro ⟨_bound, member⟩
    exact (mem_successors_iff scenario distinct before after).mp member
  · rintro ⟨pair, member, atBefore, atAfter⟩
    have bound := (List.getElem?_eq_some_iff.mp atBefore).1
    rw [indices_length] at bound
    exact ⟨bound, (mem_successors_iff scenario distinct before after).mpr
      ⟨pair, member, atBefore, atAfter⟩⟩

section

variable (distinct : scenario.indices.Nodup)
  (declared : ∀ pair ∈ scenario.order, pair.1 ∈ scenario.indices ∧ pair.2 ∈ scenario.indices)

include distinct declared

theorem transGen_edge_iff {before after first second : Nat}
    (atBefore : scenario.indices[before]? = some first)
    (atAfter : scenario.indices[after]? = some second) :
    Relation.TransGen (Sweep.Edge scenario.successors) before after ↔
      scenario.Precedes first second := by
  constructor
  · intro chain
    have indices : scenario.Precedes (scenario.indices[before]?.getD 0)
        (scenario.indices[after]?.getD 0) := by
      refine chain.lift (fun position => scenario.indices[position]?.getD 0) ?_
      intro left right edge
      obtain ⟨pair, member, atLeft, atRight⟩ := (edge_iff distinct left right).mp edge
      change (scenario.indices[left]?.getD 0, scenario.indices[right]?.getD 0) ∈ scenario.order
      rw [atLeft, atRight]
      exact member
    rw [atBefore, atAfter] at indices
    exact indices
  · intro chain
    have positions : Relation.TransGen (Sweep.Edge scenario.successors)
        ((scenario.positionOf? first).getD 0) ((scenario.positionOf? second).getD 0) := by
      refine chain.lift (fun index => (scenario.positionOf? index).getD 0) ?_
      intro left right member
      obtain ⟨leftDeclared, rightDeclared⟩ := declared _ member
      obtain ⟨leftPosition, atLeft⟩ := List.mem_iff_getElem?.mp leftDeclared
      obtain ⟨rightPosition, atRight⟩ := List.mem_iff_getElem?.mp rightDeclared
      change Sweep.Edge scenario.successors ((scenario.positionOf? left).getD 0)
        ((scenario.positionOf? right).getD 0)
      rw [(positionOf?_eq_some_iff scenario distinct _ _).mpr atLeft,
        (positionOf?_eq_some_iff scenario distinct _ _).mpr atRight]
      exact (edge_iff distinct _ _).mpr ⟨_, member, atLeft, atRight⟩
    rw [(positionOf?_eq_some_iff scenario distinct _ _).mpr atBefore,
      (positionOf?_eq_some_iff scenario distinct _ _).mpr atAfter] at positions
    exact positions

theorem blocked_iff {position index : Nat}
    (atPosition : scenario.indices[position]? = some index) :
    Sweep.Blocked scenario.successors position ↔ scenario.Stuck index := by
  constructor
  · rintro ⟨looped, loop, chain⟩
    obtain ⟨next, edge, _rest⟩ := Relation.TransGen.head'_iff.mp loop
    obtain ⟨pair, _member, atLooped, _atNext⟩ := (edge_iff distinct looped next).mp edge
    exact ⟨pair.1, (transGen_edge_iff distinct declared atLooped atLooped).mp loop,
      (transGen_edge_iff distinct declared atLooped atPosition).mp chain⟩
  · rintro ⟨looped, loop, chain⟩
    obtain ⟨next, pair, _rest⟩ := Relation.TransGen.head'_iff.mp loop
    obtain ⟨place, atPlace⟩ := List.mem_iff_getElem?.mp (declared _ pair).1
    exact ⟨place, (transGen_edge_iff distinct declared atPlace atPlace).mpr loop,
      (transGen_edge_iff distinct declared atPlace atPosition).mpr chain⟩

theorem waiting_pos_iff {position index : Nat}
    (atPosition : scenario.indices[position]? = some index) :
    0 < (Sweep.finish scenario.successors).waiting.getD position 0 ↔ scenario.Stuck index := by
  obtain ⟨gone, holds, stopped⟩ :=
    Sweep.finish_invariant scenario.successors (successors_proper scenario distinct)
  have bound := (List.getElem?_eq_some_iff.mp atPosition).1
  rw [indices_length, ← successors_size] at bound
  rw [holds.waiting_pos_iff stopped bound, blocked_iff distinct declared atPosition]

theorem taken_eq_length_iff :
    (Sweep.finish scenario.successors).taken = scenario.threads.length ↔
      ∀ index ∈ scenario.indices, ¬scenario.Stuck index := by
  obtain ⟨gone, holds, stopped⟩ :=
    Sweep.finish_invariant scenario.successors (successors_proper scenario distinct)
  rw [← successors_size, holds.taken_eq_size_iff stopped, successors_size, ← indices_length]
  constructor
  · intro free index member
    obtain ⟨position, atPosition⟩ := List.mem_iff_getElem?.mp member
    rw [← blocked_iff distinct declared atPosition]
    exact free position (List.getElem?_eq_some_iff.mp atPosition).1
  · intro free position bound
    rw [blocked_iff distinct declared (List.getElem?_eq_getElem bound)]
    exact free _ (List.getElem_mem bound)

open Classical in
theorem checkAcyclic_eq :
    scenario.checkAcyclic =
      match scenario.indices.find? (fun index => scenario.Stuck index) with
      | some index => .error (.cyclicOrder index)
      | none => .ok () := by
  have all := taken_eq_length_iff distinct declared
  cases found : scenario.indices.find? (fun index => scenario.Stuck index) with
  | none =>
      have free := all.mpr (fun index member stuck =>
        List.find?_eq_none.mp found index member (decide_eq_true stuck))
      exact if_pos free
  | some index =>
      have stuck : scenario.Stuck index := by
        have passed := List.find?_some found
        exact of_decide_eq_true passed
      have left : (Sweep.finish scenario.successors).taken ≠ scenario.threads.length :=
        fun complete => all.mp complete index (List.mem_of_find?_eq_some found) stuck
      -- The check looks for the first waiting position, and reports the index there.
      obtain ⟨_, position, bound, rfl, first⟩ := List.find?_eq_some_iff_getElem.mp found
      have waits : (List.range scenario.threads.length).find? (fun position =>
          0 < (Sweep.finish scenario.successors).waiting.getD position 0) = some position := by
        rw [List.find?_range_eq_some]
        refine ⟨decide_eq_true ((waiting_pos_iff distinct declared
          (List.getElem?_eq_getElem bound)).mpr stuck), ?_, ?_⟩
        · rw [← indices_length]
          exact List.mem_range.mpr bound
        · intro earlier before
          have free := first earlier before
          rw [Bool.not_eq_true', decide_eq_false_iff_not] at free ⊢
          rwa [waiting_pos_iff distinct declared (List.getElem?_eq_getElem (before.trans bound))]
      have index : scenario.threads[position]?.map Thread.index =
          some scenario.indices[position] := by
        rw [← List.getElem?_map]
        exact List.getElem?_eq_getElem bound
      unfold checkAcyclic
      simp only [if_neg left, waits, Option.bind_some, index, Option.getD_some]

end

/-! ### The answers -/

private theorem Stuck.exists_precedes_self {index : Nat} (stuck : scenario.Stuck index)
    (declared : ∀ pair ∈ scenario.order,
      pair.1 ∈ scenario.indices ∧ pair.2 ∈ scenario.indices) :
    ∃ looped ∈ scenario.indices, scenario.Precedes looped looped := by
  obtain ⟨looped, loop, _chain⟩ := stuck
  obtain ⟨_next, pair, _rest⟩ := Relation.TransGen.head'_iff.mp loop
  exact ⟨looped, (declared _ pair).1, loop⟩

/-- Which answer a scenario gets: shared indices come first, undeclared ends next, and a cycle
is reported exactly where the order leads from some thread back to it. -/
theorem validate_answers (scenario : Scenario) :
    ((∃ index, scenario.validate = .error (.duplicateThread index)) ↔
      ¬scenario.indices.Nodup) ∧
    ((∃ before after missing,
        scenario.validate = .error (.unknownThread before after missing)) ↔
      scenario.indices.Nodup ∧
        ∃ pair ∈ scenario.order, ¬(pair.1 ∈ scenario.indices ∧ pair.2 ∈ scenario.indices)) ∧
    ((∃ index, scenario.validate = .error (.cyclicOrder index)) ↔
      scenario.indices.Nodup ∧
        (∀ pair ∈ scenario.order, pair.1 ∈ scenario.indices ∧ pair.2 ∈ scenario.indices) ∧
        ∃ index ∈ scenario.indices, scenario.Precedes index index) ∧
    (scenario.validate = .ok () ↔
      scenario.indices.Nodup ∧
        (∀ pair ∈ scenario.order, pair.1 ∈ scenario.indices ∧ pair.2 ∈ scenario.indices) ∧
        ∀ index ∈ scenario.indices, ¬scenario.Precedes index index) := by
  classical
  rcases scenario.validate_cases with ⟨shared, index, refused⟩ |
    ⟨distinct, ⟨pair, member, undeclared⟩, before, after, missing, refused⟩ |
    ⟨distinct, declared, checked⟩
  · refine ⟨iff_of_true ⟨index, refused⟩ shared, iff_of_false ?_ (fun all => shared all.1),
      iff_of_false ?_ (fun all => shared all.1), iff_of_false ?_ (fun all => shared all.1)⟩
    all_goals simp [refused]
  · refine ⟨iff_of_false ?_ (fun shared => shared distinct),
      iff_of_true ⟨before, after, missing, refused⟩ ⟨distinct, pair, member, undeclared⟩,
      iff_of_false ?_ (fun all => undeclared (all.2.1 pair member)),
      iff_of_false ?_ (fun all => undeclared (all.2.1 pair member))⟩
    all_goals simp [refused]
  · rw [checkAcyclic_eq distinct declared] at checked
    have named : ¬∃ pair ∈ scenario.order,
        ¬(pair.1 ∈ scenario.indices ∧ pair.2 ∈ scenario.indices) :=
      fun ⟨pair, member, undeclared⟩ => undeclared (declared pair member)
    cases found : scenario.indices.find? (fun index => scenario.Stuck index) with
    | some index =>
        rw [found] at checked
        have stuck : scenario.Stuck index := by
          have passed := List.find?_some found
          exact of_decide_eq_true passed
        obtain ⟨looped, inIndices, loop⟩ := stuck.exists_precedes_self declared
        refine ⟨iff_of_false ?_ (fun shared => shared distinct),
          iff_of_false ?_ (fun all => named all.2),
          iff_of_true ⟨index, checked⟩ ⟨distinct, declared, looped, inIndices, loop⟩,
          iff_of_false ?_ (fun all => all.2.2 looped inIndices loop)⟩
        all_goals simp [checked]
    | none =>
        rw [found] at checked
        have acyclic : ∀ index ∈ scenario.indices, ¬scenario.Precedes index index := by
          intro index member loop
          exact List.find?_eq_none.mp found index member (decide_eq_true ⟨index, loop, loop⟩)
        refine ⟨iff_of_false ?_ (fun shared => shared distinct),
          iff_of_false ?_ (fun all => named all.2),
          iff_of_false ?_ (fun ⟨_, _, looped, inIndices, loop⟩ =>
            acyclic looped inIndices loop),
          iff_of_true checked ⟨distinct, declared, acyclic⟩⟩
        all_goals simp [checked]

/-- The thread that is reported for a cycle is the first declared one that is on a cycle or
after one. -/
theorem validate_eq_cyclicOrder_iff (scenario : Scenario) (index : Nat) :
    scenario.validate = .error (.cyclicOrder index) ↔
      scenario.indices.Nodup ∧
      (∀ pair ∈ scenario.order, pair.1 ∈ scenario.indices ∧ pair.2 ∈ scenario.indices) ∧
      ∃ earlier later, scenario.indices = earlier ++ index :: later ∧
        scenario.Stuck index ∧ ∀ other ∈ earlier, ¬scenario.Stuck other := by
  classical
  rcases scenario.validate_cases with ⟨shared, _, refused⟩ |
    ⟨_, ⟨pair, member, undeclared⟩, _, _, _, refused⟩ | ⟨distinct, declared, checked⟩
  · exact iff_of_false (by simp [refused]) (fun all => shared all.1)
  · exact iff_of_false (by simp [refused]) (fun all => undeclared (all.2.1 pair member))
  · have first : (∃ earlier later, scenario.indices = earlier ++ index :: later ∧
        scenario.Stuck index ∧ ∀ other ∈ earlier, ¬scenario.Stuck other) ↔
          scenario.indices.find? (fun index => scenario.Stuck index) = some index := by
      rw [List.find?_eq_some_iff_append]
      simp only [decide_eq_true_eq, Bool.not_eq_true', decide_eq_false_iff_not]
      constructor
      · rintro ⟨earlier, later, split, stuck, free⟩
        exact ⟨stuck, earlier, later, split, free⟩
      · rintro ⟨stuck, earlier, later, split, free⟩
        exact ⟨earlier, later, split, stuck, free⟩
    rw [first, checked, checkAcyclic_eq distinct declared]
    simp only [distinct, true_and, and_iff_right declared]
    cases scenario.indices.find? (fun index => scenario.Stuck index) with
    | some reported => simp
    | none => simp

/-- A thread ordered before itself, and declared ahead of it one that is ordered after it. -/
def followerDocument : Members Json :=
  [("sequences", .array [.object [("index", .natural 1)], .object [("index", .natural 0)]]),
    ("order", .array [.array [.natural 0, .natural 0], .array [.natural 0, .natural 1]])]

def followerScenario : Scenario :=
  { Scenario.empty with
    threads := [⟨1, []⟩, ⟨0, []⟩]
    order := [(0, 0), (0, 1)] }

/-- The follower is reported, and does not come before itself. -/
theorem validate_eq_cyclicOrder_iff_follower :
    Scenario.read followerDocument = .error (.cyclicOrder 1) ∧
    followerScenario.validate = .error (.cyclicOrder 1) ∧
    followerScenario.Stuck 1 ∧ ¬followerScenario.Precedes 1 1 ∧
    followerScenario.Precedes 0 0 := by
  have refused : followerScenario.validate = .error (.cyclicOrder 1) := by rfl
  obtain ⟨_, _, _, _, _, stuck, _⟩ := (validate_eq_cyclicOrder_iff followerScenario 1).mp refused
  refine ⟨by rfl, refused, stuck, ?_, .single (by decide)⟩
  intro loop
  obtain ⟨next, pair, _rest⟩ := Relation.TransGen.head'_iff.mp loop
  simp [followerScenario] at pair

end Interleave.Scenario
