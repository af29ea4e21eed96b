import Mathlib
import Interleave.Enumeration

set_option autoImplicit false

/-! Choices, each made once: one element of every list, and slots for every thread. Lists of
choices have no duplicates because a key of each member tells where it was made. -/

namespace Interleave.Enumeration

variable {α β γ : Type}

/-- Blocks of a list do not meet when the members of each show another key. -/
theorem nodup_flatMap_of_key {items : List α} {block : α → List β} (key : β → γ) (mark : α → γ)
    (distinct : (items.map mark).Nodup) (each : ∀ item ∈ items, (block item).Nodup)
    (shows : ∀ item ∈ items, ∀ member ∈ block item, key member = mark item) :
    (items.flatMap block).Nodup := by
  rw [List.nodup_flatMap]
  refine ⟨each, ?_⟩
  have marks := List.pairwise_map.mp distinct
  apply marks.imp_of_mem
  intro left right inLeft inRight different member atLeft atRight
  exact different ((shows left inLeft member atLeft).symm.trans
    (shows right inRight member atRight))

/-! ### One element of each list -/

private theorem product_from (choices : List (List α)) (chosen : List (List α)) :
    choices.foldl (fun chosen options =>
        chosen.flatMap (fun before => options.map (fun option => before ++ [option]))) chosen =
      chosen.flatMap (fun before => (product choices).map (before ++ ·)) := by
  unfold product
  induction choices generalizing chosen with
  | nil => simp
  | cons options choices ih =>
      rw [List.foldl_cons, List.foldl_cons, ih, ih ([[]].flatMap _)]
      simp only [List.flatMap_assoc, List.flatMap_map, List.map_flatMap, List.map_map,
        List.flatMap_singleton, List.nil_append, Function.comp_def, List.append_assoc]

theorem product_cons (options : List α) (choices : List (List α)) :
    product (options :: choices) =
      options.flatMap (fun option => (product choices).map (option :: ·)) := by
  have started := product_from choices (options.map (fun option => [option]))
  rw [List.flatMap_map] at started
  unfold product at started ⊢
  rw [List.foldl_cons, List.flatMap_singleton]
  exact started

theorem mem_product {choices : List (List α)} {chosen : List α} :
    chosen ∈ product choices ↔ List.Forall₂ (· ∈ ·) chosen choices := by
  induction choices generalizing chosen with
  | nil =>
      rw [List.forall₂_nil_right_iff]
      exact List.mem_singleton
  | cons options choices ih =>
      rw [product_cons, List.mem_flatMap, List.forall₂_cons_right_iff]
      constructor
      · intro given
        obtain ⟨option, inOptions, member⟩ := given
        obtain ⟨rest, inRest, rfl⟩ := List.mem_map.mp member
        exact ⟨option, rest, inOptions, ih.mp inRest, rfl⟩
      · intro given
        obtain ⟨option, rest, inOptions, related, rfl⟩ := given
        exact ⟨option, inOptions, List.mem_map.mpr ⟨rest, ih.mpr related, rfl⟩⟩

theorem nodup_product {choices : List (List α)} (distinct : ∀ options ∈ choices, options.Nodup) :
    (product choices).Nodup := by
  induction choices with
  | nil => exact List.nodup_singleton []
  | cons options choices ih =>
      have rest := ih (fun other member => distinct other (List.mem_cons_of_mem _ member))
      rw [product_cons]
      apply nodup_flatMap_of_key List.head? some
      · exact (distinct options List.mem_cons_self).map (Option.some_injective α)
      · intro option _
        exact rest.map (List.cons_injective)
      · intro option _ member inBlock
        obtain ⟨rest, _, rfl⟩ := List.mem_map.mp inBlock
        rfl

theorem forall₂_replicate {related : α → β → Prop} {count : Nat} {value : β} {items : List α} :
    List.Forall₂ related items (List.replicate count value) ↔
      items.length = count ∧ ∀ item ∈ items, related item value := by
  induction count generalizing items with
  | zero =>
      rw [List.replicate_zero, List.forall₂_nil_right_iff, List.length_eq_zero_iff]
      constructor
      · intro same
        subst same
        exact ⟨rfl, fun _ absent => absurd absent List.not_mem_nil⟩
      · exact fun both => both.1
  | succ count ih =>
      rw [List.replicate_succ, List.forall₂_cons_right_iff]
      constructor
      · intro given
        obtain ⟨item, rest, first, later, rfl⟩ := given
        obtain ⟨length, each⟩ := ih.mp later
        exact ⟨by rw [List.length_cons, length], List.forall_mem_cons.mpr ⟨first, each⟩⟩
      · intro given
        obtain ⟨length, each⟩ := given
        obtain ⟨item, rest, rfl⟩ := List.exists_cons_of_length_eq_add_one length
        obtain ⟨first, later⟩ := List.forall_mem_cons.mp each
        exact ⟨item, rest, first, ih.mpr ⟨Nat.succ.inj length, later⟩, rfl⟩

private theorem replicate_forall₂ {related : β → α → Prop} {count : Nat} {value : β}
    {items : List α} :
    List.Forall₂ related (List.replicate count value) items ↔
      items.length = count ∧ ∀ item ∈ items, related value item :=
  ⟨fun all => forall₂_replicate.mp (List.Forall₂.flip all),
    fun each => (forall₂_replicate.mpr each).flip⟩

/-! ### Slots for every thread -/

/-- The distributions that come of placing so many more slots, none of them in a thread before
`first`. -/
def placements : (left first : Nat) → (counts : List Nat) → List (List Nat)
  | 0, _, counts => [counts]
  | left + 1, first, counts =>
      (List.range' first (counts.length - first)).flatMap
        (fun thread => placements left thread (counts.modify thread (· + 1)))

private theorem raise_lower (counts : List Nat) (thread : Nat) :
    (counts.modify thread (· + 1)).modify thread (· - 1) = counts := by
  rw [List.modify_modify_eq]
  exact List.modify_id thread counts

/-- Placing finds them in order, latest first, and leaves the counts as they were. -/
theorem place_eq (left first : Nat) (placing : Placing) :
    placing.place left first =
      ⟨placing.counts, (placements left first placing.counts).reverse ++ placing.found⟩ := by
  induction left generalizing first placing with
  | zero => rfl
  | succ left ih =>
      -- The counts are the same before every thread of the fold, since each slot is taken back.
      have fold : ∀ (threads : List Nat) (placing : Placing),
          threads.foldl (fun placing thread =>
              (Placing.place left thread (placing.raise thread)).lower thread) placing =
            ⟨placing.counts, (threads.flatMap (fun thread => placements left thread
              (placing.counts.modify thread (· + 1)))).reverse ++ placing.found⟩ := by
        intro threads
        induction threads with
        | nil => exact fun _ => rfl
        | cons thread threads later =>
            intro placing
            rw [List.foldl_cons, ih, later]
            unfold Placing.raise Placing.lower
            dsimp only
            rw [raise_lower, List.flatMap_cons, List.reverse_append, List.append_assoc]
      unfold Placing.place placements
      exact fold _ placing

private theorem placements_skip (left first count : Nat) (counts : List Nat) :
    placements left (first + 1) (count :: counts) =
      (placements left first counts).map (count :: ·) := by
  induction left generalizing first counts with
  | zero => rfl
  | succ left ih =>
      have threads : List.range' (first + 1) (counts.length + 1 - (first + 1)) =
          (List.range' first (counts.length - first)).map (· + 1) := by
        rw [Nat.add_sub_add_right, List.range'_succ_left]
      unfold placements
      rw [List.length_cons, threads, List.flatMap_map, List.map_flatMap]
      apply List.flatMap_congr
      intro thread _
      rw [List.modify_succ_cons, ih]

/-- The first thread takes one more slot, or it takes none of those that are left. -/
theorem placements_cons (left count : Nat) (counts : List Nat) :
    placements (left + 1) 0 (count :: counts) =
      placements left 0 ((count + 1) :: counts) ++
        (placements (left + 1) 0 counts).map (count :: ·) := by
  rw [← placements_skip]
  conv_lhs => unfold placements
  rw [List.length_cons, Nat.sub_zero, List.range'_succ, List.flatMap_cons]
  rfl

private theorem eq_of_le_of_sum_eq {counts shape : List Nat}
    (le : List.Forall₂ (· ≤ ·) counts shape) (same : shape.sum = counts.sum) : shape = counts := by
  induction le with
  | nil => rfl
  | @cons count slots counts shape first rest ih =>
      have more := rest.sum_le_sum
      rw [List.sum_cons, List.sum_cons] at same
      have head : slots = count := by omega
      rw [head, ih (by omega)]

private theorem mem_placements {left : Nat} {counts shape : List Nat} :
    shape ∈ placements left 0 counts ↔
      List.Forall₂ (· ≤ ·) counts shape ∧ shape.sum = counts.sum + left := by
  induction left generalizing counts shape with
  | zero =>
      unfold placements
      rw [List.mem_singleton, Nat.add_zero]
      constructor
      · intro same
        subst same
        exact ⟨List.forall₂_refl shape, rfl⟩
      · exact fun both => eq_of_le_of_sum_eq both.1 both.2
  | succ left ih =>
      -- The first thread takes a slot more, with one slot less to place, or it is left alone, with
      -- one thread less to place it in.
      induction counts generalizing shape with
      | nil =>
          rw [List.forall₂_nil_left_iff]
          constructor
          · exact fun absent => absurd absent List.not_mem_nil
          · intro given
            obtain ⟨rfl, impossible⟩ := given
            exact absurd impossible (by rw [List.sum_nil]; omega)
      | cons count counts later =>
          rw [placements_cons, List.mem_append, List.mem_map, ih, List.forall₂_cons_left_iff,
            List.forall₂_cons_left_iff, List.sum_cons, List.sum_cons]
          constructor
          · intro given
            rcases given with ⟨⟨slots, shape, more, rest, rfl⟩, same⟩ | ⟨shape, member, rfl⟩
            · exact ⟨⟨slots, shape, by omega, rest, rfl⟩, by omega⟩
            · obtain ⟨rest, same⟩ := later.mp member
              exact ⟨⟨count, shape, Nat.le_refl count, rest, rfl⟩, by rw [List.sum_cons]; omega⟩
          · intro given
            obtain ⟨⟨slots, shape, least, rest, rfl⟩, same⟩ := given
            rw [List.sum_cons] at same
            rcases Nat.lt_or_eq_of_le least with more | rfl
            · exact Or.inl ⟨⟨slots, shape, more, rest, rfl⟩, by rw [List.sum_cons]; omega⟩
            · exact Or.inr ⟨shape, later.mpr ⟨rest, by omega⟩, rfl⟩

private theorem nodup_placements (left : Nat) (counts : List Nat) :
    (placements left 0 counts).Nodup := by
  induction left generalizing counts with
  | zero => exact List.nodup_singleton counts
  | succ left ih =>
      induction counts with
      | nil => exact List.nodup_nil
      | cons count counts later =>
          rw [placements_cons, List.nodup_append]
          refine ⟨ih _, later.map List.cons_injective, ?_⟩
          intro more inMore same inSame
          obtain ⟨shape, _, rfl⟩ := List.mem_map.mp inSame
          intro equal
          subst equal
          obtain ⟨le, _⟩ := mem_placements.mp inMore
          have least := (List.forall₂_cons.mp le).1
          omega

theorem slotShapes_eq (threads extra : Nat) :
    slotShapes threads extra = placements extra 0 (List.replicate threads 1) := by
  unfold slotShapes
  rw [place_eq, List.append_nil, List.reverse_reverse]

/-- Every composition of the slots into positive numbers, one for each thread. -/
theorem mem_slotShapes {threads extra : Nat} {shape : List Nat} :
    shape ∈ slotShapes threads extra ↔
      shape.length = threads ∧ (∀ slots ∈ shape, 0 < slots) ∧ shape.sum = threads + extra := by
  rw [slotShapes_eq, mem_placements, replicate_forall₂, List.sum_replicate, and_assoc]
  simp only [smul_eq_mul, mul_one, Nat.lt_iff_add_one_le, Nat.zero_add]

theorem nodup_slotShapes (threads extra : Nat) : (slotShapes threads extra).Nodup := by
  rw [slotShapes_eq]
  exact nodup_placements extra _

/-! ### Methods for all slots -/

private theorem insertIdx_length (before after : List α) (item : α) :
    (before ++ after).insertIdx before.length item = before ++ item :: after := by
  induction before with
  | nil => rfl
  | cons first before ih =>
      rw [List.cons_append, List.length_cons, List.insertIdx_succ_cons, ih, List.cons_append]

variable {trusted : List MethodSpec} {target : MethodSpec} {calls : Nat}

theorem map_range_if (slot rest : Nat) (early late : α) :
    (List.range (slot + rest)).map (fun place => if place < slot then early else late) =
      List.replicate slot early ++ List.replicate rest late := by
  rw [List.range_add, List.map_append, List.map_map]
  congr 1
  · refine List.eq_replicate_iff.mpr ⟨by rw [List.length_map, List.length_range], ?_⟩
    intro value member
    obtain ⟨place, inRange, rfl⟩ := List.mem_map.mp member
    exact if_pos (List.mem_range.mp inRange)
  · refine List.eq_replicate_iff.mpr ⟨by rw [List.length_map, List.length_range], ?_⟩
    intro value member
    obtain ⟨place, _, rfl⟩ := List.mem_map.mp member
    exact if_neg (Nat.not_lt.mpr (Nat.le_add_right slot place))

private theorem mem_fillings {slot rest : Nat} {filling : List MethodSpec} :
    filling ∈ fillings trusted target (slot + rest + 1) slot ↔
      ∃ before after, filling = before ++ after ∧ before.length = slot ∧ after.length = rest ∧
        (∀ method ∈ before, method ∈ trusted ∧ method.name ≠ target.name) ∧
        ∀ method ∈ after, method ∈ trusted := by
  unfold fillings
  dsimp only
  rw [Nat.add_sub_cancel, map_range_if, mem_product]
  have others : ∀ method, method ∈ trusted.filter (fun method => method.name != target.name) ↔
      method ∈ trusted ∧ method.name ≠ target.name := by
    intro method
    rw [List.mem_filter, bne_iff_ne]
  constructor
  · intro chosen
    have early := List.forall₂_take_append _ _ _ chosen
    have late := List.forall₂_drop_append _ _ _ chosen
    obtain ⟨beforeLength, beforeAll⟩ := forall₂_replicate.mp early
    obtain ⟨afterLength, afterAll⟩ := forall₂_replicate.mp late
    exact ⟨_, _, (List.take_append_drop _ filling).symm, beforeLength, afterLength,
      fun method member => (others method).mp (beforeAll method member), afterAll⟩
  · intro given
    obtain ⟨before, after, rfl, beforeLength, afterLength, beforeAll, afterAll⟩ := given
    apply List.rel_append
    · exact forall₂_replicate.mpr ⟨beforeLength,
        fun method member => (others method).mpr (beforeAll method member)⟩
    · exact forall₂_replicate.mpr ⟨afterLength, afterAll⟩

/-- The target is the first method of its name, and the others are trusted. -/
theorem mem_methodChoices {methods : List MethodSpec} :
    methods ∈ methodChoices trusted target calls ↔
      methods.length = calls ∧
        ∃ before after, methods = before ++ target :: after ∧
          (∀ method ∈ before, method ∈ trusted ∧ method.name ≠ target.name) ∧
          ∀ method ∈ after, method ∈ trusted := by
  unfold methodChoices
  rw [List.mem_flatMap]
  constructor
  · intro given
    obtain ⟨slot, inRange, member⟩ := given
    obtain ⟨filling, chosen, rfl⟩ := List.mem_map.mp member
    obtain ⟨rest, rfl⟩ := Nat.exists_eq_add_of_lt (List.mem_range.mp inRange)
    obtain ⟨before, after, rfl, rfl, rfl, early, late⟩ := mem_fillings.mp chosen
    rw [insertIdx_length]
    refine ⟨?_, before, after, rfl, early, late⟩
    rw [List.length_append, List.length_cons, Nat.add_assoc]
  · intro given
    obtain ⟨rfl, before, after, rfl, early, late⟩ := given
    have length : (before ++ target :: after).length = before.length + after.length + 1 := by
      rw [List.length_append, List.length_cons, Nat.add_assoc]
    rw [length]
    refine ⟨before.length, List.mem_range.mpr (by omega), List.mem_map.mpr ?_⟩
    exact ⟨before ++ after, mem_fillings.mpr ⟨before, after, rfl, rfl, rfl, early, late⟩,
      insertIdx_length before after target⟩

theorem mem_of_methodChoices {methods : List MethodSpec}
    (inChoices : methods ∈ methodChoices trusted target calls) :
    ∀ method ∈ methods, method ∈ target :: trusted := by
  obtain ⟨_, before, after, rfl, early, late⟩ := mem_methodChoices.mp inChoices
  intro method member
  rcases List.mem_append.mp member with first | rest
  · exact List.mem_cons_of_mem _ (early method first).1
  · rcases List.mem_cons.mp rest with rfl | last
    · exact List.mem_cons_self
    · exact List.mem_cons_of_mem _ (late method last)

private theorem nodup_fillings (distinct : trusted.Nodup) (slot : Nat) :
    (fillings trusted target calls slot).Nodup := by
  apply nodup_product
  intro options member
  obtain ⟨place, _, rfl⟩ := List.mem_map.mp member
  split
  · exact distinct.filter _
  · exact distinct

/-- Where the target stands first tells the slot it was put in. -/
theorem nodup_methodChoices (distinct : trusted.Nodup) :
    (methodChoices trusted target calls).Nodup := by
  apply nodup_flatMap_of_key
    (fun methods => methods.findIdx (fun method => method.name == target.name)) id
  · rw [List.map_id]
    exact List.nodup_range
  · exact fun slot _ => (nodup_fillings distinct slot).map (List.insertIdx_injective slot target)
  · intro slot inRange methods member
    obtain ⟨filling, chosen, rfl⟩ := List.mem_map.mp member
    obtain ⟨rest, rfl⟩ := Nat.exists_eq_add_of_lt (List.mem_range.mp inRange)
    obtain ⟨before, after, rfl, rfl, rfl, early, _⟩ := mem_fillings.mp chosen
    have absent : before.findIdx (fun method => method.name == target.name) = before.length :=
      List.findIdx_eq_length.mpr
        (fun method member => beq_eq_false_iff_ne.mpr (early method member).2)
    rw [insertIdx_length, List.findIdx_append, absent, if_neg (Nat.lt_irrefl _),
      List.findIdx_cons, beq_self_eq_true]
    exact Nat.zero_add _

end Interleave.Enumeration
