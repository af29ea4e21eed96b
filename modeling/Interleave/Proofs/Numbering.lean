import Interleave.Proofs.Choices

set_option autoImplicit false

/-! The numbers of choices. The choice at a number of a product takes from each list the option
at a digit of that number, each list being a place with its length as the base. Slots can be
distributed in as many ways as threads can be chosen for them with repetition. -/

namespace Interleave.Enumeration

variable {α β : Type}

/-! ### Digits -/

/-- The digits of a number where each place has a base of its own, the first place being the most
significant. -/
def digits : (bases : List Nat) → (number : Nat) → List Nat
  | [], _ => []
  | _ :: bases, number => number / bases.prod :: digits bases (number % bases.prod)

private theorem prod_pos_of_lt {base number : Nat} {bases : List Nat}
    (bound : number < (base :: bases).prod) : 0 < bases.prod := by
  rw [List.prod_cons] at bound
  exact Nat.pos_of_lt_mul_left bound

private theorem exists_digits_eq {places bases : List Nat}
    (inRange : List.Forall₂ (· < ·) places bases) :
    ∃ number < bases.prod, digits bases number = places := by
  induction inRange with
  | nil => exact ⟨0, Nat.one_pos, rfl⟩
  | @cons place base places bases first _rest ih =>
      obtain ⟨number, bound, same⟩ := ih
      refine ⟨bases.prod * place + number, ?_, ?_⟩
      · calc
          bases.prod * place + number < bases.prod * place + bases.prod :=
            Nat.add_lt_add_left bound _
          _ = bases.prod * (place + 1) := (Nat.mul_succ _ _).symm
          _ ≤ bases.prod * base := Nat.mul_le_mul_left _ first
          _ = (base :: bases).prod := by rw [List.prod_cons, Nat.mul_comm]
      · rw [digits, Nat.mul_add_div (Nat.zero_lt_of_lt bound), Nat.div_eq_of_lt bound,
          Nat.mul_add_mod, Nat.mod_eq_of_lt bound, same, Nat.add_zero]

theorem digits_lt_digits {bases : List Nat} {before after : Nat} (less : before < after)
    (bound : after < bases.prod) : digits bases before < digits bases after := by
  induction bases generalizing before after with
  | nil =>
      rw [List.prod_nil] at bound
      omega
  | cons base bases ih =>
      have inRest := Nat.mod_lt after (prod_pos_of_lt bound)
      rw [digits, digits]
      rcases Nat.lt_or_eq_of_le (Nat.div_le_div_right less.le) with higher | same
      · exact List.Lex.rel higher
      · have beforeParts := Nat.div_add_mod before bases.prod
        have afterParts := Nat.div_add_mod after bases.prod
        rw [same] at beforeParts ⊢
        exact List.Lex.cons (ih (by omega) inRest)

private theorem eq_of_digits_eq {bases : List Nat} {left right : Nat} (inLeft : left < bases.prod)
    (inRight : right < bases.prod) (same : digits bases left = digits bases right) :
    left = right := by
  rcases Nat.lt_trichotomy left right with less | equal | greater
  · have ordered := digits_lt_digits less inRight
    rw [same] at ordered
    exact absurd ordered (List.lt_irrefl _)
  · exact equal
  · have ordered := digits_lt_digits greater inLeft
    rw [same] at ordered
    exact absurd ordered (List.lt_irrefl _)

/-! ### Choices of a product by number -/

def sizes (choices : List (List α)) : List Nat := choices.map List.length

/-- The options at these places, one of each list. -/
def pick : (choices : List (List α)) → (places : List Nat) → Option (List α)
  | [], [] => some []
  | options :: choices, place :: places =>
      options[place]?.bind (fun option => (pick choices places).map (option :: ·))
  | _, _ => none

/-- Where all blocks have one length, it divides a position into that of the block and that in
the block. -/
theorem getElem?_flatMap_of_length {items : List α} {block : α → List β} {size rest : Nat}
    (each : ∀ item ∈ items, (block item).length = size) (inBlock : rest < size) (number : Nat) :
    (items.flatMap block)[size * number + rest]? =
      items[number]?.bind (fun item => (block item)[rest]?) := by
  induction items generalizing number with
  | nil => rfl
  | cons item items ih =>
      obtain ⟨first, others⟩ := List.forall_mem_cons.mp each
      rw [List.flatMap_cons]
      cases number with
      | zero =>
          rw [Nat.mul_zero, Nat.zero_add, List.getElem?_append_left (by rw [first]; exact inBlock)]
          rfl
      | succ number =>
          have later : size * (number + 1) + rest = size + (size * number + rest) := by
            rw [Nat.mul_succ]
            omega
          rw [List.getElem?_append_right (by rw [first, later]; exact Nat.le_add_right _ _), first,
            later, Nat.add_sub_cancel_left, ih others, List.getElem?_cons_succ]

theorem length_product (choices : List (List α)) :
    (product choices).length = (sizes choices).prod := by
  induction choices with
  | nil => rfl
  | cons options choices ih =>
      rw [product_cons, List.length_flatMap]
      simp only [List.length_map, List.map_const', List.sum_replicate, smul_eq_mul, ih]
      rfl

theorem getElem?_product (choices : List (List α)) {number : Nat}
    (bound : number < (sizes choices).prod) :
    (product choices)[number]? = pick choices (digits (sizes choices) number) := by
  induction choices generalizing number with
  | nil =>
      have zero : number = 0 := Nat.lt_one_iff.mp bound
      subst zero
      rfl
  | cons options choices ih =>
      have inBlock : number % (sizes choices).prod < (sizes choices).prod :=
        Nat.mod_lt number (prod_pos_of_lt bound)
      have each : ∀ option ∈ options,
          ((product choices).map (option :: ·)).length = (sizes choices).prod := by
        intro option _
        rw [List.length_map, length_product]
      have parts := getElem?_flatMap_of_length each inBlock (number / (sizes choices).prod)
      rw [Nat.div_add_mod, ← product_cons] at parts
      rw [parts]
      simp only [List.getElem?_map, ih inBlock]
      rfl

/-- A product has as many choices as its sizes multiply to. The choice at a number takes the
options at the digits of the number. All places in range are the digits of exactly one number, and
the digits of numbers are in the order of the numbers, the leftmost varying slowest. -/
theorem product_numbered (choices : List (List α)) :
    (product choices).length = (sizes choices).prod ∧
    (∀ number < (sizes choices).prod,
      (product choices)[number]? = pick choices (digits (sizes choices) number)) ∧
    (∀ places, List.Forall₂ (· < ·) places (sizes choices) →
      ∃! number, number < (sizes choices).prod ∧ digits (sizes choices) number = places) ∧
    ∀ before after, before < after → after < (sizes choices).prod →
      digits (sizes choices) before < digits (sizes choices) after := by
  refine ⟨length_product choices, fun number => getElem?_product choices, ?_,
    fun before after => digits_lt_digits⟩
  intro places inRange
  obtain ⟨number, bound, same⟩ := exists_digits_eq inRange
  refine ⟨number, ⟨bound, same⟩, ?_⟩
  intro other also
  exact eq_of_digits_eq also.1 bound (also.2.trans same.symm)

/-- Repeated options are taken for themselves, each at its own places. -/
theorem product_numbered_repeated :
    4 < (sizes [[7, 7], [5], [8, 9, 8]]).prod ∧
    digits (sizes [[7, 7], [5], [8, 9, 8]]) 4 = [1, 0, 1] ∧
    (product [[7, 7], [5], [8, 9, 8]])[4]? = some [7, 5, 9] ∧
    List.Forall₂ (· < ·) [1, 0, 2] (sizes [[7, 7], [5], [8, 9, 8]]) ∧
    (∃! number, number < 6 ∧ digits (sizes [[7, 7], [5], [8, 9, 8]]) number = [1, 0, 2]) ∧
    digits (sizes [[7, 7], [5], [8, 9, 8]]) 1 < digits (sizes [[7, 7], [5], [8, 9, 8]]) 4 := by
  obtain ⟨_, picks, once, ordered⟩ := product_numbered [[7, 7], [5], [8, 9, 8]]
  have bound : 4 < (sizes [[7, 7], [5], [8, 9, 8]]).prod := by decide
  have inRange : List.Forall₂ (· < ·) [1, 0, 2] (sizes [[7, 7], [5], [8, 9, 8]]) := by decide
  exact ⟨bound, rfl, picks 4 bound, inRange, once _ inRange, ordered 1 4 (by decide) bound⟩

/-! ### Distributions of slots -/

private theorem length_placements (left : Nat) (counts : List Nat) :
    (placements left 0 counts).length = counts.length.multichoose left := by
  induction left generalizing counts with
  | zero =>
      rw [Nat.multichoose_zero_right]
      rfl
  | succ left ih =>
      induction counts with
      | nil =>
          rw [List.length_nil, Nat.multichoose_zero_succ]
          rfl
      | cons count counts later =>
          rw [placements_cons, List.length_append, List.length_map, ih, later, List.length_cons,
            List.length_cons, Nat.multichoose_succ_succ, Nat.add_comm]

theorem length_slotShapes (threads extra : Nat) :
    (slotShapes threads extra).length = threads.multichoose extra := by
  rw [slotShapes_eq, length_placements, List.length_replicate]

/-- All compositions of the slots into a positive number for each thread are listed, each once, so
there are as many as the binomial coefficient says. Every placing on the way, from whatever
thread, leaves the counts as it found them and only adds to what was found. -/
theorem slotShapes_compositions {threads : Nat} (extra : Nat) (some : 0 < threads) :
    (∀ shape, shape ∈ slotShapes threads extra ↔
      shape.length = threads ∧ (∀ slots ∈ shape, 0 < slots) ∧ shape.sum = threads + extra) ∧
    (slotShapes threads extra).Nodup ∧
    (slotShapes threads extra).length = (extra + threads - 1).choose (threads - 1) ∧
    ∀ left first placing, ∃ more,
      Placing.place left first placing = ⟨placing.counts, more ++ placing.found⟩ := by
  refine ⟨fun shape => mem_slotShapes, nodup_slotShapes threads extra, ?_, ?_⟩
  · obtain ⟨others, rfl⟩ := Nat.exists_eq_add_one.mpr some
    rw [length_slotShapes, Nat.multichoose_eq, Nat.add_right_comm, Nat.add_sub_cancel,
      ← Nat.add_assoc, Nat.add_sub_cancel, Nat.add_sub_cancel, Nat.add_comm others,
      Nat.choose_symm_add]
  · intro left first placing
    exact ⟨_, place_eq left first placing⟩

/-- Six ways for two extra slots on three threads. A placing that starts at the second thread takes
back the slots it tried. -/
theorem slotShapes_compositions_three :
    0 < 3 ∧ [2, 1, 2] ∈ slotShapes 3 2 ∧ (slotShapes 3 2).Nodup ∧ (slotShapes 3 2).length = 6 ∧
    (Placing.place 2 1 ⟨[1, 4, 1], []⟩).counts = [1, 4, 1] := by
  have some : 0 < 3 := by decide
  obtain ⟨members, distinct, length, restores⟩ := slotShapes_compositions 2 some
  obtain ⟨_, placed⟩ := restores 2 1 ⟨[1, 4, 1], []⟩
  refine ⟨some, (members _).mpr (by decide), distinct, length, ?_⟩
  rw [placed]

end Interleave.Enumeration
