import LogDensity.Proofs.Context.Odometer

/-!
# Rectangular arrays

A number is rectangular with no dimensions, and an array is if its items are rectangular with the
same dimensions (`Json.Rectangular`). The lengths along the first items are the dimensions then, and
the numbers in the order of the text are in row-major order (`Rectangular.numbers`).

The converse is what a count can tell. If no array is longer than the first one at its depth, and
none of the first ones is empty, there are at most as many numbers as these lengths multiply to, and
exactly as many only if the array is rectangular (`Within.count`).
-/

namespace LogDensity.Json

/-- Nested arrays of numbers of the same length at each depth. No dimension follows a zero. -/
inductive Rectangular : List Nat → Json → Prop
  | number (x : Float) : Rectangular [] (.number x)
  | empty : Rectangular [0] (.array [])
  | array {dims : List Nat} {v : Json} {items : List Json}
      (h : ∀ w ∈ v :: items, Rectangular dims w) :
      Rectangular ((items.length + 1) :: dims) (.array (v :: items))

/-- No array is longer than the dimension of its depth, and numbers are at the depth of the last
dimension. -/
inductive Within : List Nat → Json → Prop
  | number (x : Float) : Within [] (.number x)
  | array {d : Nat} {dims : List Nat} {items : List Json} (hd : items.length ≤ d)
      (h : ∀ w ∈ items, Within dims w) : Within (d :: dims) (.array items)

/-- The number at a nested index. -/
def numberAt? : Json → List Nat → Option Float
  | .number x, [] => some x
  | .array items, i :: index => (items[i]?).bind fun v => v.numberAt? index
  | _, _ => none

/-! ## The numbers of a list of arrays -/

/-- The numbers of several arrays are those of each, one after the other. -/
theorem numbersOfList?_eq_some {items : List Json} {xs : List Float} :
    numbersOfList? items = some xs ↔
      ∃ blocks, List.Forall₂ (fun v block => v.numbers? = some block) items blocks ∧
        xs = blocks.flatten := by
  induction items generalizing xs with
  | nil => simp [numbersOfList?, eq_comm]
  | cons v items ih =>
    simp only [numbersOfList?, Option.bind_eq_bind, Option.bind_eq_some_iff, ih,
      List.forall₂_cons_left_iff, Option.some.injEq]
    constructor
    · rintro ⟨block, hv, _, ⟨blocks, hitems, rfl⟩, rfl⟩
      exact ⟨block :: blocks, ⟨block, blocks, hv, hitems, rfl⟩, rfl⟩
    · rintro ⟨_, ⟨block, blocks, hv, hitems, rfl⟩, rfl⟩
      exact ⟨block, hv, _, ⟨blocks, hitems, rfl⟩, rfl⟩

theorem length_flatten_of_forall_length {α : Type} {blocks : List (List α)} {n : Nat}
    (h : ∀ block ∈ blocks, block.length = n) : blocks.flatten.length = blocks.length * n := by
  rw [List.length_flatten, List.map_congr_left h]
  simp

/-- An element of equally long blocks, by its block and its place in the block. -/
theorem getElem?_flatten_of_forall_length {α : Type} {blocks : List (List α)} {n : Nat}
    (h : ∀ block ∈ blocks, block.length = n) (i : Nat) {j : Nat} (hj : j < n) :
    blocks.flatten[i * n + j]? = (blocks[i]?).bind fun block => block[j]? := by
  induction blocks generalizing i with
  | nil => simp
  | cons block blocks ih =>
    obtain ⟨hhead, htail⟩ := List.forall_mem_cons.1 h
    cases i with
    | zero =>
      rw [List.flatten_cons, List.getElem?_append_left (by omega)]
      simp
    | succ i =>
      rw [List.flatten_cons, List.getElem?_append_right (by rw [hhead]; nlinarith),
        show (i + 1) * n + j - block.length = i * n + j by rw [hhead, Nat.succ_mul]; omega,
        ih htail, List.getElem?_cons_succ]

/-! ## Rectangular arrays -/

theorem Rectangular.of_items {d : Nat} {dims : List Nat} {items : List Json}
    (hd : items.length = d) (hne : items ≠ []) (h : ∀ w ∈ items, w.Rectangular dims) :
    (Json.array items).Rectangular (d :: dims) := by
  obtain ⟨v, items, rfl⟩ := List.exists_cons_of_ne_nil hne
  subst hd
  exact .array h

/-- A row of numbers is rectangular. -/
theorem rectangular_row (xs : List Float) : (array (xs.map number)).Rectangular [xs.length] := by
  cases xs with
  | nil => exact .empty
  | cons x xs =>
    refine .of_items (List.length_map _) (List.cons_ne_nil _ _) fun w hw => ?_
    obtain ⟨y, -, rfl⟩ := List.mem_map.1 hw
    exact .number y

/-- **Rectangular arrays are read row by row.** -/
theorem Rectangular.numbers {dims : List Nat} {v : Json} (h : v.Rectangular dims) :
    v.shape = dims ∧ ∃ xs, v.numbers? = some xs ∧ xs.length = dims.prod ∧
      ∀ m, InRange m dims → v.numberAt? m = xs[rowOffset dims m]? := by
  induction h with
  | number x =>
    refine ⟨rfl, [x], rfl, rfl, fun m hm => ?_⟩
    cases hm
    rfl
  | empty =>
    refine ⟨rfl, [], rfl, rfl, fun m hm => ?_⟩
    exact absurd (rowOffset_lt hm) (by simp)
  | @array dims v items _ ih =>
    let numbers : Json → List Float := fun w => w.numbers?.getD []
    have hnumbers : ∀ w ∈ v :: items, w.numbers? = some (numbers w) ∧
        (numbers w).length = dims.prod ∧
        ∀ m, InRange m dims → w.numberAt? m = (numbers w)[rowOffset dims m]? := by
      intro w hw
      obtain ⟨-, xs, hxs, hlen, hat⟩ := ih w hw
      have : numbers w = xs := by simp [numbers, hxs]
      rw [this]
      exact ⟨hxs, hlen, hat⟩
    have hlen : ∀ block ∈ (v :: items).map numbers, block.length = dims.prod :=
      List.forall_mem_map.2 fun w hw => (hnumbers w hw).2.1
    refine ⟨by rw [shape, (ih v List.mem_cons_self).1], ((v :: items).map numbers).flatten,
      ?_, ?_, fun m hm => ?_⟩
    · refine numbersOfList?_eq_some.2 ⟨_, ?_, rfl⟩
      exact List.forall₂_map_right_iff.2 (List.forall₂_same.2 fun w hw => (hnumbers w hw).1)
    · rw [length_flatten_of_forall_length hlen, List.length_map, List.length_cons, List.prod_cons]
    · cases hm with
      | @cons i _ index _ hi hindex =>
        obtain ⟨w, hw⟩ : ∃ w, (v :: items)[i]? = some w := ⟨_, List.getElem?_eq_getElem hi⟩
        rw [rowOffset, getElem?_flatten_of_forall_length hlen i (rowOffset_lt hindex),
          List.getElem?_map, numberAt?, hw]
        exact (hnumbers w (List.mem_of_getElem? hw)).2.2 index hindex

/-! ## What the count tells -/

theorem Rectangular.within {dims : List Nat} {v : Json} (h : v.Rectangular dims) :
    v.Within dims := by
  induction h with
  | number x => exact .number x
  | empty => exact .array (Nat.le_refl 0) (by simp)
  | array _ ih => exact .array (Nat.le_refl _) ih

/-- Blocks of at most `n` elements hold `n` times their number only if all are full. -/
theorem length_flatten_le {α β : Type} {P : α → Prop} {n : Nat} {items : List α}
    {blocks : List (List β)}
    (h : List.Forall₂ (fun w block => block.length ≤ n ∧ (block.length = n → P w)) items blocks) :
    blocks.flatten.length ≤ items.length * n ∧
      (blocks.flatten.length = items.length * n → ∀ w ∈ items, P w) := by
  induction h with
  | nil => simp
  | cons hhead _ ih =>
    obtain ⟨hle, hfull⟩ := hhead
    obtain ⟨hrest, hall⟩ := ih
    simp only [List.flatten_cons, List.length_append, List.length_cons, Nat.succ_mul]
    refine ⟨by omega, fun heq => List.forall_mem_cons.2 ⟨hfull (by omega), hall (by omega)⟩⟩

/-- **An array whose parts are nowhere too long holds at most as many numbers as the dimensions
multiply to, and as many only if it is rectangular.** -/
theorem Within.count {dims : List Nat} {v : Json} (h : v.Within dims) (hpos : 0 < dims.prod)
    {xs : List Float} (hxs : v.numbers? = some xs) :
    xs.length ≤ dims.prod ∧ (xs.length = dims.prod → v.Rectangular dims) := by
  induction h generalizing xs with
  | number x =>
    obtain rfl := Option.some.inj hxs
    exact ⟨Nat.le_refl 1, fun _ => .number x⟩
  | @array d dims items hd _ ih =>
    rw [List.prod_cons] at hpos ⊢
    have htail : 0 < dims.prod := Nat.pos_of_mul_pos_left hpos
    obtain ⟨blocks, hblocks, rfl⟩ := numbersOfList?_eq_some.1 hxs
    obtain ⟨hle, hall⟩ := length_flatten_le (n := dims.prod) (P := Rectangular dims) <|
      ((List.forall₂_and_left _ _).2 ⟨ih, hblocks⟩).imp fun _ _ h => h.1 htail h.2
    have hmul : items.length * dims.prod ≤ d * dims.prod := Nat.mul_le_mul_right _ hd
    refine ⟨hle.trans hmul, fun hsum => ?_⟩
    -- with as many numbers as there is room for, no item is missing, and none is too short
    have hlen : items.length = d :=
      Nat.eq_of_mul_eq_mul_right htail (Nat.le_antisymm hmul (hsum ▸ hle))
    have hne : items ≠ [] := by
      rintro rfl
      simp [← hlen] at hpos
    exact .of_items hlen hne (hall (by rw [hsum, hlen]))

end LogDensity.Json
