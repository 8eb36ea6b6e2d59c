import LogDensity.Proofs.Context.Acceptance
import LogDensity.Proofs.Context.Decoding
import Mathlib.Algebra.BigOperators.Group.List.Lemmas

/-!
# Reading in 64-bit words

Positions, strides and indices are 64-bit words, and a sum or product that leaves them breaks off
the reading. For a member that adds up this never happens: while its numbers are rearranged every
stride is a product of the first dimensions, and every position is below the stride that comes next
(`wordOffset?_eq`), so the rearrangement in words is the one in natural numbers
(`wordColumnMajor?_eq`).

What can happen is that the lengths along the first items are too large to multiply
(`Json.Overflows`). The product is formed before it is compared with the number of values, so the
reading breaks off there instead of refusing the member for not being rectangular
(`Context.ofString_breach`). 64 arrays of two items inside one another are enough
(`Context.exists_ofString_breach`).
-/

namespace LogDensity

/-- A number, if 64 bits are enough for it. -/
def toWord? (n : Nat) : Option Nat :=
  if n < UInt64.size then some n else none

theorem toWord?_of_lt {n : Nat} (h : n < UInt64.size) : toWord? n = some n :=
  if_pos h

/-! ## The rearrangement in words -/

/-- The column-major position of a multi-index in words, added to `offset`. -/
def wordOffset? (offset stride : Nat) : List Nat → List Nat → Option Nat
  | d :: dims, i :: index => do
    let distance ← toWord? (i * stride)
    let offset ← toWord? (offset + distance)
    let stride ← toWord? (stride * d)
    wordOffset? offset stride dims index
  | _, _ => some offset

/-- The next multi-index in words, and whether the first index has run over. -/
def wordAdvance? : List Nat → List Nat → Option (List Nat × Bool)
  | d :: dims, i :: index => do
    match ← wordAdvance? dims index with
    | (index, false) => some (i :: index, false)
    | (index, true) =>
      let next ← toWord? (i + 1)
      some (if next < d then (next :: index, false) else (0 :: index, true))
  | _, _ => some ([], true)

/-- Puts values in row-major order into the cells of an array in column-major order, in words. -/
def wordPlace? (dims : List Nat) : List Nat → List Float → Array Float → Option (Array Float)
  | _, [], cells => some cells
  | index, x :: xs, cells => do
    let k ← wordOffset? 0 1 dims index
    if k < cells.size then
      let (next, _) ← wordAdvance? dims index
      wordPlace? dims next xs (cells.setIfInBounds k x)
    else none

/-- Values in row-major order, put into column-major order in words. -/
def wordColumnMajor? (dims : List Nat) (xs : List Float) : Option (List Float) :=
  if dims.length < 2 then some xs
  else (wordPlace? dims (dims.map fun _ => 0) xs (Array.replicate xs.length 0)).map Array.toList

/-- **No stride and no position leaves the words.** A position stays below the stride that comes
next, and that is a product of the first dimensions. -/
theorem wordOffset?_eq {index dims : List Nat} (h : InRange index dims) {offset stride : Nat}
    (hoffset : offset < stride)
    (hfits : ∀ k < dims.length, stride * (dims.take (k + 1)).prod < UInt64.size) :
    wordOffset? offset stride dims index = some (offset + columnOffset stride dims index) := by
  induction h generalizing offset stride with
  | nil => rfl
  | @cons i d index dims hi _ ih =>
    have hstride : stride * d < UInt64.size := by
      simpa using hfits 0 (Nat.succ_pos _)
    have hnext : offset + i * stride < stride * d := by nlinarith
    have hrest : ∀ k < dims.length, stride * d * (dims.take (k + 1)).prod < UInt64.size := by
      intro k hk
      simpa [Nat.mul_assoc] using hfits (k + 1) (Nat.succ_lt_succ hk)
    simp only [wordOffset?, columnOffset, toWord?_of_lt (show i * stride < UInt64.size by omega),
      toWord?_of_lt (hnext.trans hstride), toWord?_of_lt hstride, Option.bind_eq_bind,
      Option.bind_some, ih hnext hrest, Nat.add_assoc]

/-- No index leaves the words. -/
theorem wordAdvance?_eq {index dims : List Nat} (h : InRange index dims)
    (hdims : ∀ d ∈ dims, d < UInt64.size) :
    wordAdvance? dims index = some (advance dims index) := by
  induction h with
  | nil => rfl
  | @cons i d index dims hi _ ih =>
    obtain ⟨hd, hdims⟩ := List.forall_mem_cons.1 hdims
    rw [wordAdvance?, advance, ih hdims]
    rcases advance dims index with ⟨next, _ | _⟩
    · rfl
    · have hnext : toWord? (i + 1) = some (i + 1) := toWord?_of_lt (by omega)
      simp [hnext]

/-- Dimensions whose product fits a word fit one themselves, unless there are no multi-indices. -/
theorem lt_of_mem_of_product? {index dims : List Nat} (h : InRange index dims) {n : Nat}
    (hn : product? dims = some n) : ∀ d ∈ dims, d < UInt64.size := by
  intro d hd
  obtain ⟨-, hfits⟩ := product?_eq_some.1 hn
  have hlast : dims.prod < UInt64.size := by
    have hpos : 0 < dims.length := List.length_pos_of_mem hd
    simpa [Nat.sub_add_cancel hpos] using hfits (dims.length - 1) (by omega)
  have hle : d ≤ dims.prod := Nat.le_of_dvd (Nat.zero_lt_of_lt (rowOffset_lt h)) (List.dvd_prod hd)
  omega

/-- **The walk in words.** What is put into cells at all is put there with words as well. -/
theorem wordPlace?_eq {index dims : List Nat} (h : InRange index dims) {n : Nat}
    (hn : product? dims = some n) {xs : List Float} {cells cells' : Array Float}
    (hok : place dims index xs cells = .ok cells') :
    wordPlace? dims index xs cells = some cells' := by
  induction xs generalizing index cells with
  | nil =>
    rw [place] at hok
    cases hok
    rfl
  | cons x xs ih =>
    have hoffset : wordOffset? 0 1 dims index = some (columnOffset 1 dims index) := by
      simpa using wordOffset?_eq h Nat.one_pos (by simpa using (product?_eq_some.1 hn).2)
    have hadvance := wordAdvance?_eq h (lt_of_mem_of_product? h hn)
    rw [place] at hok
    split at hok
    · next hlt =>
      simp only [wordPlace?, hoffset, hadvance, Option.bind_eq_bind, Option.bind_some, if_pos hlt]
      exact ih (advance_spec h).1 hok
    · cases hok

/-- **The rearrangement in words** of as many values as the dimensions multiply to is the one in
natural numbers. -/
theorem wordColumnMajor?_eq {dims : List Nat} {xs ys : List Float}
    (hn : product? dims = some xs.length) (hok : columnMajor dims xs = .ok ys) :
    wordColumnMajor? dims xs = some ys := by
  unfold columnMajor at hok
  unfold wordColumnMajor?
  split at hok
  · next hrank =>
    rw [if_pos hrank, Except.ok.inj hok]
  · next hrank =>
    rw [if_neg hrank]
    rcases hplace : place dims (dims.map fun _ => 0) xs (Array.replicate xs.length 0) with b | cells
    · rw [hplace] at hok
      cases hok
    · rw [hplace] at hok
      obtain rfl := Except.ok.inj hok
      rcases Nat.eq_zero_or_pos dims.prod with hzero | hpos
      · -- without multi-indices there is no value to put anywhere
        obtain rfl := List.eq_nil_of_length_eq_zero ((product?_eq_some.1 hn).1.trans hzero)
        rw [place] at hplace
        cases hplace
        rfl
      · rw [wordPlace?_eq (inRange_zero hpos) hn hplace]
        rfl

/-! ## Lengths that are too large to multiply -/

namespace Json

/-- There are only numbers in the array, but the lengths along its first items are too large to
multiply. -/
def Overflows (v : Json) : Prop :=
  v.numbers?.isSome ∧ product? v.shape = none

/-- An array of less than `2 ^ 64` values that overflows is ragged. -/
theorem Overflows.not_rectangular {v : Json} (h : v.Overflows) (hsize : v.size < UInt64.size)
    (dims : List Nat) : ¬ v.Rectangular dims := by
  intro hv
  obtain ⟨xs, -, hn⟩ := hv.addsUp hsize
  simp [h.2] at hn

theorem refusal_eq_breach {name : String} {v : Json} {b : Breach} :
    refusal name v = .breach b ↔ b = .productOverflow ∧ v.Overflows := by
  unfold refusal Overflows
  rcases v.numbers? with _ | xs
  · simp
  · rcases product? v.shape with _ | n <;> simp [eq_comm]

/-- An array with this many arrays of two items inside one another, each the first item of the one
around it. -/
def nested : Nat → Json
  | 0 => .number 1
  | k + 1 => .array [nested k, .number 1]

/-- The text of these arrays. -/
def nestedText : Nat → List Char
  | 0 => ['1']
  | k + 1 => '[' :: nestedText k ++ ", 1]".toList

theorem shape_nested (k : Nat) : (nested k).shape = List.replicate k 2 := by
  induction k with
  | zero => rfl
  | succ k ih => rw [nested, shape, ih, List.replicate_succ]; rfl

theorem isSome_numbers?_nested (k : Nat) : (nested k).numbers?.isSome := by
  rw [isSome_numbers?]
  induction k with
  | zero =>
    rintro w ⟨⟩
    exact ⟨1, rfl⟩
  | succ k ih =>
    intro w hw
    obtain ⟨v, hv, hw⟩ := leaf_array_iff.1 hw
    rcases List.mem_pair.1 hv with rfl | rfl
    · exact ih w hw
    · cases hw
      exact ⟨1, rfl⟩

/-- **Nesting overflows** from 64 arrays of two items on. -/
theorem overflows_nested {k : Nat} : (nested k).Overflows ↔ 64 ≤ k := by
  have hproduct : product? (nested k).shape ≠ none ↔ ∀ j < k, 2 ^ (j + 1) < UInt64.size := by
    rw [shape_nested, Option.ne_none_iff_exists']
    simp only [product?_eq_some, exists_and_right, exists_eq, true_and, List.length_replicate,
      List.take_replicate, List.prod_replicate]
    exact forall₂_congr fun j hj => by rw [Nat.min_eq_left hj]
  rw [Overflows, and_iff_right (isSome_numbers?_nested k), ← not_iff_not, ← ne_eq, hproduct, not_le]
  constructor
  · intro h
    by_contra hk
    exact absurd (h 63 (by omega)) (by decide)
  · intro hk j hj
    exact Nat.pow_lt_pow_right (by decide) (show j + 1 < 64 by omega)

end Json

namespace Context

/-! ## Breaking off -/

theorem breach_of_ofString {s : String} {b : Breach} (h : ofString s = .error (.breach b)) :
    ∃ members name v, Json.ofString? s = some (.object members) ∧
      Json.member? members name = some v ∧
      (∀ other < name, ∀ w, Json.member? members other = some w → w.AddsUp) ∧
      v.refusal name = .breach b := by
  generalize hstop : Stop.breach b = stop at h
  cases refused_of_ofString h with
  | json => cases hstop
  | root => cases hstop
  | member hparse hv _ hfirst => exact ⟨_, _, _, hparse, hv, hfirst, rfl⟩

theorem ofString_of_overflows {s : String} {members : List (String × Json)} {name : String}
    {v : Json} (hparse : Json.ofString? s = some (.object members))
    (hv : Json.member? members name = some v) (hover : v.Overflows)
    (hfirst : ∀ other < name, ∀ w, Json.member? members other = some w → w.AddsUp) :
    ofString s = .error (.breach .productOverflow) := by
  have hbad : ¬ v.AddsUp := fun ⟨xs, _, hn⟩ => by simp [hover.2] at hn
  have hjson : ofString s = ofJson (.object members) := by rw [ofString, hparse]
  rw [hjson]
  rcases hread : ofJson (.object members) with stop | c
  · obtain ⟨other, w, hw, hwbad, rfl, hwfirst⟩ := not_addsUp_of_ofJson hread
    -- both are the first member that does not add up
    rcases lt_trichotomy other name with hlt | rfl | hlt
    · exact absurd (hfirst other hlt w hw) hwbad
    · obtain rfl := Option.some.inj (hv.symm.trans hw)
      exact congrArg Except.error (Json.refusal_eq_breach.2 ⟨rfl, hover⟩)
    · exact absurd (hwfirst name hlt v hv) hbad
  · exact absurd (addsUp_of_ofJson hread hv) hbad

/-- **When reading breaks off.** The reading of a text breaks off just if the first member that does
not add up has numbers, but lengths along its first items that are too large to multiply. Such a
member is ragged, unless the text is too long for the address space. A member that adds up is
rearranged in words, without leaving them or the array, and fits its dimensions. -/
theorem ofString_breach (s : String) :
    (∀ b, ofString s = .error (.breach b) ↔ b = .productOverflow ∧
      ∃ members name v, Json.ofString? s = some (.object members) ∧
        Json.member? members name = some v ∧ v.Overflows ∧
        ∀ other < name, ∀ w, Json.member? members other = some w → w.AddsUp) ∧
    ∀ members name v, Json.ofString? s = some (.object members) →
      Json.member? members name = some v →
        (v.Overflows → s.length < UInt64.size → ∀ dims, ¬ v.Rectangular dims) ∧
        (v.AddsUp → ∃ xs ys, v.numbers? = some xs ∧ columnMajor v.shape xs = .ok ys ∧
          wordColumnMajor? v.shape xs = some ys ∧
          ∀ c : Context, c.insert name ys v.shape = .ok ⟨c.table.insert name ⟨ys, v.shape⟩⟩) := by
  refine ⟨fun b => ⟨fun h => ?_, ?_⟩, fun members name v hparse hv => ⟨fun h hs => ?_, fun h => ?_⟩⟩
  · obtain ⟨members, name, v, hparse, hv, hfirst, hb⟩ := breach_of_ofString h
    obtain ⟨rfl, hover⟩ := Json.refusal_eq_breach.1 hb
    exact ⟨rfl, members, name, v, hparse, hv, hover, hfirst⟩
  · rintro ⟨rfl, members, name, v, hparse, hv, hover, hfirst⟩
    exact ofString_of_overflows hparse hv hover hfirst
  · have hsize := (Json.size_le_of_member? hv).trans (Json.size_le_length hparse)
    exact h.not_rectangular (hsize.trans_lt hs)
  · obtain ⟨xs, hxs, hn⟩ := h
    obtain ⟨ys, hys, hlen, -⟩ := columnMajor_spec (product?_eq_some.1 hn).1
    refine ⟨xs, ys, hxs, hys, wordColumnMajor?_eq hn hys, fun c => ?_⟩
    simp [insert, hn, hlen]

/-- **A ragged member can break off the reading** instead of being refused. -/
theorem exists_ofString_breach : ¬ ∀ s b, ofString s ≠ .error (.breach b) := by
  intro h
  let text := "\x7b\"a\": ".toList ++ Json.nestedText 64 ++ ['\x7d']
  have hparse : Json.ofString? (.ofList text) = some (.object [("a", Json.nested 64)]) := by
    rw [Json.ofString?, Json.tokens?, String.toList_ofList]
    decide +kernel
  have hv : Json.member? [("a", Json.nested 64)] "a" = some (Json.nested 64) := rfl
  refine h (.ofList text) _ (ofString_of_overflows hparse hv (Json.overflows_nested.2 le_rfl) ?_)
  intro other hlt w hw
  obtain ⟨rfl, -⟩ : other = "a" ∧ w = Json.nested 64 := by
    simpa using Json.mem_of_member? hw
  exact absurd hlt (lt_irrefl _)

end Context

end LogDensity
