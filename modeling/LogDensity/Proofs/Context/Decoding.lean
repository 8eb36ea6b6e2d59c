import LogDensity.Proofs.Context.Comparison
import LogDensity.Proofs.Context.Extent
import LogDensity.Proofs.Context.Members
import LogDensity.Proofs.Context.Rectangular
import Mathlib.Algebra.Order.BigOperators.Group.List

/-!
# Reading rectangular arrays

An object of rectangular arrays is read into a context with the same names, in which each array is
stored in column-major order with its dimensions (`Context.ofString_of_rectangular`).

Only one thing could prevent this, a product of dimensions that leaves 64 bits. But the products of
the first dimensions count values of the document (`Json.Rectangular.prod_take_le`), and a text that
fits the address space is too short for so many.
-/

namespace LogDensity

namespace Json

/-- A member takes part of the values of an object. -/
theorem size_le_of_member? {members : List (String × Json)} {name : String} {v : Json}
    (h : member? members name = some v) : v.size ≤ (object members).size := by
  have hsum := List.le_sum_of_mem
    (List.mem_map_of_mem (f := fun m : String × Json => m.2.size) (mem_of_member? h))
  rw [size_object]
  exact hsum.trans (Nat.le_succ _)

/-- At every depth of a rectangular array there are at least as many values as the dimensions above
multiply to. -/
theorem Rectangular.prod_take_le {dims : List Nat} {v : Json} (h : v.Rectangular dims) (k : Nat) :
    (dims.take k).prod ≤ v.size := by
  induction h generalizing k with
  | number x => simp [size]
  | empty => cases k <;> simp [size, sizeOfItems]
  | @array dims v items _ ih =>
    cases k with
    | zero => simp [size]
    | succ k =>
      have hsum : (v :: items).length * (dims.take k).prod ≤ ((v :: items).map size).sum := by
        simpa using List.card_nsmul_le_sum ((v :: items).map size) (dims.take k).prod
          (List.forall_mem_map.2 fun w hw => ih w hw k)
      rw [size_array, List.take_succ_cons, List.prod_cons]
      exact hsum.trans (Nat.le_succ _)

/-- A rectangular array of less than `2 ^ 64` values adds up. -/
theorem Rectangular.addsUp {dims : List Nat} {v : Json} (h : v.Rectangular dims)
    (hsize : v.size < UInt64.size) : v.AddsUp := by
  obtain ⟨hshape, xs, hxs, hlen, -⟩ := h.numbers
  refine ⟨xs, hxs, product?_eq_some.2 ⟨by rw [hshape, hlen], fun k _ => ?_⟩⟩
  rw [hshape]
  exact (h.prod_take_le (k + 1)).trans_lt hsize

/-- **A rectangular array is stored in column-major order.** -/
theorem Decodes.of_rectangular {dims : List Nat} {v : Json} {x : Variable} (hx : v.Decodes x)
    (h : v.Rectangular dims) :
    x.dims = dims ∧ x.values.length = dims.prod ∧ ∀ index, InRange index dims →
      ∃ y, v.numberAt? index = some y ∧ x.values[columnPosition dims index]? = some y := by
  obtain ⟨hshape, xs, hxs, hlen, hat⟩ := h.numbers
  obtain ⟨ys, hys, hylen, hcell⟩ := columnMajor_spec hlen
  obtain ⟨hdims, xs', hxs', hvalues⟩ := hx
  obtain rfl := Option.some.inj (hxs.symm.trans hxs')
  rw [hshape] at hdims hvalues
  obtain rfl := Except.ok.inj (hys.symm.trans hvalues)
  refine ⟨hdims, hylen.trans hlen, fun index hindex => ?_⟩
  have hlt : rowOffset dims index < xs.length := hlen ▸ rowOffset_lt hindex
  refine ⟨xs[rowOffset dims index], ?_, ?_⟩
  · rw [hat index hindex, List.getElem?_eq_getElem hlt]
  · rw [← columnOffset_one hindex, hcell index hindex, List.getElem?_eq_getElem hlt]

end Json

namespace Context

/-- **Rectangular arrays are stored column-major at every rank.** Of an object of rectangular
arrays, of any rank and with any dimensions, in a text that fits a 64-bit address space, a context
is read whose names are those of the members, in ascending order. Under each name it has the
dimensions of the array, and at `i₀ + i₁ * d₀ + i₂ * d₀ * d₁ + …` the number that stands at the
index `[i₀][i₁][i₂]…`. -/
theorem ofString_of_rectangular {s : String} {members : List (String × Json)}
    (hs : s.length < UInt64.size) (hparse : Json.ofString? s = some (.object members))
    (hrect : ∀ name v, Json.member? members name = some v → ∃ dims, v.Rectangular dims) :
    ∃ c, ofString s = .ok c ∧ c.names.Pairwise (· < ·) ∧
      (∀ name, name ∈ c.names ↔ name ∈ members.map Prod.fst) ∧
      ∀ name v dims, Json.member? members name = some v → v.Rectangular dims →
        c.dims name = .ok dims ∧ ∃ xs, c.values name = .ok xs ∧ xs.length = dims.prod ∧
          ∀ index, InRange index dims → ∃ x, v.numberAt? index = some x ∧
            xs[columnPosition dims index]? = some x := by
  have hadds : ∀ name v, Json.member? members name = some v → v.AddsUp := by
    intro name v hv
    obtain ⟨dims, hdims⟩ := hrect name v hv
    have hsize := (Json.size_le_of_member? hv).trans (Json.size_le_length hparse)
    exact hdims.addsUp (hsize.trans_lt hs)
  obtain ⟨c, hok, hnames, hvars⟩ := ofJson_of_addsUp hadds
  refine ⟨c, by rw [ofString, hparse]; exact hok, ?_, ?_, ?_⟩
  · rw [hnames]
    exact (Table.sorted_ofList members).names
  · intro name
    rw [hnames]
    exact Table.mem_names_ofList
  · intro name v dims hv hdims
    obtain ⟨x, hx, hlookup⟩ := hvars name v hv
    obtain ⟨hxdims, hlen, hat⟩ := hx.of_rectangular hdims
    exact ⟨hxdims ▸ dims_of_lookup hlookup, x.values, values_of_lookup hlookup, hlen, hat⟩

/-- Two rows of three numbers, and two rows of none. -/
theorem ofString_rows :
    let s := "\x7b\"m\": [[1, 2, 3], [4, 5, 6]], \"e\": [[], []]\x7d"
    ∃ c, ofString s = .ok c ∧ c.names.Pairwise (· < ·) ∧
      (∀ name, name ∈ c.names ↔ name = "m" ∨ name = "e") ∧
      c.dims "e" = .ok [2, 0] ∧ c.dims "m" = .ok [2, 3] ∧
      ∃ xs, c.values "m" = .ok xs ∧ xs.length = 6 ∧ xs[1]? = some 4 ∧ xs[4]? = some 3 := by
  intro s
  let row (xs : List Float) : Json := .array (xs.map .number)
  let members : List (String × Json) :=
    [("m", .array [row [1, 2, 3], row [4, 5, 6]]), ("e", .array [row [], row []])]
  have hparse : Json.ofString? s = some (.object members) := by decide +kernel
  have hrow (xs : List Float) : (row xs).Rectangular [xs.length] := Json.rectangular_row xs
  have hm : (Json.array [row [1, 2, 3], row [4, 5, 6]]).Rectangular [2, 3] :=
    .of_items rfl (by simp) (by simpa using ⟨hrow [1, 2, 3], hrow [4, 5, 6]⟩)
  have he : (Json.array [row [], row []]).Rectangular [2, 0] :=
    .of_items rfl (by simp) (by simpa using hrow [])
  have hrect : ∀ name v, Json.member? members name = some v → ∃ dims, v.Rectangular dims := by
    intro name v hv
    have hmem := Json.mem_of_member? hv
    simp only [members, List.mem_cons, Prod.mk.injEq, List.not_mem_nil, or_false] at hmem
    rcases hmem with ⟨-, rfl⟩ | ⟨-, rfl⟩
    · exact ⟨_, hm⟩
    · exact ⟨_, he⟩
  obtain ⟨c, hok, hsorted, hnames, hvars⟩ := ofString_of_rectangular (by decide) hparse hrect
  obtain ⟨hdims, xs, hxs, hlen, hat⟩ := hvars "m" _ _ rfl hm
  refine ⟨c, hok, hsorted, by simpa [members] using hnames, (hvars "e" _ _ rfl he).1, hdims,
    xs, hxs, hlen, ?_, ?_⟩
  · obtain ⟨x, hx, hcell⟩ := hat [1, 0] (.cons (by decide) (.cons (by decide) .nil))
    cases hx
    exact hcell
  · obtain ⟨x, hx, hcell⟩ := hat [0, 2] (.cons (by decide) (.cons (by decide) .nil))
    cases hx
    exact hcell

end Context

end LogDensity
