/-!
# Dense arrays

A dense array is a run of cells of a store that need not be neighbours: its elements lie at a
start position and a fixed, possibly negative, distance from each other. Two arrays with the same
elements (`toList`) are the same to every reader, whatever their layout; `overwrite` keeps the
layout of an array if the length fits, and makes a contiguous one otherwise.
-/

namespace LogDensity

/-- An array of elements at regular distances in a store. -/
structure Dense (R : Type) where
  /-- The cells. -/
  store : Array R
  /-- The number of elements. -/
  size : Nat
  /-- The cell of an element. -/
  place : Nat → Nat
  place_lt : ∀ i, i < size → place i < store.size
  place_inj : ∀ i j, i < size → j < size → place i = place j → i = j

namespace Dense

variable {R : Type}

/-- The elements in order. -/
def toList (d : Dense R) : List R :=
  List.ofFn fun i : Fin d.size =>
    have := d.place_lt i i.isLt
    d.store[d.place i]

/-- The elements side by side. -/
def contiguous (xs : List R) : Dense R where
  store := xs.toArray
  size := xs.length
  place i := i
  place_lt i h := by simpa using h
  place_inj _ _ _ _ h := h

theorem length_flatMap_pair (xs : List R) :
    (xs.flatMap fun x => [x, x]).length = 2 * xs.length := by
  induction xs with
  | nil => rfl
  | cons x xs ih =>
    simp only [List.flatMap_cons, List.length_append, List.length_cons, List.length_nil, ih]
    omega

/-- The elements in every other cell, copies of them between. -/
def strided (xs : List R) : Dense R where
  store := (xs.flatMap fun x => [x, x]).toArray
  size := xs.length
  place i := 2 * i
  place_lt i h := by
    simp only [List.size_toArray, length_flatMap_pair]
    omega
  place_inj i j _ _ h := by omega

/-- The elements from the last cell to the first. -/
def reversed (xs : List R) : Dense R where
  store := xs.reverse.toArray
  size := xs.length
  place i := xs.length - 1 - i
  place_lt i h := by simp; omega
  place_inj i j hi hj h := by omega

/-- Puts a value into the cell of an element. -/
def set (d : Dense R) (i : Nat) (x : R) : Dense R where
  store := d.store.setIfInBounds (d.place i) x
  size := d.size
  place := d.place
  place_lt j h := by simpa using d.place_lt j h
  place_inj := d.place_inj

/-- Replaces the elements: in their cells if there are as many, and in a new contiguous array
otherwise. -/
def overwrite (d : Dense R) (xs : List R) : Dense R :=
  if d.size = xs.length then xs.zipIdx.foldl (fun d (x, i) => d.set i x) d
  else contiguous xs

end Dense

end LogDensity
