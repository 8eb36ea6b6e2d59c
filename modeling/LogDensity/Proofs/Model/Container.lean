import LogDensity.Model.Basic
import Mathlib.Data.List.Basic

/-!
# Lawful containers

A container is lawful if it holds what it was overwritten with. Flat lists and dense arrays are; for
a dense array this rests on its elements lying in different cells.
-/

namespace LogDensity

/-- A container holds what it was overwritten with. -/
class LawfulContainer (P : Type → Type) [Container P] : Prop where
  toList_overwrite {R : Type} (p : P R) (xs : List R) :
    Container.toList (Container.overwrite p xs) = xs

namespace Dense

variable {R : Type}

theorem length_toList (d : Dense R) : d.toList.length = d.size :=
  List.length_ofFn

theorem toList_contiguous (xs : List R) : (contiguous xs).toList = xs :=
  List.ofFn_getElem

theorem getElem?_flatMap_pair (xs : List R) (i : Nat) :
    (xs.flatMap fun x => [x, x])[2 * i]? = xs[i]? := by
  induction xs generalizing i with
  | nil => rfl
  | cons x xs ih =>
    cases i with
    | zero => rfl
    | succ i => exact ih i

theorem toList_strided (xs : List R) : (strided xs).toList = xs := by
  refine List.ext_getElem (length_toList _) fun i _ hi => ?_
  have hpair : (xs.flatMap fun x => [x, x])[2 * i]? = some xs[i] := by
    rw [getElem?_flatMap_pair, List.getElem?_eq_getElem hi]
  simp only [toList, strided, List.getElem_ofFn, List.getElem_toArray]
  exact (List.getElem?_eq_some_iff.1 hpair).2

theorem toList_reversed (xs : List R) : (reversed xs).toList = xs := by
  refine List.ext_getElem (length_toList _) fun i _ hi => ?_
  have hback : xs.length - 1 - (xs.length - 1 - i) = i := by omega
  simp only [toList, reversed, List.getElem_ofFn, List.getElem_toArray, List.getElem_reverse, hback]

/-- Putting a value into the cell of an element changes no other element. -/
theorem toList_set (d : Dense R) {i : Nat} (hi : i < d.size) (x : R) :
    (d.set i x).toList = d.toList.set i x := by
  refine List.ext_getElem (by simp [length_toList, set]) fun j hj _ => ?_
  have hj' : j < d.size := by rwa [length_toList] at hj
  rw [List.getElem_set]
  simp only [toList, set, List.getElem_ofFn, Array.getElem_setIfInBounds (d.place_lt j hj')]
  by_cases hij : i = j
  · subst hij
    rw [if_pos rfl, if_pos rfl]
  · rw [if_neg hij, if_neg fun h => hij (d.place_inj i j hi hj' h)]

theorem size_set (d : Dense R) (i : Nat) (x : R) : (d.set i x).size = d.size :=
  rfl

/-- Setting consecutive elements one after the other replaces a segment. -/
theorem toList_foldl_set (xs : List R) (k : Nat) (d : Dense R) (h : k + xs.length = d.size) :
    ((xs.zipIdx k).foldl (fun d (x, i) => d.set i x) d).toList = d.toList.take k ++ xs := by
  induction xs generalizing k d with
  | nil => simp_all [List.take_of_length_le, length_toList]
  | cons x xs ih =>
    have hk : k < d.size := by simp only [List.length_cons] at h; omega
    rw [List.zipIdx_cons, List.foldl_cons,
      ih (k + 1) _ (by rw [size_set, ← h, List.length_cons]; omega), toList_set d hk]
    have hlen : k < d.toList.length := by rwa [length_toList]
    have hprefix : (d.toList.take k).length = k := by
      rw [List.length_take, Nat.min_eq_left (Nat.le_of_lt hlen)]
    have htake : (d.toList.set k x).take (k + 1) = d.toList.take k ++ [x] := by
      rw [List.take_set, List.take_succ_eq_append_getElem hlen,
        List.set_append_right _ _ (Nat.le_of_eq hprefix), hprefix, Nat.sub_self, List.set_cons_zero]
    rw [htake, List.append_assoc, List.singleton_append]

theorem toList_overwrite (d : Dense R) (xs : List R) : (d.overwrite xs).toList = xs := by
  unfold overwrite
  split
  · next h => rw [toList_foldl_set xs 0 d (by omega), List.take_zero, List.nil_append]
  · exact toList_contiguous xs

end Dense

instance : LawfulContainer List :=
  ⟨fun _ _ => rfl⟩

instance : LawfulContainer Dense :=
  ⟨Dense.toList_overwrite⟩

end LogDensity
