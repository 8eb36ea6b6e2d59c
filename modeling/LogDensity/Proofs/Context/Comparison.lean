import LogDensity.Context.Json
import Mathlib.Logic.Basic

/-!
# Comparing documents

Whether two documents are the same is decidable, so what a given text is read as can be evaluated.
-/

namespace LogDensity.Json

mutual

/-- Whether two documents are the same. -/
def same : Json → Json → Bool
  | null, null => true
  | bool a, bool b => a == b
  | number x, number y => decide (x = y)
  | string s, string t => s == t
  | array vs, array ws => sameItems vs ws
  | object ms, object ns => sameMembers ms ns
  | _, _ => false

/-- Whether the items of two arrays are the same. -/
def sameItems : List Json → List Json → Bool
  | [], [] => true
  | v :: vs, w :: ws => v.same w && sameItems vs ws
  | _, _ => false

/-- Whether the members of two objects are the same. -/
def sameMembers : List (String × Json) → List (String × Json) → Bool
  | [], [] => true
  | (name, v) :: ms, (other, w) :: ns => name == other && v.same w && sameMembers ms ns
  | _, _ => false

end

mutual

theorem same_iff (v w : Json) : v.same w ↔ v = w := by
  cases v with
  | array vs => cases w <;> simp [same, sameItems_iff vs]
  | object ms => cases w <;> simp [same, sameMembers_iff ms]
  | _ => cases w <;> simp [same]

theorem sameItems_iff (vs ws : List Json) : sameItems vs ws ↔ vs = ws := by
  cases vs with
  | nil => cases ws <;> simp [sameItems]
  | cons v vs => cases ws <;> simp [sameItems, same_iff v, sameItems_iff vs]

theorem sameMembers_iff (ms ns : List (String × Json)) : sameMembers ms ns ↔ ms = ns := by
  cases ms with
  | nil => cases ns <;> simp [sameMembers]
  | cons m ms =>
    obtain ⟨name, v⟩ := m
    cases ns <;> simp [sameMembers, same_iff v, sameMembers_iff ms, Prod.ext_iff]

end

instance : DecidableEq Json :=
  fun v w => decidable_of_iff _ (same_iff v w)

end LogDensity.Json
