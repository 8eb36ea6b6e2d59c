import LogDensity.Proofs.Context.Comparison
import LogDensity.Proofs.Context.Members
import LogDensity.Proofs.Context.Rectangular

/-!
# What is accepted

A text is read if it is an object whose members add up, and it is refused otherwise, for its first
member that does not (`Context.ofString_outcome`).

To add up is a weaker condition than to be rectangular. There is nothing but numbers in a member
that adds up (`Json.AddsUp.leaf`), but only their count is compared with the lengths along the first
items, and a long part can make up for a short one: of `[1, [2]]` the dimensions are `[2]`, and
there are two numbers (`Context.not_rectangular_of_ofString`). If there are any, a member that adds
up is rectangular just if no part of it is longer than the first one at its depth.
-/

namespace LogDensity

namespace Json

/-! ## What is in an array -/

/-- What is left of an array after some steps into one of its items, if that is no array itself. -/
inductive Leaf : Json → Json → Prop
  | self {v : Json} (h : ∀ items, v ≠ .array items) : Leaf v v
  | item {items : List Json} {v w : Json} (hv : v ∈ items) (h : Leaf v w) : Leaf (.array items) w

theorem leaf_array_iff {items : List Json} {w : Json} :
    (array items).Leaf w ↔ ∃ v ∈ items, v.Leaf w := by
  constructor
  · intro h
    cases h with
    | self h => exact absurd rfl (h items)
    | item hv h => exact ⟨_, hv, h⟩
  · rintro ⟨v, hv, h⟩
    exact .item hv h

theorem isSome_numbersOfList? (items : List Json) :
    (numbersOfList? items).isSome ↔ ∀ v ∈ items, v.numbers?.isSome := by
  induction items with
  | nil => simp [numbersOfList?]
  | cons v items ih =>
    rw [List.forall_mem_cons, ← ih, numbersOfList?]
    rcases v.numbers? with _ | xs
    · simp
    · rcases numbersOfList? items with _ | ys <;> simp

/-- An array has numbers if there is nothing else in it. -/
theorem isSome_numbers? (v : Json) :
    v.numbers?.isSome ↔ ∀ w, v.Leaf w → ∃ x, w = .number x := by
  cases v with
  | array items =>
    have ih : ∀ v ∈ items, (v.numbers?.isSome ↔ ∀ w, v.Leaf w → ∃ x, w = .number x) :=
      fun v _ => isSome_numbers? v
    rw [numbers?, isSome_numbersOfList?, forall₂_congr ih]
    simp only [leaf_array_iff]
    exact ⟨fun h w ⟨v, hv, hw⟩ => h v hv w hw, fun h v hv w hw => h w ⟨v, hv, hw⟩⟩
  | number x =>
    refine iff_of_true rfl fun w hw => ?_
    cases hw
    exact ⟨x, rfl⟩
  | _ =>
    refine iff_of_false (by simp [numbers?]) fun h => ?_
    simpa using h _ (.self (by simp))

/-- There is nothing but numbers in a member that adds up. -/
theorem AddsUp.leaf {v w : Json} (h : v.AddsUp) (hw : v.Leaf w) : ∃ x, w = .number x := by
  obtain ⟨xs, hxs, -⟩ := h
  exact (isSome_numbers? v).1 (by simp [hxs]) w hw

/-- A member with numbers that adds up is rectangular if and only if no part is longer than the
first one at its depth. -/
theorem AddsUp.rectangular_iff {v : Json} (h : v.AddsUp) (hpos : 0 < v.shape.prod) :
    v.Rectangular v.shape ↔ v.Within v.shape := by
  obtain ⟨xs, hxs, hn⟩ := h
  refine ⟨Rectangular.within, fun hv => ?_⟩
  exact (hv.count hpos hxs).2 (product?_eq_some.1 hn).1

end Json

namespace Context

/-! ## Acceptance and refusal -/

/-- Why a text is not read. -/
inductive Refused (s : String) : Stop → Prop
  | json (h : Json.ofString? s = none) : Refused s (.error .json)
  | root {v : Json} (h : Json.ofString? s = some v) (hv : ∀ members, v ≠ .object members) :
    Refused s (.error (.domain "variable context must be a JSON object"))
  /-- The first member that does not add up is to blame. -/
  | member {members : List (String × Json)} {name : String} {v : Json}
    (h : Json.ofString? s = some (.object members)) (hv : Json.member? members name = some v)
    (hbad : ¬ v.AddsUp)
    (hfirst : ∀ other < name, ∀ w, Json.member? members other = some w → w.AddsUp) :
    Refused s (v.refusal name)

theorem ofJson_of_not_object {v : Json} (h : ∀ members, v ≠ .object members) :
    ofJson v = .error (.error (.domain "variable context must be a JSON object")) := by
  cases v with
  | object members => exact absurd rfl (h members)
  | _ => rfl

theorem exists_of_ofString {s : String} {c : Context} (h : ofString s = .ok c) :
    ∃ members, Json.ofString? s = some (.object members) ∧ ofJson (.object members) = .ok c := by
  unfold ofString at h
  rcases hparse : Json.ofString? s with _ | v
  · rw [hparse] at h
    cases h
  · simp only [hparse] at h
    by_cases hv : ∃ members, v = .object members
    · obtain ⟨members, rfl⟩ := hv
      exact ⟨members, rfl, h⟩
    · rw [ofJson_of_not_object (not_exists.1 hv)] at h
      cases h

theorem refused_of_ofString {s : String} {stop : Stop} (h : ofString s = .error stop) :
    Refused s stop := by
  unfold ofString at h
  rcases hparse : Json.ofString? s with _ | v
  · rw [hparse] at h
    obtain rfl := Except.error.inj h
    exact .json hparse
  · simp only [hparse] at h
    by_cases hv : ∃ members, v = .object members
    · obtain ⟨members, rfl⟩ := hv
      obtain ⟨name, v, hv, hbad, rfl, hfirst⟩ := not_addsUp_of_ofJson h
      exact .member hparse hv hbad hfirst
    · rw [ofJson_of_not_object (not_exists.1 hv)] at h
      obtain rfl := Except.error.inj h
      exact .root hparse (not_exists.1 hv)

/-- **What is accepted, and what is refused.** A text that is read is an object, all of whose
members have only numbers in them, as many as the lengths along their first items multiply to; these
lengths are the dimensions. If there are any numbers in it, such a member is rectangular if and only
if no part of it is longer than the first one at its depth. A text that is not read is refused for a
reason that fits. -/
theorem ofString_outcome (s : String) :
    match ofString s with
    | .ok c => ∃ members, Json.ofString? s = some (.object members) ∧
        ∀ name v, Json.member? members name = some v →
          v.AddsUp ∧ c.dims name = .ok v.shape ∧ (∀ w, v.Leaf w → ∃ x, w = .number x) ∧
            (0 < v.shape.prod → (v.Rectangular v.shape ↔ v.Within v.shape))
    | .error stop => Refused s stop := by
  rcases hread : ofString s with stop | c
  · exact refused_of_ofString hread
  · obtain ⟨members, hparse, hok⟩ := exists_of_ofString hread
    have hadds (name : String) (v : Json) (hv : Json.member? members name = some v) : v.AddsUp :=
      addsUp_of_ofJson hok hv
    obtain ⟨c', hok', -, hvars⟩ := ofJson_of_addsUp hadds
    obtain rfl := Except.ok.inj (hok.symm.trans hok')
    refine ⟨members, hparse, fun name v hv => ?_⟩
    have hv' := hadds name v hv
    obtain ⟨x, hx, hlookup⟩ := hvars name v hv
    have hdims : c.dims name = .ok v.shape := hx.dims ▸ dims_of_lookup hlookup
    exact ⟨hv', hdims, fun _ => hv'.leaf, hv'.rectangular_iff⟩

/-- **An array may be accepted without being rectangular.** -/
theorem not_rectangular_of_ofString :
    ¬ ∀ s c, ofString s = .ok c → ∃ members, Json.ofString? s = some (.object members) ∧
      ∀ name v, Json.member? members name = some v → ∃ dims, v.Rectangular dims := by
  intro h
  let s := "\x7b\"a\": [1, [2]]\x7d"
  let v : Json := .array [.number 1, .array [.number 2]]
  have hparse : Json.ofString? s = some (.object [("a", v)]) := by decide +kernel
  have hadds : ∀ name w, Json.member? [("a", v)] name = some w → w.AddsUp := by
    intro name w hw
    have hmem := Json.mem_of_member? hw
    simp only [List.mem_singleton, Prod.mk.injEq] at hmem
    obtain ⟨-, rfl⟩ := hmem
    exact ⟨[1, 2], rfl, rfl⟩
  obtain ⟨c, hok, -, -⟩ := ofJson_of_addsUp hadds
  obtain ⟨members, hparse', hrect⟩ := h s c (by rw [ofString, hparse]; exact hok)
  obtain rfl := Json.object.inj (Option.some.inj (hparse.symm.trans hparse'))
  obtain ⟨dims, hdims⟩ := hrect "a" v rfl
  change (Json.array [.number 1, .array [.number 2]]).Rectangular dims at hdims
  -- the first item is a number, and the second one is not
  cases hdims with
  | array hitems =>
    cases hitems _ List.mem_cons_self
    cases hitems (.array [.number 2]) (by simp)

end Context

end LogDensity
