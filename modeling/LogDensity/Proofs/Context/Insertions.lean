import LogDensity.Proofs.Context.Members
import LogDensity.Proofs.Context.Acceptance

/-!
# Contexts as maps

A context begins empty or is read from a text (`Origin`), and variables are added to it one after
the other (`Insertion`). An insertion is carried out if the dimensions multiply to the number of
values (`Insertion.Fits`), and otherwise leaves the context as it was. Reading a text comes down to
insertions too, one for each member (`Origin.context_eq`), so all contexts are alike: under each
name they have what was inserted last (`Insertion.find?_attemptAll`).

* `Context.consistent`: what is found under a name are the values and dimensions of the last
  insertion under that name that was carried out; the dimensions multiply to the number of values,
  the names ascend, and checked values are refused for a wrong number or a missing name only.
-/

namespace LogDensity

/-! ## Insertions -/

/-- The ways to add a variable to a context. -/
inductive Insertion
  | scalar (name : String) (x : Float)
  | vector (name : String) (xs : List Float)
  | array (name : String) (values : List Float) (dims : List Nat)
  deriving DecidableEq

namespace Insertion

/-- The name of the variable. -/
def name : Insertion → String
  | scalar name _ => name
  | vector name _ => name
  | array name _ _ => name

/-- The values of the variable and its dimensions. -/
def contents : Insertion → Variable
  | scalar _ x => ⟨[x], []⟩
  | vector _ xs => ⟨xs, [xs.length]⟩
  | array _ values dims => ⟨values, dims⟩

/-- The dimensions multiply to the number of values, and do not leave 64 bits on the way. -/
def Fits (i : Insertion) : Prop :=
  i.contents.values.length = i.contents.dims.prod ∧
    ∀ k < i.contents.dims.length, (i.contents.dims.take (k + 1)).prod < UInt64.size

instance : DecidablePred Fits :=
  fun _ => inferInstanceAs (Decidable (_ ∧ _))

/-- Adds the variable. -/
def carryOut (c : Context) : Insertion → Except Breach Context
  | scalar name x => c.withScalar name x
  | vector name xs => c.withVector name xs
  | array name values dims => c.insert name values dims

/-- The context after an attempt to add the variable. -/
def attempt (c : Context) (i : Insertion) : Context :=
  match i.carryOut c with
  | .ok c => c
  | .error _ => c

/-- The context after attempts, one after the other. -/
def attemptAll (c : Context) (made : List Insertion) : Context :=
  made.foldl attempt c

/-- The variable of the last insertion under a name that fits. -/
def latest (made : List Insertion) (name : String) : Option Variable :=
  (made.reverse.find? fun i => i.Fits ∧ i.name = name).map contents

theorem carryOut_eq_insert (c : Context) (i : Insertion) :
    i.carryOut c = c.insert i.name i.contents.values i.contents.dims := by
  cases i <;> rfl

theorem fits_iff {i : Insertion} :
    i.Fits ↔ product? i.contents.dims = some i.contents.values.length :=
  product?_eq_some.symm

theorem carryOut_of_fits {i : Insertion} (h : i.Fits) (c : Context) :
    i.carryOut c = .ok ⟨c.table.insert i.name i.contents⟩ := by
  rw [carryOut_eq_insert, Context.insert, fits_iff.1 h]
  exact if_pos rfl

theorem exists_carryOut_eq_error {i : Insertion} (h : ¬ i.Fits) (c : Context) :
    ∃ b, i.carryOut c = .error b := by
  rw [carryOut_eq_insert, Context.insert]
  cases hn : product? i.contents.dims with
  | none => exact ⟨.productOverflow, rfl⟩
  | some n =>
    have hne : n ≠ i.contents.values.length := by
      rintro rfl
      exact h (fits_iff.2 hn)
    exact ⟨.dimensionMismatch i.name, if_neg hne⟩

/-- **An insertion is carried out if and only if it fits.** -/
theorem exists_carryOut_eq_ok_iff {i : Insertion} {c : Context} :
    (∃ c', i.carryOut c = .ok c') ↔ i.Fits := by
  constructor
  · rintro ⟨c', hok⟩
    by_contra h
    obtain ⟨b, hb⟩ := exists_carryOut_eq_error h c
    rw [hb] at hok
    cases hok
  · exact fun h => ⟨_, carryOut_of_fits h c⟩

theorem attempt_of_fits {i : Insertion} (h : i.Fits) (c : Context) :
    attempt c i = ⟨c.table.insert i.name i.contents⟩ := by
  rw [attempt, carryOut_of_fits h]

/-- An insertion that does not fit changes nothing. -/
theorem attempt_of_not_fits {i : Insertion} (h : ¬ i.Fits) (c : Context) : attempt c i = c := by
  obtain ⟨b, hb⟩ := exists_carryOut_eq_error h c
  rw [attempt, hb]

/-- Only an insertion that fits changes what is found, and only under its own name. -/
theorem find?_attempt (c : Context) (i : Insertion) (name : String) :
    (attempt c i).table.find? name =
      if i.Fits ∧ i.name = name then some i.contents else c.table.find? name := by
  by_cases h : i.Fits
  · rw [attempt_of_fits h, Table.find?_insert]
    simp [h, eq_comm]
  · simp [attempt_of_not_fits h, h]

theorem attemptAll_concat (c : Context) (made : List Insertion) (i : Insertion) :
    attemptAll c (made ++ [i]) = attempt (attemptAll c made) i :=
  List.foldl_concat ..

/-- **What is found after insertions is what was inserted last.** -/
theorem find?_attemptAll (c : Context) (made : List Insertion) (name : String) :
    (attemptAll c made).table.find? name = (latest made name).or (c.table.find? name) := by
  induction made using List.reverseRecOn with
  | nil => rfl
  | append_singleton made i ih =>
    rw [attemptAll_concat, find?_attempt, ih]
    by_cases h : i.Fits ∧ i.name = name <;> simp [latest, h]

theorem sorted_attemptAll {c : Context} (h : c.table.Sorted) (made : List Insertion) :
    (attemptAll c made).table.Sorted := by
  induction made using List.reverseRecOn with
  | nil => exact h
  | append_singleton made i ih =>
    rw [attemptAll_concat]
    by_cases hi : i.Fits
    · rw [attempt_of_fits hi]
      exact ih.insert ..
    · rwa [attempt_of_not_fits hi]

theorem prod_dims_of_latest {made : List Insertion} {name : String} {x : Variable}
    (h : latest made name = some x) : x.dims.prod = x.values.length := by
  obtain ⟨i, hi, rfl⟩ := Option.map_eq_some_iff.1 h
  have hfound := List.find?_some hi
  simp only [decide_eq_true_eq] at hfound
  exact hfound.1.1.symm

end Insertion

/-! ## Origins -/

/-- The variable that a JSON value describes. -/
def Json.toVariable? (v : Json) : Option Variable :=
  v.numbers?.bind fun xs =>
    (columnMajor v.shape xs).toOption.map fun values => ⟨values, v.shape⟩

/-- The insertion that a member of an object stands for. -/
def Insertion.ofMember? (m : String × Json) : Option Insertion :=
  m.2.toVariable?.map fun x => .array m.1 x.values x.dims

/-- What a context begins with. -/
inductive Origin
  | empty
  | text (s : String)

namespace Origin

/-- The context at the beginning. -/
def context : Origin → Except Stop Context
  | empty => .ok {}
  | text s => Context.ofString s

/-- The insertions that the context at the beginning is made of. -/
def insertions : Origin → List Insertion
  | empty => []
  | text s =>
    match Json.ofString? s with
    | some (.object members) => (Table.ofList members).entries.filterMap Insertion.ofMember?
    | _ => []

end Origin

namespace Context

/-- A member that is read is inserted. -/
theorem exists_insertion_of_insertJson {c c' : Context} {name : String} {v : Json}
    (h : c.insertJson name v = .ok c') :
    ∃ i, Insertion.ofMember? (name, v) = some i ∧ i.attempt c = c' := by
  unfold insertJson at h
  cases hxs : v.numbers? with
  | none => simp [hxs] at h
  | some xs =>
    cases hn : product? v.shape with
    | none => simp [hxs, hn] at h
    | some n =>
      simp only [hxs, hn] at h
      split at h
      · cases hys : columnMajor v.shape xs with
        | error b => simp [hys, Except.bind, Except.mapError] at h
        | ok ys =>
          refine ⟨.array name ys v.shape, ?_, ?_⟩
          · simp [Insertion.ofMember?, Json.toVariable?, hxs, hys, Except.toOption]
          · cases hc : c.insert name ys v.shape with
            | error b => simp [hys, hc, Except.bind, Except.mapError] at h
            | ok d =>
              simp only [hys, hc, Except.bind, Except.mapError, Except.ok.injEq] at h
              simp only [Insertion.attempt, Insertion.carryOut, hc, h]
      · cases h

/-- Members that are read are inserted in their order. -/
theorem eq_attemptAll_of_insertMembers {members : List (String × Json)} {c c' : Context}
    (h : c.insertMembers members = .ok c') :
    c' = Insertion.attemptAll c (members.filterMap Insertion.ofMember?) := by
  induction members generalizing c with
  | nil => exact (Except.ok.inj h).symm
  | cons m members ih =>
    rw [insertMembers, List.foldlM_cons] at h
    cases hm : c.insertJson m.1 m.2 with
    | error stop =>
      rw [hm] at h
      cases h
    | ok d =>
      rw [hm] at h
      obtain ⟨i, hi, hd⟩ := exists_insertion_of_insertJson hm
      rw [ih h, List.filterMap_cons_some hi, ← hd]
      rfl

end Context

/-- **A context begins with the insertions of its origin.** -/
theorem Origin.context_eq {origin : Origin} {c : Context} (h : origin.context = .ok c) :
    c = Insertion.attemptAll {} origin.insertions := by
  cases origin with
  | empty => exact (Except.ok.inj h).symm
  | text s =>
    obtain ⟨members, hparse, hread⟩ := Context.exists_of_ofString h
    rw [Origin.insertions, hparse]
    exact Context.eq_attemptAll_of_insertMembers hread

namespace Context

/-! ## Looking up -/

/-- All that can be asked about a name, answered by the variable that is found under it, if any. -/
def Answers (c : Context) (name : String) : Option Variable → Prop
  | some x =>
    c.contains name = true ∧ c.values name = .ok x.values ∧ c.dims name = .ok x.dims ∧
      ∀ n, c.checkedValues name n =
        if x.values.length = n then .ok x.values
        else .error (.sizeMismatch name n x.values.length)
  | none =>
    c.contains name = false ∧ c.values name = .error (.missingVariable name) ∧
      c.dims name = .error (.missingVariable name) ∧
      ∀ n, c.checkedValues name n = .error (.missingVariable name)

theorem answers_find? (c : Context) (name : String) : c.Answers name (c.table.find? name) := by
  cases h : c.table.find? name with
  | none =>
    have hlookup : c.lookup name = .error (.missingVariable name) := by simp [lookup, h]
    have hvalues : c.values name = .error (.missingVariable name) := by rw [values, hlookup]; rfl
    refine ⟨by simp [contains, h], hvalues, by rw [dims, hlookup]; rfl, fun n => ?_⟩
    rw [checkedValues, hvalues]
    rfl
  | some x =>
    have hlookup : c.lookup name = .ok x := by simp [lookup, h]
    have hvalues : c.values name = .ok x.values := values_of_lookup hlookup
    refine ⟨by simp [contains, h], hvalues, dims_of_lookup hlookup, fun n => ?_⟩
    rw [checkedValues, hvalues]
    rfl

/-- **A context is a consistent map.** It begins empty or is read from a text, and then any
insertions are attempted. Under each name there are the values and dimensions of the last insertion
that was carried out under that name, whatever was inserted under other names and whatever was
refused; an insertion is carried out just if it fits. The dimensions multiply to the number of
values, and the names are those under which there is a variable, in ascending order. -/
theorem consistent {origin : Origin} {c₀ : Context} (h : origin.context = .ok c₀)
    (made : List Insertion) :
    let c := Insertion.attemptAll c₀ made
    let latest := Insertion.latest (origin.insertions ++ made)
    (∀ name, c.Answers name (latest name)) ∧
      (∀ name x, latest name = some x → x.dims.prod = x.values.length) ∧
      c.names.Pairwise (· < ·) ∧ (∀ name, name ∈ c.names ↔ c.contains name = true) ∧
      ∀ i : Insertion, (∃ d, i.carryOut c = .ok d) ↔ i.Fits := by
  intro c latest
  have hc : c = Insertion.attemptAll {} (origin.insertions ++ made) := by
    simp only [c, Insertion.attemptAll, List.foldl_append]
    exact congrArg (List.foldl Insertion.attempt · made) (Origin.context_eq h)
  have hfind (name : String) : c.table.find? name = latest name := by
    rw [hc, Insertion.find?_attemptAll]
    exact Option.or_none
  have hsorted : c.table.Sorted := by
    have hempty : (Table.mk [] : Table Variable).Sorted := List.Pairwise.nil
    rw [hc]
    exact Insertion.sorted_attemptAll hempty _
  refine ⟨fun name => ?_, fun name x hx => ?_, hsorted.names, fun name => Table.mem_names, ?_⟩
  · rw [← hfind]
    exact c.answers_find? name
  · exact Insertion.prod_dims_of_latest hx
  · exact fun i => Insertion.exists_carryOut_eq_ok_iff

/-- A text with two rows under one name, and then a vector of that name, a refused array, an empty
array of another name and a scalar in place of it. -/
theorem consistent_rows :
    let origin : Origin := .text "\x7b\"m\": [[1, 2, 3], [4, 5, 6]], \"a\": 7\x7d"
    let made : List Insertion :=
      [.vector "a" [8, 9], .array "m" [1, 2] [3], .array "b" [] [2, 0], .scalar "b" 0]
    ∃ c₀, origin.context = .ok c₀ ∧
      let c := Insertion.attemptAll c₀ made
      c.values "m" = .ok [1, 4, 2, 5, 3, 6] ∧ c.dims "m" = .ok [2, 3] ∧
        c.values "a" = .ok [8, 9] ∧ c.dims "b" = .ok [] ∧
        c.checkedValues "a" 3 = .error (.sizeMismatch "a" 3 2) ∧
        c.values "n" = .error (.missingVariable "n") ∧ c.names.Pairwise (· < ·) := by
  intro origin made
  have hinsertions : origin.insertions =
      [.array "a" [7] [], .array "m" [1, 4, 2, 5, 3, 6] [2, 3]] := by
    decide +kernel
  have hread : origin.context.isOk = true := by decide +kernel
  obtain ⟨c₀, hc₀⟩ : ∃ c₀, origin.context = .ok c₀ := by
    cases h : origin.context with
    | ok c₀ => exact ⟨c₀, rfl⟩
    | error stop => simp [h, Except.isOk, Except.toBool] at hread
  obtain ⟨hanswers, -, hnames, -⟩ := consistent hc₀ made
  rw [hinsertions] at hanswers
  have hm := hanswers "m"
  have ha := hanswers "a"
  exact ⟨c₀, hc₀, hm.2.1, hm.2.2.1, ha.2.1, (hanswers "b").2.2.1, ha.2.2.2 3,
    (hanswers "n").2.1, hnames⟩

end Context

end LogDensity
