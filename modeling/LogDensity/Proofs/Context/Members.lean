import LogDensity.Proofs.Context.Odometer
import LogDensity.Proofs.Context.Table

/-!
# The members of an object

An object is read member by member, in the order of the names; of several members of one name the
last one counts (`Json.member?`). A member is stored if it adds up, which means that it has as many
numbers as the lengths along its first items multiply to (`Json.AddsUp`). Otherwise the reading
stops at this member, for a reason that depends on the member alone (`Json.refusal`).

* `Context.ofJson_of_addsUp`: if all members add up, a variable is stored for each of them.
* `Context.not_addsUp_of_ofJson`: if the reading stops, it is at the first member that does not
  add up.
-/

namespace LogDensity

/-! ## Products of dimensions -/

theorem foldlM_product_eq_some {dims : List Nat} {m n : Nat} :
    dims.foldlM (fun n d => if n * d < UInt64.size then some (n * d) else none) m = some n ↔
      n = m * dims.prod ∧ ∀ k < dims.length, m * (dims.take (k + 1)).prod < UInt64.size := by
  induction dims generalizing m with
  | nil => simp [eq_comm]
  | cons d dims ih =>
    rw [List.foldlM_cons, List.length_cons, Nat.forall_lt_succ_left]
    by_cases h : m * d < UInt64.size
    · simpa [h, Nat.mul_assoc] using ih (m := m * d)
    · simp [h]

/-- A product of dimensions is formed if the products of the first ones all fit 64 bits. -/
theorem product?_eq_some {dims : List Nat} {n : Nat} :
    product? dims = some n ↔
      n = dims.prod ∧ ∀ k < dims.length, (dims.take (k + 1)).prod < UInt64.size := by
  unfold product?
  simpa using foldlM_product_eq_some (m := 1)

/-! ## One member -/

namespace Json

/-- The member of an object that counts under a name. -/
def member? (members : List (String × Json)) (name : String) : Option Json :=
  members.reverse.lookup name

theorem mem_of_member? {members : List (String × Json)} {name : String} {v : Json}
    (h : member? members name = some v) : (name, v) ∈ members := by
  obtain ⟨after, before, hsplit, -⟩ := List.lookup_eq_some_iff.1 h
  exact List.mem_reverse.1 (by simp [hsplit])

theorem mem_ofList_iff {members : List (String × Json)} {name : String} {v : Json} :
    (name, v) ∈ (Table.ofList members).entries ↔ member? members name = some v := by
  rw [(Table.sorted_ofList members).mem_iff, Table.find?_ofList, member?]

/-- An array has as many numbers as the lengths along its first items multiply to, and nothing else
in it. -/
def AddsUp (v : Json) : Prop :=
  ∃ xs, v.numbers? = some xs ∧ product? v.shape = some xs.length

/-- The variable has the lengths along the first items of the array as its dimensions, and the
numbers of the array in column-major order as its values. -/
structure Decodes (v : Json) (x : Variable) : Prop where
  dims : x.dims = v.shape
  values : ∃ xs, v.numbers? = some xs ∧ columnMajor v.shape xs = .ok x.values

/-- Why a member that does not add up is refused. -/
def refusal (name : String) (v : Json) : Stop :=
  match v.numbers?, product? v.shape with
  | none, _ => .error (.domain s!"variable `{name}` must contain only numbers")
  | some _, none => .breach .productOverflow
  | some _, some _ => .error (.domain s!"variable `{name}` is ragged")

end Json

namespace Context

/-- A member that adds up is stored. -/
theorem insertJson_of_addsUp {v : Json} (h : v.AddsUp) :
    ∃ x, v.Decodes x ∧ ∀ (c : Context) (name : String),
      c.insertJson name v = .ok ⟨c.table.insert name x⟩ := by
  obtain ⟨xs, hxs, hn⟩ := h
  obtain ⟨ys, hys, hlen, -⟩ := columnMajor_spec (product?_eq_some.1 hn).1
  refine ⟨⟨ys, v.shape⟩, ⟨rfl, xs, hxs, hys⟩, fun c name => ?_⟩
  have hinsert : c.insert name ys v.shape = .ok ⟨c.table.insert name ⟨ys, v.shape⟩⟩ := by
    simp [insert, hn, hlen]
  simp [insertJson, hxs, hn, hys, Except.bind, hinsert, Except.mapError]

/-- A member that does not add up is refused. -/
theorem insertJson_of_not_addsUp {v : Json} (h : ¬ v.AddsUp) (c : Context) (name : String) :
    c.insertJson name v = .error (v.refusal name) := by
  unfold insertJson Json.refusal
  rcases hxs : v.numbers? with _ | xs
  · rfl
  · rcases hn : product? v.shape with _ | n
    · rfl
    · have hne : n ≠ xs.length := fun heq => h ⟨xs, hxs, heq ▸ hn⟩
      simp [hne]

theorem dims_of_lookup {c : Context} {name : String} {x : Variable} (h : c.lookup name = .ok x) :
    c.dims name = .ok x.dims := by
  rw [dims, h]
  rfl

theorem values_of_lookup {c : Context} {name : String} {x : Variable}
    (h : c.lookup name = .ok x) : c.values name = .ok x.values := by
  rw [values, h]
  rfl

/-! ## All members -/

/-- Reads members one after the other. -/
def insertMembers (c : Context) (members : List (String × Json)) : Except Stop Context :=
  members.foldlM (fun c m => c.insertJson m.1 m.2) c

theorem ofJson_object (members : List (String × Json)) :
    ofJson (.object members) = insertMembers {} (Table.ofList members).entries :=
  rfl

theorem insertMembers_cons_of_addsUp {m : String × Json} (h : m.2.AddsUp) (c : Context)
    (members : List (String × Json)) :
    ∃ x, m.2.Decodes x ∧
      c.insertMembers (m :: members) = insertMembers ⟨c.table.insert m.1 x⟩ members := by
  obtain ⟨x, hx, hok⟩ := insertJson_of_addsUp h
  refine ⟨x, hx, ?_⟩
  rw [insertMembers, List.foldlM_cons, hok]
  rfl

theorem insertMembers_cons_of_not_addsUp {m : String × Json} (h : ¬ m.2.AddsUp) (c : Context)
    (members : List (String × Json)) :
    c.insertMembers (m :: members) = .error (m.2.refusal m.1) := by
  rw [insertMembers, List.foldlM_cons, insertJson_of_not_addsUp h]
  rfl

/-- Members that add up are all stored, in the order of the members if their names ascend. -/
theorem insertMembers_of_addsUp {members : List (String × Json)} (h : ∀ m ∈ members, m.2.AddsUp)
    (hsorted : members.Pairwise fun a b => a.1 < b.1) {c : Context}
    (hc : ∀ e ∈ c.table.entries, ∀ m ∈ members, e.1 < m.1) :
    ∃ entries, c.insertMembers members = .ok ⟨⟨c.table.entries ++ entries⟩⟩ ∧
      List.Forall₂ (fun m e => m.1 = e.1 ∧ m.2.Decodes e.2) members entries := by
  induction members generalizing c with
  | nil =>
    refine ⟨[], ?_, .nil⟩
    rw [List.append_nil]
    rfl
  | cons m members ih =>
    obtain ⟨hhead, htail⟩ := List.forall_mem_cons.1 h
    obtain ⟨hlt, hsorted⟩ := List.pairwise_cons.1 hsorted
    obtain ⟨x, hx, hread⟩ := insertMembers_cons_of_addsUp hhead c members
    have hinsert : c.table.insert m.1 x = ⟨c.table.entries ++ [(m.1, x)]⟩ :=
      congrArg Table.mk (Table.insertInto_of_forall_lt x fun e he => hc e he m List.mem_cons_self)
    have hc' : ∀ e ∈ c.table.entries ++ [(m.1, x)], ∀ m' ∈ members, e.1 < m'.1 := by
      intro e he m' hm'
      rcases List.mem_append.1 he with he | he
      · exact hc e he m' (List.mem_cons_of_mem m hm')
      · rw [List.mem_singleton.1 he]
        exact hlt m' hm'
    obtain ⟨entries, hrest, hentries⟩ :=
      ih htail hsorted (c := ⟨⟨c.table.entries ++ [(m.1, x)]⟩⟩) hc'
    refine ⟨(m.1, x) :: entries, ?_, .cons ⟨rfl, hx⟩ hentries⟩
    rw [hread, hinsert, hrest, List.append_assoc]
    rfl

/-- Only members that add up are read to the end. -/
theorem addsUp_of_insertMembers {members : List (String × Json)} {c c' : Context}
    (h : c.insertMembers members = .ok c') : ∀ m ∈ members, m.2.AddsUp := by
  induction members generalizing c with
  | nil => simp
  | cons m members ih =>
    by_cases hm : m.2.AddsUp
    · obtain ⟨x, -, hread⟩ := insertMembers_cons_of_addsUp hm c members
      exact List.forall_mem_cons.2 ⟨hm, ih (hread ▸ h)⟩
    · rw [insertMembers_cons_of_not_addsUp hm] at h
      cases h

/-- If the reading stops, it is at a member that does not add up, and the ones before it do. -/
theorem exists_of_insertMembers {members : List (String × Json)} {c : Context} {stop : Stop}
    (h : c.insertMembers members = .error stop) :
    ∃ before m after, members = before ++ m :: after ∧ (∀ a ∈ before, a.2.AddsUp) ∧
      ¬ m.2.AddsUp ∧ stop = m.2.refusal m.1 := by
  induction members generalizing c with
  | nil => cases h
  | cons m members ih =>
    by_cases hm : m.2.AddsUp
    · obtain ⟨x, -, hread⟩ := insertMembers_cons_of_addsUp hm c members
      obtain ⟨before, m', after, rfl, hbefore, hm', hstop⟩ := ih (hread ▸ h)
      exact ⟨m :: before, m', after, rfl, List.forall_mem_cons.2 ⟨hm, hbefore⟩, hm', hstop⟩
    · rw [insertMembers_cons_of_not_addsUp hm] at h
      exact ⟨[], m, members, rfl, by simp, hm, (Except.error.inj h).symm⟩

/-- **An object whose members add up is read**, and the context has a variable for each of them. -/
theorem ofJson_of_addsUp {members : List (String × Json)}
    (h : ∀ name v, Json.member? members name = some v → v.AddsUp) :
    ∃ c, ofJson (.object members) = .ok c ∧ c.names = (Table.ofList members).names ∧
      ∀ name v, Json.member? members name = some v →
        ∃ x, v.Decodes x ∧ c.lookup name = .ok x := by
  have hadds : ∀ m ∈ (Table.ofList members).entries, m.2.AddsUp :=
    fun m hm => h m.1 m.2 (Json.mem_ofList_iff.1 hm)
  obtain ⟨entries, hread, hentries⟩ := insertMembers_of_addsUp hadds
    (Table.sorted_ofList members) (c := {}) (fun _ he => nomatch he)
  have hnames : entries.map Prod.fst = (Table.ofList members).names :=
    (Table.map_fst_of_forall₂ hentries).symm
  refine ⟨⟨⟨entries⟩⟩, (ofJson_object members).trans hread, hnames, fun name v hv => ?_⟩
  rw [Json.member?, ← Table.find?_ofList] at hv
  obtain ⟨x, hx, hdecodes⟩ := Table.lookup_of_forall₂ hentries hv
  exact ⟨x, hdecodes, by simp [lookup, Table.find?, hx]⟩

theorem addsUp_of_ofJson {members : List (String × Json)} {c : Context}
    (h : ofJson (.object members) = .ok c) {name : String} {v : Json}
    (hv : Json.member? members name = some v) : v.AddsUp := by
  rw [ofJson_object] at h
  exact addsUp_of_insertMembers h (name, v) (Json.mem_ofList_iff.2 hv)

/-- **An object is refused for its first member that does not add up.** -/
theorem not_addsUp_of_ofJson {members : List (String × Json)} {stop : Stop}
    (h : ofJson (.object members) = .error stop) :
    ∃ name v, Json.member? members name = some v ∧ ¬ v.AddsUp ∧ stop = v.refusal name ∧
      ∀ other < name, ∀ w, Json.member? members other = some w → w.AddsUp := by
  rw [ofJson_object] at h
  obtain ⟨before, m, after, hsplit, hbefore, hm, hstop⟩ := exists_of_insertMembers h
  have hsorted : (before ++ m :: after).Pairwise fun a b => a.1 < b.1 :=
    hsplit ▸ Table.sorted_ofList members
  have hmem : (m.1, m.2) ∈ (Table.ofList members).entries := by simp [hsplit]
  refine ⟨m.1, m.2, Json.mem_ofList_iff.1 hmem, hm, hstop, fun other hlt w hw => ?_⟩
  rw [← Json.mem_ofList_iff, hsplit] at hw
  obtain ⟨-, hafter, -⟩ := List.pairwise_append.1 hsorted
  -- a member with a smaller name stands before this one
  rcases List.mem_append.1 hw with hw | hw
  · exact hbefore _ hw
  · rcases List.mem_cons.1 hw with heq | hw
    · exact absurd hlt (by simp [← heq])
    · exact absurd hlt (List.rel_of_pairwise_cons hafter hw).not_gt

end Context

end LogDensity
