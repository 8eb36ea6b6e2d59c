import LogDensity.Context.Table
import Mathlib.Data.List.Forall2
import Mathlib.Data.List.Induction
import Mathlib.Data.String.Basic

/-!
# Tables are finite maps

An insertion changes what is found under its own name and nothing else (`find?_insert`), so a table
made of a list of entries holds the last entry of every name (`find?_ofList`). Insertions keep the
names in strictly ascending order (`Sorted.insert`), and the entries of a table in this order are
what is found under their names (`Sorted.mem_iff`). If the entries of two tables correspond, so does
what is found in them (`lookup_of_forall₂`).
-/

namespace LogDensity.Table

variable {α β : Type}

/-! ## What is found -/

theorem lookup_cons_eq (n other : String) (b : α) (entries : List (String × α)) :
    ((n, b) :: entries).lookup other = if other = n then some b else entries.lookup other := by
  by_cases h : other = n
  · simp [h]
  · simp [List.lookup_cons, h, beq_false_of_ne h]

theorem lookup_insertInto (name other : String) (a : α) (entries : List (String × α)) :
    (insertInto name a entries).lookup other =
      if other = name then some a else entries.lookup other := by
  induction entries with
  | nil => exact lookup_cons_eq name other a []
  | cons e entries ih =>
    obtain ⟨n, b⟩ := e
    unfold insertInto
    split
    · exact lookup_cons_eq name other a _
    · split
      · next heq =>
        subst heq
        simp only [lookup_cons_eq]
        split <;> rfl
      · next hne =>
        simp only [lookup_cons_eq, ih]
        by_cases hn : other = n
        · simp [hn, Ne.symm hne]
        · simp [hn]

/-- An insertion changes what is found under its own name. -/
theorem find?_insert (t : Table α) (name other : String) (a : α) :
    (t.insert name a).find? other = if other = name then some a else t.find? other :=
  lookup_insertInto name other a t.entries

theorem ofList_concat (entries : List (String × α)) (e : String × α) :
    ofList (entries ++ [e]) = (ofList entries).insert e.1 e.2 := by
  simp [ofList]

/-- The table of a list holds the last entry of every name. -/
theorem find?_ofList (entries : List (String × α)) (name : String) :
    (ofList entries).find? name = entries.reverse.lookup name := by
  induction entries using List.reverseRecOn with
  | nil => rfl
  | append_singleton entries e ih =>
    rw [ofList_concat, find?_insert, ih, List.reverse_append, List.reverse_singleton]
    exact (lookup_cons_eq e.1 name e.2 entries.reverse).symm

theorem mem_names {t : Table α} {name : String} : name ∈ t.names ↔ (t.find? name).isSome := by
  obtain ⟨entries⟩ := t
  unfold names find?
  induction entries with
  | nil => simp
  | cons e entries ih =>
    rw [List.map_cons, List.mem_cons, ih, lookup_cons_eq]
    by_cases h : name = e.1
    · simp [h]
    · simp [h]

/-- There is an entry under the names that occur in the list. -/
theorem mem_names_ofList {entries : List (String × α)} {name : String} :
    name ∈ (ofList entries).names ↔ name ∈ entries.map Prod.fst := by
  have hreverse : name ∈ names ⟨entries.reverse⟩ ↔ (entries.reverse.lookup name).isSome := mem_names
  rw [mem_names, find?_ofList, ← hreverse]
  simp [names]

/-! ## The order of the entries -/

/-- The names are in strictly ascending order. -/
def Sorted (t : Table α) : Prop :=
  t.entries.Pairwise fun a b => a.1 < b.1

theorem mem_insertInto {name : String} {a : α} {entries : List (String × α)} {e : String × α}
    (h : e ∈ insertInto name a entries) : e = (name, a) ∨ e ∈ entries := by
  induction entries with
  | nil => exact .inl (List.mem_singleton.1 h)
  | cons f entries ih =>
    unfold insertInto at h
    split at h
    · exact List.mem_cons.1 h
    · split at h
      · exact (List.mem_cons.1 h).imp_right (List.mem_cons_of_mem f)
      · rcases List.mem_cons.1 h with rfl | h
        · exact .inr List.mem_cons_self
        · exact (ih h).imp_right (List.mem_cons_of_mem f)

theorem Sorted.insert {t : Table α} (h : t.Sorted) (name : String) (a : α) :
    (t.insert name a).Sorted := by
  obtain ⟨entries⟩ := t
  unfold Sorted Table.insert at *
  induction entries with
  | nil => exact List.pairwise_singleton _ _
  | cons e entries ih =>
    obtain ⟨hhead, htail⟩ := List.pairwise_cons.1 h
    unfold insertInto
    split
    · next hlt =>
      refine List.pairwise_cons.2 ⟨fun f hf => ?_, h⟩
      rcases List.mem_cons.1 hf with rfl | hf
      · exact hlt
      · exact hlt.trans (hhead f hf)
    · next hge =>
      split
      · next heq => exact List.pairwise_cons.2 ⟨heq ▸ hhead, htail⟩
      · next hne =>
        refine List.pairwise_cons.2 ⟨fun f hf => ?_, ih htail⟩
        rcases mem_insertInto hf with rfl | hf
        · exact lt_of_le_of_ne (not_lt.1 hge) (Ne.symm hne)
        · exact hhead f hf

theorem sorted_ofList (entries : List (String × α)) : (ofList entries).Sorted := by
  induction entries using List.reverseRecOn with
  | nil => exact List.Pairwise.nil
  | append_singleton entries e ih =>
    rw [ofList_concat]
    exact ih.insert e.1 e.2

/-- In an ordered table the entries are what is found under their names. -/
theorem Sorted.mem_iff {t : Table α} (h : t.Sorted) {name : String} {a : α} :
    (name, a) ∈ t.entries ↔ t.find? name = some a := by
  obtain ⟨entries⟩ := t
  unfold Sorted find? at *
  induction entries with
  | nil => simp
  | cons e entries ih =>
    obtain ⟨hhead, htail⟩ := List.pairwise_cons.1 h
    rw [List.mem_cons, ih htail, lookup_cons_eq]
    split
    · next heq =>
      subst heq
      constructor
      · rintro (heq | hmem)
        · exact congrArg (some ∘ Prod.snd) heq.symm
        · exact absurd (hhead _ ((ih htail).2 hmem)) (lt_irrefl _)
      · intro ha
        exact .inl (Prod.ext rfl (Option.some.inj ha).symm)
    · next hne =>
      exact ⟨fun ha => ha.resolve_left fun heq => hne (congrArg Prod.fst heq), .inr⟩

theorem Sorted.names {t : Table α} (h : t.Sorted) : t.names.Pairwise (· < ·) :=
  List.pairwise_map.2 h

/-- An entry whose name comes after all others goes to the end. -/
theorem insertInto_of_forall_lt {name : String} (a : α) {entries : List (String × α)}
    (h : ∀ e ∈ entries, e.1 < name) : insertInto name a entries = entries ++ [(name, a)] := by
  induction entries with
  | nil => rfl
  | cons e entries ih =>
    obtain ⟨hhead, htail⟩ := List.forall_mem_cons.1 h
    rw [insertInto, if_neg hhead.not_gt, if_neg hhead.ne', ih htail, List.cons_append]

/-! ## Corresponding entries -/

variable {R : α → β → Prop} {as : List (String × α)} {bs : List (String × β)}

theorem map_fst_of_forall₂ (h : List.Forall₂ (fun a b => a.1 = b.1 ∧ R a.2 b.2) as bs) :
    as.map Prod.fst = bs.map Prod.fst := by
  induction h with
  | nil => rfl
  | cons hhead _ ih => rw [List.map_cons, List.map_cons, hhead.1, ih]

theorem lookup_of_forall₂ (h : List.Forall₂ (fun a b => a.1 = b.1 ∧ R a.2 b.2) as bs)
    {name : String} {a : α} (ha : as.lookup name = some a) :
    ∃ b, bs.lookup name = some b ∧ R a b := by
  induction h with
  | nil => cases ha
  | @cons e f _ _ hhead _ ih =>
    rw [lookup_cons_eq] at ha ⊢
    rw [← hhead.1]
    split at ha
    · next heq =>
      obtain rfl := Option.some.inj ha
      exact ⟨f.2, if_pos heq, hhead.2⟩
    · next hne =>
      rw [if_neg hne]
      exact ih ha

end LogDensity.Table
