import LogDensity.Proofs.Evaluation.GradientTest

/-!
# The table of a gradient test

A line of the table has columns: texts that are right-aligned (`RightAligned`), with a blank before
each of them (`IsLine`). The first line has the titles of the columns, and each further one shows a
parameter: its position and value, the derivative by the model, the central difference, and how much
the two differ (`IsTable`).

* `isLine_iff`: the columns determine the line.
* `GradientRow.isTable_ofGradients`: the heading and the rows are such a table, with a line for each
  position at which both gradients have an entry.
* `GradientRow.length_filter_fails`: the rows that fail are counted on the gradients.
-/

namespace LogDensity

variable {R : Type}

/-! ## Lines -/

/-- The text `t` is `s` at the right end of a column: with blanks in front, up to a width. -/
structure RightAligned (width : Nat) (s t : String) : Prop where
  length_eq : t.length = max width s.length
  blanks : ∃ n, t = String.ofList (List.replicate n ' ') ++ s

theorem rightAligned_iff {width : Nat} {s t : String} :
    RightAligned width s t ↔ t = Decimal.padLeft width s := by
  constructor
  · rintro ⟨hlength, n, rfl⟩
    have hn : n = width - s.length := by
      simp only [String.length_append, String.length_ofList, List.length_replicate] at hlength
      omega
    rw [hn, Decimal.padLeft]
  · rintro rfl
    refine ⟨?_, _, rfl⟩
    simp only [Decimal.padLeft, String.length_append, String.length_ofList, List.length_replicate]
    omega

/-- The line has a column for each width and text: a blank, and then the text, right-aligned. -/
inductive IsLine : List (Nat × String) → String → Prop
  | nil : IsLine [] ""
  | cons {width : Nat} {s t : String} {columns : List (Nat × String)} {line : String}
    (ht : RightAligned width s t) (hline : IsLine columns line) :
    IsLine ((width, s) :: columns) (" " ++ t ++ line)

/-- A line is determined by its columns. -/
theorem isLine_iff {columns : List (Nat × String)} {line : String} :
    IsLine columns line ↔
      line = String.join (columns.map fun (width, s) => " " ++ Decimal.padLeft width s) := by
  induction columns generalizing line with
  | nil =>
    constructor
    · rintro ⟨⟩
      rfl
    · rintro rfl
      exact .nil
  | cons column columns ih =>
    obtain ⟨width, s⟩ := column
    rw [List.map_cons, String.join_cons]
    constructor
    · rintro (_ | ⟨ht, hline⟩)
      rw [rightAligned_iff.1 ht, ih.1 hline]
    · rintro rfl
      exact .cons (rightAligned_iff.2 rfl) (ih.2 rfl)

namespace GradientRow

theorem isLine_columns (a b c d e : String) :
    IsLine [(10, a), (16, b), (16, c), (16, d), (16, e)] (columns a b c d e) := by
  refine isLine_iff.2 ?_
  simp [columns, toString, String.join_cons, String.append_assoc]

end GradientRow

/-! ## Tables -/

/-- The lines of the table that compares two gradients at given parameters: one with titles, and one
for each position at which both gradients have an entry. It shows the position, the parameter, the
two derivatives, and how much they differ, numbers with six decimals. -/
structure IsTable [Scalar R] [Printable R] (params g f : List R) (titles : String)
    (rows : List String) : Prop where
  titles : IsLine [(10, "param idx"), (16, "value"), (16, "model"), (16, "finite diff"),
    (16, "error")] titles
  length_rows : rows.length = min g.length f.length
  row (k : Nat) (a b : R) (ha : g[k]? = some a) (hb : f[k]? = some b) :
    ∃ x line, params[k]? = some x ∧ rows[k]? = some line ∧
      IsLine [(10, toString k), (16, Printable.fixed 6 x), (16, Printable.fixed 6 a),
        (16, Printable.fixed 6 b), (16, Printable.fixed 6 (a - b))] line

namespace GradientRow

variable {params g f : List R}

theorem getElem?_ofGradients {k : Nat} {x a b : R} (hx : params[k]? = some x)
    (ha : g[k]? = some a) (hb : f[k]? = some b) :
    (ofGradients params g f)[k]? = some ⟨k, x, a, b⟩ := by
  have hzip : (params.zip (g.zip f))[k]? = some (x, a, b) :=
    List.getElem?_zip_eq_some.2 ⟨hx, List.getElem?_zip_eq_some.2 ⟨ha, hb⟩⟩
  rw [ofGradients, List.getElem?_map, List.getElem?_zipIdx, hzip, Nat.zero_add]
  rfl

variable (hf : f.length ≤ params.length)

include hf

theorem length_ofGradients : (ofGradients params g f).length = min g.length f.length := by
  rw [ofGradients, List.length_map, List.length_zipIdx, List.length_zip, List.length_zip]
  omega

/-- The rows that fail are the pairs of entries that differ by more than the tolerance. -/
theorem length_filter_fails [Scalar R] (tolerance : R) :
    ((ofGradients params g f).filter (fails tolerance)).length =
      (g.zip f).countP fun (a, b) => Elementary.less tolerance (Elementary.abs (a - b)) := by
  have hlength : (g.zip f).length ≤ params.length := by
    rw [List.length_zip]
    omega
  have hpairs : (ofGradients params g f).map (fun r => (r.model, r.finiteDifference)) =
      g.zip f := by
    calc (ofGradients params g f).map (fun r => (r.model, r.finiteDifference))
        = (params.zip (g.zip f)).zipIdx.map (Prod.snd ∘ Prod.fst) := List.map_map
      _ = ((params.zip (g.zip f)).zipIdx.map Prod.fst).map Prod.snd := List.map_map.symm
      _ = g.zip f := by rw [List.zipIdx_map_fst, List.map_snd_zip hlength]
  rw [← hpairs, List.countP_map, ← List.countP_eq_length_filter]
  rfl

/-- **The heading and the rows are a table of the two gradients.** -/
theorem isTable_ofGradients [Scalar R] [Printable R] :
    IsTable params g f heading ((ofGradients params g f).map text) where
  titles := isLine_columns ..
  length_rows := by rw [List.length_map, length_ofGradients hf]
  row k a b ha hb := by
    have hk : k < params.length := (List.getElem?_eq_some_iff.1 hb).1.trans_le hf
    have hx : params[k]? = some params[k] := List.getElem?_eq_getElem hk
    refine ⟨params[k], text ⟨k, params[k], a, b⟩, hx, ?_, isLine_columns ..⟩
    rw [List.getElem?_map, getElem?_ofGradients hx ha hb, Option.map_some]

end GradientRow

end LogDensity
