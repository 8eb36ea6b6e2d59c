import LogDensity.Proofs.Tape.ChainRule

/-!
# Sweeps succeed

Whatever arithmetic does, a sweep stops for one reason only: a number that it is asked about is not
live. If operands come before their nodes, no adjoint is looked for beyond the end
(`Tape.spread_eq_ok`, `Tape.sweep_eq_ok`), so the gradient of a live result with respect to live
numbers is there, with one entry for each of them (`Tape.gradient_eq_ok`).
-/

namespace LogDensity.Tape

variable {R : Type} [Add R] [Mul R]

/-- Operands within the range of the adjoints get what is spread. -/
theorem spread_eq_ok {mark : Nat} (a : R) {operands : List (Nat × R)} {adjoints : Array R}
    (h : ∀ o ∈ operands, o.1 < mark + adjoints.size) :
    ∃ adjoints', spread mark a operands adjoints = .ok adjoints' ∧
      adjoints'.size = adjoints.size := by
  induction operands generalizing adjoints with
  | nil => exact ⟨adjoints, rfl, rfl⟩
  | cons o operands ih =>
    obtain ⟨i, p⟩ := o
    have hi : i < mark + adjoints.size := h (i, p) List.mem_cons_self
    have htail : ∀ o ∈ operands, o.1 < mark + adjoints.size :=
      fun o ho => h o (List.mem_cons_of_mem _ ho)
    rw [spread]
    by_cases him : i < mark
    · rw [if_pos him]
      exact ih htail
    · rw [if_neg him, Array.getElem?_eq_getElem (show i - mark < adjoints.size by omega)]
      simp only
      have htail' (a : R) : ∀ o ∈ operands,
          o.1 < mark + (adjoints.setIfInBounds (i - mark) a).size := by
        simpa only [Array.size_setIfInBounds] using htail
      obtain ⟨adjoints', hok, hsize⟩ := ih (htail' _)
      exact ⟨adjoints', hok, hsize.trans Array.size_setIfInBounds⟩

variable [Zero R] [BEq R] {t : Tape R} {mark : Nat}

/-- Nodes that refer backwards can be passed one after the other. -/
theorem sweep_eq_ok (ho : t.OrderedFrom mark) {n : Nat} {adjoints : Array R}
    (hn : n ≤ adjoints.size) (ht : mark + n ≤ t.size) :
    ∃ adjoints', t.sweep mark n adjoints = .ok adjoints' := by
  induction n generalizing adjoints with
  | zero => exact ⟨adjoints, rfl⟩
  | succ n ih =>
    have hnode : t.nodes[mark + n]? = some t.nodes[mark + n] := Array.getElem?_eq_getElem ht
    rw [sweep, Array.getElem?_eq_getElem hn, hnode]
    simp only
    split
    · exact ih (by omega) (by omega)
    · have hback : ∀ o ∈ t.nodes[mark + n].operands, o.1 < mark + adjoints.size := by
        intro o ho'
        have := ho (mark + n) (by omega) _ hnode o ho'
        omega
      obtain ⟨passed, hspread, hsize⟩ := spread_eq_ok adjoints[n] hback
      rw [hspread]
      exact ih (by omega) (by omega)

variable [One R]

/-- **The gradient of a live result exists.** -/
theorem gradient_eq_ok (ho : t.OrderedFrom mark) {out : Dual R} {wrt : List (Dual R)}
    (hout : out.Live t) (hwrt : ∀ x ∈ wrt, x.Live t) :
    ∃ partials, t.gradient mark out wrt = .ok partials ∧ partials.length = wrt.length := by
  have hlive : ∀ x ∈ out :: wrt, x.Live t := List.forall_mem_cons.2 ⟨hout, hwrt⟩
  suffices h : ∃ adjoints', t.adjoints mark out = .ok adjoints' by
    obtain ⟨adjoints', hok⟩ := h
    rw [gradient, if_pos hlive, hok]
    exact ⟨_, rfl, List.length_map _⟩
  unfold adjoints
  cases hoff : offset? mark out with
  | none => exact ⟨_, rfl⟩
  | some i =>
    -- the node of the result lies on the tape, and so within the adjoints
    obtain ⟨h, hh, hindex⟩ := Option.map_eq_some_iff.1 (offset?_eq_some.1 hoff)
    have hlt : mark + i < t.size := hindex ▸ (hout h hh).index_lt
    simp only [Array.size_replicate]
    rw [if_pos (by omega)]
    exact sweep_eq_ok ho (by simp; omega) (by omega)

end LogDensity.Tape
