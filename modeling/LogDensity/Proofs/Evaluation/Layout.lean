import LogDensity.Models.Quadratic
import LogDensity.Proofs.Evaluation.Agreement
import LogDensity.Proofs.Evaluation.Buffer
import LogDensity.Proofs.Model.Container
import LogDensity.Scalar.Datum

/-!
# Containers and layouts

Parameters come as a flat list or as a dense array of some layout, and the container decides which
entry point of a virtual model is called. What is computed depends on the elements in their order
only: a templated model takes them out of the container first, and so do the dense entries that a
virtual model leaves at their defaults. The gradient goes to a buffer of the same kind, and its old
contents are lost, also if they had another length or layout (`Model.Delivers`).

* `Model.container_irrelevant`: flat lists and dense arrays with the same elements give the same
  density, gradient, failure and text.
-/

namespace LogDensity

variable {R : Type}

namespace Virtual

/-- A virtual model that has no dense entry points of its own. -/
structure DenseByDefault (v : Virtual R) : Prop where
  plain : v.plainDense = fun xs => v.plain xs.toList
  jacobian : v.jacobianDense = fun xs => v.jacobian xs.toList
  propto : v.proptoDense = fun xs => v.propto xs.toList
  proptoJacobian : v.proptoJacobianDense = fun xs => v.proptoJacobian xs.toList
  gradient : v.gradientDense = denseGradient v.gradient

/-- The flat gradient entry does not depend on what is in its buffer: neither its outcome, nor its
text, nor what it delivers. A buffer that is left behind by a failure may differ. -/
def IgnoresBuffer (v : Virtual R) : Prop :=
  ∀ (mode : Mode) (xs buffer buffer' : List R) (m : Messages),
    let out := (v.gradient mode xs buffer).on m
    let out' := (v.gradient mode xs buffer').on m
    out.1.2 = out'.1.2 ∧ out.2 = out'.2 ∧ ∀ x, out.1.2 = .ok x → out.1.1 = out'.1.1

/-- The default of each dense entry is the flat entry of the same mode. -/
theorem DenseByDefault.entryDense {v : Virtual R} (h : v.DenseByDefault) (mode : Mode)
    (xs : Dense R) : v.entryDense mode xs = v.entry mode xs.toList := by
  obtain ⟨propto, jacobian⟩ := mode
  cases propto <;> cases jacobian
  · exact congrFun h.plain xs
  · exact congrFun h.jacobian xs
  · exact congrFun h.propto xs
  · exact congrFun h.proptoJacobian xs

end Virtual

namespace Model

variable [Scalar R]

/-- Whatever is in the buffer, the gradient ends with `outcome` and leaves `w'` behind; and if it
succeeds, the buffer holds `partials`. -/
def Delivers {P : Type → Type} [Container P] (m : Model R) (home : Home) (params : P R)
    (ints : List Int) (mode : Mode) (w : Workspace R) (outcome : Outcome R) (partials : List R)
    (w' : Workspace R) : Prop :=
  ∀ buffer : P R,
    (m.logProbGrad home params ints mode buffer w).1.2 = outcome ∧
      (m.logProbGrad home params ints mode buffer w).2 = w' ∧
      ∀ x, outcome = .ok x →
        Container.toList (m.logProbGrad home params ints mode buffer w).1.1 = partials

section Templated

variable (space : ParameterSpace) (program : Mode → List (Slot R) → List Int → Program R)

/-- What a templated model delivers is determined by the elements of the container. There is a
derivative for each parameter. -/
theorem delivers_templated (home : Home) (xs : List R) (ints : List Int) (mode : Mode)
    (w : Workspace R) :
    ∃ outcome partials w', (∀ x, outcome = .ok x → partials.length = space.size) ∧
      ∀ (P : Type → Type) [Container P] [LawfulContainer P] (params : P R),
        Container.toList params = xs →
          (⟨space, .templated program⟩ : Model R).Delivers home params ints mode w outcome partials
            w' := by
  cases hout : evaluation space program home xs ints mode w with
  | mk out w' =>
    cases out with
    | error s =>
      refine ⟨.error s, [], w', fun x hx => ?_, fun P _ _ params hparams buffer => ?_⟩
      · cases hx
      · rw [logProbGrad_templated, hparams, hout]
        refine ⟨rfl, rfl, fun x hx => ?_⟩
        cases hx
    | ok p =>
      obtain ⟨value, partials⟩ := p
      refine ⟨.ok value, partials, w', fun _ _ => length_of_evaluation_eq_ok hout,
        fun P _ _ params hparams buffer => ?_⟩
      rw [logProbGrad_templated, hparams, hout]
      exact ⟨rfl, rfl, fun _ _ => LawfulContainer.toList_overwrite buffer partials⟩

end Templated

section Virtual

variable (space : ParameterSpace) {entries : Virtual R} (home : Home) (xs : List R)
  (ints : List Int) (mode : Mode) (w : Workspace R)

/-- A flat list goes to the flat gradient entry, and an empty buffer is as good as any. -/
theorem delivers_flat (h : entries.IgnoresBuffer) :
    let out := (entries.gradient mode xs []).on w.outlet.feed
    (⟨space, .virtual entries⟩ : Model R).Delivers home xs ints mode w out.1.2 out.1.1
      (w.told out.2 (isBreach out.1.2)) := by
  intro out buffer
  obtain ⟨houtcome, hstream, hcontents⟩ := h mode xs buffer [] w.outlet.feed
  rw [logProbGrad_virtual]
  refine ⟨houtcome, ?_, fun x hx => ?_⟩
  · exact congrArg₂ w.told hstream (congrArg isBreach houtcome)
  · exact hcontents x (houtcome.trans hx)

/-- A dense array goes through the default of the dense entry to the flat one, with an empty
buffer. -/
theorem delivers_dense (h : entries.DenseByDefault) {params : Dense R}
    (hparams : params.toList = xs) :
    let out := (entries.gradient mode xs []).on w.outlet.feed
    (⟨space, .virtual entries⟩ : Model R).Delivers home params ints mode w out.1.2 out.1.1
      (w.told out.2 (isBreach out.1.2)) := by
  intro out buffer
  rw [logProbGrad_virtual, Virtual.gradientDense_on h.gradient, hparams]
  refine ⟨rfl, rfl, fun x hx => ?_⟩
  simp only [out] at hx
  simp only [hx]
  exact Dense.toList_contiguous _

end Virtual

/-- The density is the same for a dense array and for the list of its elements. -/
theorem logProb_dense {m : Model R}
    (hdefault : ∀ entries, m.density = .virtual entries → entries.DenseByDefault)
    (params : Dense R) (ints : List Int) (mode : Mode) :
    m.logProb params ints mode = m.logProb params.toList ints mode := by
  obtain ⟨space, density⟩ := m
  cases density with
  | templated program => rfl
  | virtual entries =>
    have hentry : Container.entry entries mode params =
        Container.entry entries mode params.toList := (hdefault entries rfl).entryDense mode params
    simp only [logProb, hentry]

/-- **The container does not matter.** Take a templated model, or a virtual model that leaves its
dense entries at their defaults and whose gradient does not depend on what is in the buffer. For a
dense array of any layout the density is what it is for the list of the elements: the same outcome,
the same text, and the same workspace afterwards. The same holds for the gradient, whatever is in
the two buffers and however they are laid out. If it succeeds, both buffers hold the same elements,
and for a templated model as many as it has parameters. -/
theorem container_irrelevant {m : Model R}
    (hdefault : ∀ entries, m.density = .virtual entries → entries.DenseByDefault)
    (hignores : ∀ entries, m.density = .virtual entries → entries.IgnoresBuffer)
    {xs : List R} {params : Dense R} (hparams : params.toList = xs) (home : Home) (ints : List Int)
    (mode : Mode) (w : Workspace R) :
    m.logProb params ints mode w = m.logProb xs ints mode w ∧
      ∃ outcome partials w', m.Delivers home xs ints mode w outcome partials w' ∧
        m.Delivers home params ints mode w outcome partials w' ∧
        (m.kind = .templated → ∀ x, outcome = .ok x → partials.length = m.size) := by
  refine ⟨?_, ?_⟩
  · rw [logProb_dense hdefault, hparams]
  · obtain ⟨space, density⟩ := m
    cases density with
    | templated program =>
      obtain ⟨outcome, partials, w', hlength, hdelivers⟩ :=
        delivers_templated space program home xs ints mode w
      exact ⟨outcome, partials, w', hdelivers List xs rfl, hdelivers Dense params hparams,
        fun _ => hlength⟩
    | virtual entries =>
      refine ⟨_, _, _, delivers_flat space home xs ints mode w (hignores entries rfl),
        delivers_dense space home xs ints mode w (hdefault entries rfl) hparams, fun hkind => ?_⟩
      cases hkind

end Model

namespace Quadratic

variable [Scalar R] (q : Quadratic R)

/-- A quadratic form without entry points of its own has the defaults. -/
theorem denseByDefault (h : q.overrides = []) : q.entries.DenseByDefault := by
  have hnone (e : EntryPoint) : q.overrides.contains e = false := by rw [h]; rfl
  refine ⟨?_, ?_, ?_, ?_, ?_⟩
  all_goals simp only [entries, choose, hnone, Bool.false_eq_true, if_false]

/-- The gradient of a quadratic form does not read its buffer. -/
theorem ignoresBuffer : q.entries.IgnoresBuffer :=
  fun _ _ _ _ _ => ⟨rfl, rfl, fun _ _ => rfl⟩

end Quadratic

/-- A quadratic form that talks, with parameters in three layouts. -/
theorem Model.container_irrelevant_quadratic :
    let q : Quadratic Datum := { coefficients := [1, 1 + 1], talks := true }
    let xs : List Datum := [1, 0]
    let w : Workspace Datum := { outlet := .logger .journal }
    (∀ entries, q.model.density = .virtual entries → entries.DenseByDefault) ∧
      (∀ entries, q.model.density = .virtual entries → entries.IgnoresBuffer) ∧
      ∀ params ∈ [Dense.contiguous xs, Dense.strided xs, Dense.reversed xs], params.toList = xs ∧
        q.model.logProb params [] .proptoJacobian w = q.model.logProb xs [] .proptoJacobian w ∧
        ∃ outcome partials w', q.model.Delivers .own xs [] .proptoJacobian w outcome partials w' ∧
          q.model.Delivers .own params [] .proptoJacobian w outcome partials w' := by
  intro q xs w
  have hdefault : ∀ entries, q.model.density = .virtual entries → entries.DenseByDefault := by
    rintro _ ⟨⟩
    exact q.denseByDefault rfl
  have hignores : ∀ entries, q.model.density = .virtual entries → entries.IgnoresBuffer := by
    rintro _ ⟨⟩
    exact q.ignoresBuffer
  refine ⟨hdefault, hignores, fun params hmem => ?_⟩
  have hparams : params.toList = xs := by
    simp only [List.mem_cons, List.not_mem_nil, or_false] at hmem
    obtain rfl | rfl | rfl := hmem
    · exact Dense.toList_contiguous xs
    · exact Dense.toList_strided xs
    · exact Dense.toList_reversed xs
  obtain ⟨hdensity, outcome, partials, w', hflat, hdense, -⟩ :=
    container_irrelevant hdefault hignores hparams .own [] .proptoJacobian w
  exact ⟨hparams, hdensity, outcome, partials, w', hflat, hdense⟩

end LogDensity
