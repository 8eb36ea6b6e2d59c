import LogDensity.Models.NormalScale
import LogDensity.Proofs.Evaluation.Gradient
import LogDensity.Proofs.Evaluation.Workspace
import LogDensity.Proofs.Program.Simulation
import LogDensity.Proofs.Tape.Stacking

/-!
# Evaluations do not depend on what the tapes hold

Take two workspaces that differ in what is recorded on their tapes, in the serial numbers given out,
and in their journals, and evaluate the same density in both. As the runs go on, both have recorded
the same nodes on top of what was there (`Workspace.Alike`), and a number of one run is the number
of the other one under shifted names. An operation, a scope and a sweep keep this up, so programs do
(`alike`), and with them evaluations of other densities inside a density.

* `Model.logProbGrad_alike`: outcome, gradient and text of a gradient evaluation are the same in
  both workspaces, and so is the number of nodes recorded in its scope.
-/

namespace LogDensity

variable {R : Type}

/-- The journal entry for the release of a tape. -/
def Entry.recovery (before after : Nat) : Entry :=
  ⟨.debug, s!"arena recovered from {before} to {after} nodes"⟩

/-- The entries are equal, or they report releases of the same nodes on top of different tapes. -/
inductive Entry.Similar : Entry → Entry → Prop
  | refl (e : Entry) : Similar e e
  | recovery (size size' before after : Nat) :
    Similar (recovery (size + before) (size + after)) (recovery (size' + before) (size' + after))

namespace Workspace

theorem release_eq (w : Workspace R) (home : Home) (mark : Nat) :
    w.release home mark =
      { w.setTape ((w.tape home).release mark) home with
        journal := w.journal.push
          (.recovery (w.tape home).size ((w.tape home).release mark).size) } := by
  rw [release, note, journal_setTape]
  rfl

/-- What was done in a workspace `w` that was `u` before, and in `w'` that was `u'`, is the same:
the nodes recorded on each tape, the text, and the entries made in the journal. -/
structure Alike (u u' w w' : Workspace R) : Prop where
  tapes : ∀ home, ∃ t, w.tape home = (u.tape home).atop t ∧ w'.tape home = (u'.tape home).atop t
  outlet : w.outlet = w'.outlet
  journal : ∃ es es', w.journal.toList = u.journal.toList ++ es ∧
    w'.journal.toList = u'.journal.toList ++ es' ∧ List.Forall₂ Entry.Similar es es'

namespace Alike

variable {u u' w w' : Workspace R}

theorem start (h : u.outlet = u'.outlet) : Alike u u' u u' where
  tapes _ := ⟨{}, (Tape.atop_empty _).symm, (Tape.atop_empty _).symm⟩
  outlet := h
  journal := ⟨[], [], (List.append_nil _).symm, (List.append_nil _).symm, .nil⟩

theorem log (h : Alike u u' w w') {es es' : List Entry} (hes : List.Forall₂ Entry.Similar es es') :
    Alike u u' { w with journal := w.journal ++ es } { w' with journal := w'.journal ++ es' } where
  tapes := h.tapes
  outlet := h.outlet
  journal := by
    obtain ⟨fs, fs', hw, hw', hfs⟩ := h.journal
    refine ⟨fs ++ es, fs' ++ es', ?_, ?_, List.rel_append hfs hes⟩
    · simp [hw]
    · simp [hw']

theorem note (h : Alike u u' w w') (level : Level) (text : String) :
    Alike u u' (w.note level text) (w'.note level text) := by
  simpa [Workspace.note] using h.log (.cons (.refl ⟨level, text⟩) .nil)

/-- Replacing the tapes by others with the same nodes on top. -/
theorem setTape (h : Alike u u' w w') (home : Home) (t : Tape R) :
    Alike u u' (w.setTape ((u.tape home).atop t) home)
      (w'.setTape ((u'.tape home).atop t) home) where
  tapes other := by
    by_cases hne : other = home
    · subst hne
      exact ⟨t, tape_setTape .., tape_setTape ..⟩
    · rw [tape_setTape_of_ne _ _ hne, tape_setTape_of_ne _ _ hne]
      exact h.tapes other
  outlet := by
    rw [outlet_setTape, outlet_setTape]
    exact h.outlet
  journal := by
    rw [journal_setTape, journal_setTape]
    exact h.journal

/-- Releasing the tapes to marks at the same distance. -/
theorem release (h : Alike u u' w w') (home : Home) (mark : Nat) :
    Alike u u' (w.release home ((u.tape home).size + mark))
      (w'.release home ((u'.tape home).size + mark)) := by
  obtain ⟨t, ht, ht'⟩ := h.tapes home
  have hset := h.setTape home (t.release mark)
  rw [release_eq, release_eq, ht, ht']
  simp only [Tape.release_atop, Tape.size_atop]
  have hlog := hset.log (.cons (.recovery (u.tape home).size (u'.tape home).size t.size
    (t.release mark).size) .nil)
  simpa using hlog

/-- The journals of a scope and of another one in which as many nodes were recorded. -/
theorem exists_recovery (h : Alike u u' w w') (home : Home) :
    ∃ n es es',
      (w.release home (u.tape home).size).journal.toList = u.journal.toList ++ es ++
        [.recovery ((u.tape home).size + n) (u.tape home).size] ∧
      (w'.release home (u'.tape home).size).journal.toList = u'.journal.toList ++ es' ++
        [.recovery ((u'.tape home).size + n) (u'.tape home).size] ∧
      List.Forall₂ Entry.Similar es es' := by
  obtain ⟨t, ht, ht'⟩ := h.tapes home
  obtain ⟨es, es', hw, hw', hes⟩ := h.journal
  have hsize (b : Tape R) : ((b.atop t).release b.size).size = b.size := by
    have hrelease := b.release_atop t 0
    rw [Nat.add_zero] at hrelease
    rw [hrelease, Tape.size_atop]
    simp [Tape.release, Tape.size]
  refine ⟨t.size, es, es', ?_, ?_, hes⟩
  · rw [release_eq, ht, ← hw, hsize, Tape.size_atop, Array.toList_push]
  · rw [release_eq, ht', ← hw', hsize, Tape.size_atop, Array.toList_push]

/-- Acting in the same way on tapes that hold the same nodes on top. -/
theorem onTape (h : Alike u u' w w') (home : Home) {α β γ : Type} {f : γ → α} {f' : γ → β}
    (act : Tape R → Except Breach α × Tape R) (act' : Tape R → Except Breach β × Tape R)
    (top : Tape R → Except Breach γ × Tape R)
    (hact : ∀ t, act ((u.tape home).atop t) = ((top t).1.map f, (u.tape home).atop (top t).2))
    (hact' : ∀ t, act' ((u'.tape home).atop t) =
      ((top t).1.map f', (u'.tape home).atop (top t).2)) :
    Alike u u' (Run.onTape home act w).2 (Run.onTape home act' w').2 ∧
      Outcome.Rel (fun a b => ∃ c, a = f c ∧ b = f' c) (Run.onTape home act w).1
        (Run.onTape home act' w').1 := by
  obtain ⟨t, ht, ht'⟩ := h.tapes home
  simp only [Run.onTape, ht, ht', hact, hact']
  refine ⟨h.setTape home (top t).2, ?_⟩
  cases (top t).1 with
  | ok c => exact .ok ⟨c, rfl, rfl⟩
  | error b => exact .error _

end Alike

end Workspace

section Alike

variable [Scalar R] {u u' w w' : Workspace R}

/-- Recording on tapes that hold different nodes goes together, the names of nodes aside. -/
def alike (u u' : Workspace R) (home : Home) :
    Simulation Unit (Interpretation.recorded (R := R) home) (Interpretation.recorded home) where
  states _ := Workspace.Alike u u'
  values _ x y := ∃ z : Dual R, x = z.shift (u.tape home) ∧ y = z.shift (u'.tape home)
  mono _ h := h
  primal := by
    rintro _ _ _ ⟨z, rfl, rfl⟩
    rfl
  constant _ c := ⟨.constant c, rfl, rfl⟩
  outlet h := h.outlet
  setOutlet _ h := ⟨h.tapes, rfl, h.journal⟩
  log es h := h.log (List.forall₂_same.2 fun e _ => .refl e)
  unary := by
    rintro _ w w' _ _ f hs ⟨z, rfl, rfl⟩
    exact ⟨(), le_rfl, hs.onTape home (Dual.unary · f _) (Dual.unary · f _) (Dual.unary · f z)
      (fun t => Dual.unary_atop _ t f z) fun t => Dual.unary_atop _ t f z⟩
  binary := by
    rintro _ w w' _ _ _ _ f hs ⟨z, rfl, rfl⟩ ⟨z', rfl, rfl⟩
    exact ⟨(), le_rfl, hs.onTape home (Dual.binary · f _ _) (Dual.binary · f _ _)
      (Dual.binary · f z z') (fun t => Dual.binary_atop _ t f z z')
      fun t => Dual.binary_atop _ t f z z'⟩

namespace Workspace.Alike

/-- Fresh variables are the same under shifted names. -/
theorem leaves (h : Alike u u' w w') (home : Home) (xs : List R) :
    (alike u u' home).Agree (fun _ vars vars' => ∃ zs : List (Dual R),
      vars = zs.map (Dual.shift (u.tape home)) ∧ vars' = zs.map (Dual.shift (u'.tape home))) ()
      (Run.leaves home xs w) (Run.leaves home xs w') := by
  have hatop (b t : Tape R) : ((.ok ((b.atop t).leaves xs).1, ((b.atop t).leaves xs).2) :
      Except Breach (List (Dual R)) × Tape R) =
      ((Except.ok (t.leaves xs).1).map (List.map (Dual.shift b)), b.atop (t.leaves xs).2) := by
    rw [Tape.leaves_atop]
    rfl
  exact ⟨(), le_rfl, h.onTape home _ _ (fun t => (.ok (t.leaves xs).1, (t.leaves xs).2))
    (hatop (u.tape home)) (hatop (u'.tape home))⟩

/-- Sweeps give the same derivatives. -/
theorem gradient (h : Alike u u' w w') (home : Home) (mark : Nat) (out : Dual R)
    (wrt : List (Dual R)) :
    (alike u u' home).Agree (fun _ => Eq) ()
      (Run.gradient home ((u.tape home).size + mark) (out.shift (u.tape home))
        (wrt.map (Dual.shift (u.tape home))) w)
      (Run.gradient home ((u'.tape home).size + mark) (out.shift (u'.tape home))
        (wrt.map (Dual.shift (u'.tape home))) w') := by
  have hatop (b t : Tape R) :
      ((b.atop t).gradient (b.size + mark) (out.shift b) (wrt.map (Dual.shift b)), b.atop t) =
        ((t.gradient mark out wrt).map id, b.atop t) := by
    rw [Tape.gradient_atop, Except.map_id, id]
  obtain ⟨hs, hr⟩ := h.onTape home (fun t => (t.gradient _ _ _, t))
    (fun t => (t.gradient _ _ _, t)) (fun t => (t.gradient mark out wrt, t))
    (hatop (u.tape home)) (hatop (u'.tape home))
  refine ⟨(), le_rfl, hs, hr.imp ?_⟩
  rintro _ _ ⟨c, rfl, rfl⟩
  rfl

/-- Scopes on tapes that hold the same nodes on top. -/
theorem withScope (h : Alike u u' w w') (home : Home) {α β : Type} {r : Unit → α → β → Prop}
    {act : Nat → Run R α} {act' : Nat → Run R β}
    (hact : ∀ mark {v v'}, Alike u u' v v' → (alike u u' home).Agree r ()
      (act ((u.tape home).size + mark) v) (act' ((u'.tape home).size + mark) v')) :
    (alike u u' home).Agree r () (Run.withScope home act w) (Run.withScope home act' w') := by
  obtain ⟨t, ht, ht'⟩ := h.tapes home
  obtain ⟨_, hle, hs, hr⟩ := hact t.size h
  simp only [Run.withScope, Action.withScope, ht, ht', Tape.size_atop]
  exact ⟨(), hle, Alike.release hs home t.size, hr⟩

theorem reportNodes (h : Alike u u' w w') (home : Home) (name : String) (size mark : Nat) :
    (alike u u' home).Agree (fun _ => Eq) ()
      (LogDensity.reportNodes home name size ((u.tape home).size + mark) w)
      (LogDensity.reportNodes home name size ((u'.tape home).size + mark) w') := by
  obtain ⟨t, ht, ht'⟩ := h.tapes home
  simp only [LogDensity.reportNodes, Bind.bind, Run.asks, Run.note, ht, ht', Tape.size_atop,
    Nat.add_sub_add_left]
  exact ⟨(), le_rfl, h.note _ _, .ok rfl⟩

section Densities

variable {home : Home} {density density' : List (Dual R) → Run R (Dual R)}

/-- Inside their scopes, gradients of densities that agree agree. -/
theorem gradientIn (h : Alike u u' w w') (name : String) (size : Nat) (xs : List R)
    (hdensity : ∀ {v v' vars vars'}, Alike u u' v v' →
      List.Forall₂ ((alike u u' home).values ()) vars vars' →
      (alike u u' home).Agree (alike u u' home).values () (density vars v) (density' vars' v'))
    (mark : Nat) :
    (alike u u' home).Agree (fun _ => Eq) ()
      (LogDensity.gradientIn home xs density (LogDensity.reportNodes home name size)
        ((u.tape home).size + mark) w)
      (LogDensity.gradientIn home xs density' (LogDensity.reportNodes home name size)
        ((u'.tape home).size + mark) w') := by
  refine Simulation.Agree.bind (h.leaves home xs) fun _ _ _ _ _ _ hs hvars => ?_
  obtain ⟨zs, rfl, rfl⟩ := hvars
  have hvalues : List.Forall₂ ((alike u u' home).values ()) (zs.map (Dual.shift (u.tape home)))
      (zs.map (Dual.shift (u'.tape home))) := by
    rw [List.forall₂_map_left_iff, List.forall₂_map_right_iff, List.forall₂_same]
    exact fun z _ => ⟨z, rfl, rfl⟩
  refine Simulation.Agree.bind (hdensity hs hvalues) fun _ _ _ _ _ _ hs hout => ?_
  obtain ⟨out, rfl, rfl⟩ := hout
  refine Simulation.Agree.bind (Alike.gradient hs home mark out zs) fun _ _ _ _ _ _ hs hp => ?_
  subst hp
  refine Simulation.Agree.bind (Alike.reportNodes hs home name size mark) fun _ _ _ _ _ _ hs _ => ?_
  exact ⟨(), le_rfl, hs, .ok rfl⟩

/-- Gradients of densities that agree agree. -/
theorem differentiate (h : Alike u u' w w') (name : String) (size : Nat) (xs : List R)
    (hdensity : ∀ {v v' vars vars'}, Alike u u' v v' →
      List.Forall₂ ((alike u u' home).values ()) vars vars' →
      (alike u u' home).Agree (alike u u' home).values () (density vars v) (density' vars' v')) :
    (alike u u' home).Agree (fun _ => Eq) () (LogDensity.differentiate home name size xs density w)
      (LogDensity.differentiate home name size xs density' w') := by
  by_cases hsize : size ≤ xs.length
  · rw [differentiate_of_le hsize, differentiate_of_le hsize, gradientAt_eq, gradientAt_eq]
    exact h.withScope home fun mark _ _ hs => Alike.gradientIn hs name size _ hdensity mark
  · rw [differentiate_of_lt (Nat.lt_of_not_le hsize), differentiate_of_lt (Nat.lt_of_not_le hsize)]
    exact ⟨(), le_rfl, h, .error _⟩

end Densities

end Workspace.Alike

/-- Evaluations of other densities record on the common tape, whatever tape the density is on. -/
theorem nests_alike (u u' : Workspace R) (home : Home) : (alike u u' home).Nests := by
  have hcommon (body : Program R) (hbody : (alike u u' .common).Runs body) (name : String)
      (size : Nat) (values : List R) {w w' : Workspace R} (hs : Workspace.Alike u u' w w') :
      (alike u u' .common).Agree (fun _ => Eq) () (Program.nestedRun name size values body w)
        (Program.nestedRun name size values body w') :=
    Simulation.Agree.silently (fun hs => Workspace.Alike.differentiate hs name size values
      fun hs hvars => hbody hs hvars) hs
  have hnests : (alike u u' .common).Nests := fun name size values body hbody _ _ _ hs =>
    hcommon body hbody name size values hs
  intro name size values body _ _ _ _ hs
  exact hcommon body (Simulation.runs body (.inr hnests)) name size values hs

/-- Densities of any programs agree. -/
theorem agree_density (program : Mode → List (Slot R) → List Int → Program R) (home : Home)
    (mode : Mode) (ints : List Int) {vars vars' : List (Dual R)} (hs : Workspace.Alike u u' w w')
    (hvars : List.Forall₂ ((alike u u' home).values ()) vars vars') :
    (alike u u' home).Agree (alike u u' home).values ()
      (Run.routed (runDensity (.recorded home) program mode ints vars) w)
      (Run.routed (runDensity (.recorded home) program mode ints vars') w') :=
  Simulation.Agree.routed (fun hs =>
    Simulation.runs_density (.inr (nests_alike u u' home)) hs hvars) hs

/-- **Gradient evaluations do not depend on what the tapes hold.** In two workspaces with the same
outlet, whatever their tapes and journals are, the evaluation of a templated model has the same
outcome and gives the same buffer; it writes the same text, makes the same entries in the journal,
and records the same number of nodes before the tape is released. -/
theorem Model.logProbGrad_alike {P : Type → Type} [Container P] (space : ParameterSpace)
    (program : Mode → List (Slot R) → List Int → Program R) (home : Home) (params : P R)
    (ints : List Int) (mode : Mode) (buffer : P R) (h : w.outlet = w'.outlet) :
    let model : Model R := ⟨space, .templated program⟩
    let out := model.logProbGrad home params ints mode buffer w
    let out' := model.logProbGrad home params ints mode buffer w'
    out.1 = out'.1 ∧ Workspace.Alike w w' out.2 out'.2 ∧
      (space.size ≤ (Container.toList params).length → ∃ n es es',
        out.2.journal.toList = w.journal.toList ++ es ++
          [.recovery ((w.tape home).size + n) (w.tape home).size] ∧
        out'.2.journal.toList = w'.journal.toList ++ es' ++
          [.recovery ((w'.tape home).size + n) (w'.tape home).size] ∧
        List.Forall₂ Entry.Similar es es') := by
  intro model out out'
  have hstart := Workspace.Alike.start h
  have hdensity {v v' : Workspace R} {vars vars'} (hs : Workspace.Alike w w' v v')
      (hvars : List.Forall₂ ((alike w w' home).values ()) vars vars') :=
    agree_density program home mode ints hs hvars
  obtain ⟨_, -, hs, hr⟩ := hstart.differentiate space.name space.size (Container.toList params)
    hdensity
  have hout : out = _ := Model.logProbGrad_templated space program home params ints mode buffer w
  have hout' : out' = _ := Model.logProbGrad_templated space program home params ints mode buffer w'
  rw [hout, hout']
  refine ⟨congrArg (deliver buffer) hr.eq, hs, fun hsize => ?_⟩
  simp only [evaluation, differentiate_of_le hsize, gradientAt_eq]
  obtain ⟨_, -, hs, -⟩ := hstart.gradientIn space.name space.size _ hdensity 0
  exact Workspace.Alike.exists_recovery hs home

end Alike

theorem Model.logProbGrad_normalScale :
    let w : Workspace Datum := { own := (({} : Tape Datum).leaves [0, 1, 0]).2 }
    let model := NormalScale.model [1, 0] true
    let out := model.logProbGrad .own [0, 1] [] .plain [] w
    let out' := model.logProbGrad .own [0, 1] [] .plain [] {}
    w.outlet = (.stream .none) ∧ out.1 = out'.1 ∧ w.Alike {} out.2 out'.2 := by
  intro w model out out'
  have hout : w.outlet = ({} : Workspace Datum).outlet := rfl
  obtain ⟨hsame, halike, -⟩ := logProbGrad_alike NormalScale.space (NormalScale.program [1, 0] true)
    .own [0, 1] [] .plain [] hout
  exact ⟨hout, hsame, halike⟩

end LogDensity
