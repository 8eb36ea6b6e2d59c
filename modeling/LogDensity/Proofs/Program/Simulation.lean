import LogDensity.Evaluation.LogProb
import Mathlib.Data.List.Forall2
import Mathlib.Order.CompletePartialOrder

/-!
# Programs run side by side

One program can be run under two interpretations, or under one interpretation in two workspaces. A
`Simulation` says what holds of two such runs while they go on: which workspaces belong together
(`states`) and which numbers do (`values`), relative to a `World` of what is known so far, which
only grows. If every operation keeps the two sides together, so does every program
(`Simulation.runs`): it takes the same branches, writes the same text, and stops with the same
error or breach on both sides, or delivers numbers that belong together.
-/

namespace LogDensity

/-- Both outcomes are values that belong together, or both are the same stop. -/
inductive Outcome.Rel {α β : Type} (r : α → β → Prop) : Outcome α → Outcome β → Prop
  | ok {a : α} {b : β} (h : r a b) : Outcome.Rel r (.ok a) (.ok b)
  | error (s : Stop) : Outcome.Rel r (.error s) (.error s)

theorem Outcome.Rel.imp {α β : Type} {r q : α → β → Prop} {a : Outcome α} {b : Outcome β}
    (h : Outcome.Rel r a b) (hrq : ∀ a b, r a b → q a b) : Outcome.Rel q a b := by
  cases h with
  | ok h => exact .ok (hrq _ _ h)
  | error s => exact .error s

theorem Outcome.Rel.refl {α : Type} (a : Outcome α) : Outcome.Rel Eq a a := by
  cases a with
  | ok a => exact .ok rfl
  | error s => exact .error s

/-- If values that belong together are the values and images of a function, so are the outcomes. -/
theorem Outcome.Rel.eq_map {α β : Type} {r : α → β → Prop} {a : Outcome α} {b : Outcome β}
    (h : Outcome.Rel r a b) {f : β → α} (hf : ∀ a b, r a b → f b = a) : a = b.map f := by
  cases h with
  | ok h => exact congrArg Except.ok (hf _ _ h).symm
  | error s => rfl

theorem Outcome.Rel.eq {α : Type} {a b : Outcome α} (h : Outcome.Rel Eq a b) : a = b := by
  cases h with
  | ok h => rw [h]
  | error s => rfl

namespace Program

variable {R : Type} [Scalar R]

/-- The evaluation of another density within a program. -/
def nestedRun (name : String) (size : Nat) (values : List R) (body : Program R) :
    Run R (R × List R) :=
  Run.silently <| differentiate .common name size values fun vars =>
    body.run (.recorded .common) vars.toArray

/-- The program evaluates no other density, and so opens no scope of its own. -/
def ScopeFree : Program R → Prop
  | result _ => True
  | constant _ next => ∀ x, (next x).ScopeFree
  | unary _ _ next => ∀ x, (next x).ScopeFree
  | binary _ _ _ next => ∀ x, (next x).ScopeFree
  | write _ next => ∀ b, (next b).ScopeFree
  | active next => ∀ b, (next b).ScopeFree
  | nested .. => False
  | fail _ => True
  | halt _ => True

end Program

theorem Interpretation.slots_eq_map {R V : Type} (I : Interpretation R V) (xs : List V) :
    I.slots xs = (xs.map I.primal).zipIdx.map fun p => ⟨p.2, p.1⟩ := by
  rw [slots, List.zipIdx_map, List.map_map]
  rfl

/-- Two interpretations that keep together what belongs together in a growing world. -/
structure Simulation {R V W : Type} (World : Type) [Preorder World] (I : Interpretation R V)
    (J : Interpretation R W) where
  states : World → Workspace R → Workspace R → Prop
  values : World → V → W → Prop
  mono : ∀ {u u' x y}, u ≤ u' → values u x y → values u' x y
  primal : ∀ {u x y}, values u x y → I.primal x = J.primal y
  constant : ∀ u c, values u (I.constant c) (J.constant c)
  outlet : ∀ {u w w'}, states u w w' → w.outlet = w'.outlet
  setOutlet : ∀ {u w w'} (o : Diagnostics), states u w w' →
    states u { w with outlet := o } { w' with outlet := o }
  log : ∀ {u w w'} (entries : List Entry), states u w w' →
    states u { w with journal := w.journal ++ entries } { w' with journal := w'.journal ++ entries }
  unary : ∀ {u w w' x y} (f : Unary), states u w w' → values u x y →
    ∃ u', u ≤ u' ∧ states u' (I.unary f x w).2 (J.unary f y w').2 ∧
      Outcome.Rel (values u') (I.unary f x w).1 (J.unary f y w').1
  binary : ∀ {u w w' x y x' y'} (f : Binary), states u w w' → values u x y → values u x' y' →
    ∃ u', u ≤ u' ∧ states u' (I.binary f x x' w).2 (J.binary f y y' w').2 ∧
      Outcome.Rel (values u') (I.binary f x x' w).1 (J.binary f y y' w').1

namespace Simulation

section Agree

variable {R V W World : Type} [Preorder World] {I : Interpretation R V} {J : Interpretation R W}
  (S : Simulation World I J)

/-- Two runs that began in a world end together in a world that grew from it. -/
def Agree {α β : Type} (r : World → α → β → Prop) (u : World) (a : Outcome α × Workspace R)
    (b : Outcome β × Workspace R) : Prop :=
  ∃ u', u ≤ u' ∧ S.states u' a.2 b.2 ∧ Outcome.Rel (r u') a.1 b.1

variable {S}

theorem Agree.of_le {α β : Type} {r : World → α → β → Prop} {u u' : World}
    {a : Outcome α × Workspace R} {b : Outcome β × Workspace R} (hu : u ≤ u')
    (h : S.Agree r u' a b) : S.Agree r u a b := by
  obtain ⟨u'', hle, h⟩ := h
  exact ⟨u'', hu.trans hle, h⟩

/-- Runs that agree go on together. -/
theorem Agree.bind {α β γ δ : Type} {r : World → α → β → Prop} {q : World → γ → δ → Prop}
    {u : World} {act : Run R α} {act' : Run R β} {f : α → Run R γ} {f' : β → Run R δ}
    {w w' : Workspace R} (h : S.Agree r u (act w) (act' w'))
    (hf : ∀ u' a b v v', u ≤ u' → S.states u' v v' → r u' a b → S.Agree q u' (f a v) (f' b v')) :
    S.Agree q u ((act >>= f) w) ((act' >>= f') w') := by
  obtain ⟨u', hu, hs, hr⟩ := h
  simp only [Bind.bind]
  generalize act w = out at *
  generalize act' w' = out' at *
  obtain ⟨a, v⟩ := out
  obtain ⟨b, v'⟩ := out'
  cases hr with
  | ok hab => exact (hf u' _ _ _ _ hu hs hab).of_le hu
  | error s => exact ⟨u', hu, hs, .error s⟩

theorem agree_write {u : World} {w w' : Workspace R} (text : String) (hs : S.states u w w') :
    S.Agree (fun _ => Eq) u (Run.write text w) (Run.write text w') := by
  unfold Run.write
  rw [← S.outlet hs]
  cases hw : w.outlet with
  | stream m => exact ⟨u, le_rfl, S.setOutlet _ hs, .ok rfl⟩
  | logger l => exact ⟨u, le_rfl, hs, .ok rfl⟩

theorem agree_active {u : World} {w w' : Workspace R} (hs : S.states u w w') :
    S.Agree (fun _ => Eq) u (Run.active w) (Run.active w') := by
  refine ⟨u, le_rfl, hs, ?_⟩
  simp only [Run.active, Run.asks, S.outlet hs]
  exact .ok rfl

theorem states_inform {u : World} {w w' : Workspace R} (message : String)
    (hs : S.states u w w') : S.states u (w.inform message) (w'.inform message) := by
  unfold Workspace.inform
  rw [← S.outlet hs]
  cases hw : w.outlet with
  | stream m => exact hs
  | logger l => exact S.setOutlet _ (S.log _ hs)

theorem isBreach_eq {α β : Type} {r : α → β → Prop} {a : Outcome α} {b : Outcome β}
    (h : Outcome.Rel r a b) : isBreach a = isBreach b := by
  cases h with
  | ok => rfl
  | error s => cases s <;> rfl

/-- Collecting the text of runs that agree gives a logger the same message. -/
theorem Agree.collected {α β : Type} {r : World → α → β → Prop} {u : World} {act : Run R α}
    {act' : Run R β} (h : ∀ {w w'}, S.states u w w' → S.Agree r u (act w) (act' w'))
    {w w' : Workspace R} (hs : S.states u w w') :
    S.Agree r u (Run.collected act w) (Run.collected act' w') := by
  obtain ⟨u', hu, hs', hr⟩ := h (S.setOutlet (.stream (.attached (.memory ""))) hs)
  refine ⟨u', hu, ?_, hr⟩
  simp only [Run.collected, Action.collected]
  rw [← S.outlet hs', ← S.outlet hs, ← isBreach_eq hr]
  split
  · exact S.setOutlet _ hs'
  · exact states_inform _ (S.setOutlet _ hs')

theorem Agree.routed {α β : Type} {r : World → α → β → Prop} {u : World} {act : Run R α}
    {act' : Run R β} (h : ∀ {w w'}, S.states u w w' → S.Agree r u (act w) (act' w'))
    {w w' : Workspace R} (hs : S.states u w w') :
    S.Agree r u (Run.routed act w) (Run.routed act' w') := by
  simp only [Run.routed, Action.routed]
  rw [← S.outlet hs]
  cases w.outlet with
  | stream m => exact h hs
  | logger l => exact Agree.collected h hs

/-- Runs that agree agree without an outlet. -/
theorem Agree.silently {α β : Type} {r : World → α → β → Prop} {u : World} {act : Run R α}
    {act' : Run R β} (h : ∀ {w w'}, S.states u w w' → S.Agree r u (act w) (act' w'))
    {w w' : Workspace R} (hs : S.states u w w') :
    S.Agree r u (Run.silently act w) (Run.silently act' w') := by
  obtain ⟨u', hu, hs', hr⟩ := h (S.setOutlet (.stream .none) hs)
  refine ⟨u', hu, ?_, hr⟩
  simp only [Run.silently, Action.silently]
  rw [← S.outlet hs]
  exact S.setOutlet _ hs'

/-- The results so far with a new one. -/
theorem values_push {u u' : World} {env : Array V} {env' : Array W} {x : V} {y : W}
    (hu : u ≤ u') (he : List.Forall₂ (S.values u) env.toList env'.toList)
    (h : S.values u' x y) :
    List.Forall₂ (S.values u') (env.push x).toList (env'.push y).toList := by
  rw [Array.toList_push, Array.toList_push]
  exact List.rel_append (he.imp fun _ _ => S.mono hu) (.cons h .nil)

theorem slot_eq {u : World} {env : Array V} {env' : Array W} {x : V} {y : W}
    (he : List.Forall₂ (S.values u) env.toList env'.toList) (h : S.values u x y) :
    I.slot env x = J.slot env' y := by
  have hlen : env.size = env'.size := he.length_eq
  rw [Interpretation.slot, Interpretation.slot, S.primal h, hlen]

theorem slots_eq {u : World} {xs : List V} {ys : List W} (h : List.Forall₂ (S.values u) xs ys) :
    I.slots xs = J.slots ys := by
  have hprimals : xs.map I.primal = ys.map J.primal := by
    induction h with
    | nil => rfl
    | cons hxy _ ih => rw [List.map_cons, List.map_cons, S.primal hxy, ih]
  rw [I.slots_eq_map, J.slots_eq_map, hprimals]

end Agree

section Runs

variable {R V W World : Type} [Scalar R] [Preorder World] {I : Interpretation R V}
  {J : Interpretation R W} (S : Simulation World I J)

/-- A program keeps together what belongs together. -/
def Runs (p : Program R) : Prop :=
  ∀ {u w w' env env'}, S.states u w w' → List.Forall₂ (S.values u) env.toList env'.toList →
    S.Agree S.values u (p.run I env w) (p.run J env' w')

/-- Evaluations of other densities keep together what belongs together, if their programs do. -/
def Nests : Prop :=
  ∀ name size values body, S.Runs body → ∀ {u w w'}, S.states u w w' →
    S.Agree (fun _ => Eq) u (Program.nestedRun name size values body w)
      (Program.nestedRun name size values body w')

variable {S}

theorem values_fetch {u : World} {env : Array V} {env' : Array W}
    (he : List.Forall₂ (S.values u) env.toList env'.toList) (x : Slot R) :
    S.values u (I.fetch env x) (J.fetch env' x) := by
  have hlen : env.size = env'.size := he.length_eq
  unfold Interpretation.fetch
  by_cases hi : x.index < env.size
  · rw [Array.getElem?_eq_getElem hi, Array.getElem?_eq_getElem (hlen ▸ hi)]
    exact he.get hi (he.length_eq ▸ hi)
  · rw [Array.getElem?_eq_none (Nat.le_of_not_lt hi),
      Array.getElem?_eq_none (hlen ▸ Nat.le_of_not_lt hi)]
    exact S.constant u 0

/-- A result that both sides have found is handed on to programs that agree. -/
theorem agree_next {u u' : World} {env : Array V} {env' : Array W} {x : V} {y : W}
    {w w' : Workspace R} {next : Slot R → Program R} (hnext : ∀ x, S.Runs (next x)) (hu : u ≤ u')
    (he : List.Forall₂ (S.values u) env.toList env'.toList) (hs : S.states u' w w')
    (h : S.values u' x y) :
    S.Agree S.values u' ((next (I.slot env x)).run I (env.push x) w)
      ((next (J.slot env' y)).run J (env'.push y) w') := by
  rw [slot_eq (he.imp fun _ _ => S.mono hu) h]
  exact hnext _ hs (values_push hu he h)

/-- **Programs keep together what belongs together.** -/
theorem runs (p : Program R) (hp : p.ScopeFree ∨ S.Nests) : S.Runs p := by
  induction p with
  | result x =>
    intro u w w' env env' hs he
    exact ⟨u, le_rfl, hs, .ok (values_fetch he x)⟩
  | constant c next ih =>
    intro u w w' env env' hs he
    have hnext : ∀ x, S.Runs (next x) := fun x => ih x (hp.imp_left fun h => h x)
    exact agree_next hnext le_rfl he hs (S.constant u c)
  | unary f x next ih =>
    intro u w w' env env' hs he
    have hnext : ∀ x, S.Runs (next x) := fun x => ih x (hp.imp_left fun h => h x)
    exact Agree.bind (S.unary f hs (values_fetch he x)) fun u' _ _ _ _ hu hs' h =>
      agree_next hnext hu he hs' h
  | binary f x y next ih =>
    intro u w w' env env' hs he
    have hnext : ∀ x, S.Runs (next x) := fun x => ih x (hp.imp_left fun h => h x)
    exact Agree.bind (S.binary f hs (values_fetch he x) (values_fetch he y))
      fun u' _ _ _ _ hu hs' h => agree_next hnext hu he hs' h
  | write text next ih =>
    intro u w w' env env' hs he
    refine Agree.bind (agree_write text hs) fun u' b _ _ _ hu hs' hb => ?_
    subst hb
    exact ih b (hp.imp_left fun h => h b) hs' (he.imp fun _ _ => S.mono hu)
  | active next ih =>
    intro u w w' env env' hs he
    refine Agree.bind (agree_active hs) fun u' b _ _ _ hu hs' hb => ?_
    subst hb
    exact ih b (hp.imp_left fun h => h b) hs' (he.imp fun _ _ => S.mono hu)
  | nested name size values body next ihbody ihnext =>
    intro u w w' env env' hs he
    have hn : S.Nests := hp.resolve_left id
    refine Agree.bind (hn name size values body (ihbody (.inr hn)) hs)
      fun u' a _ _ _ hu hs' ha => ?_
    subst ha
    exact ihnext a.1 a.2 (.inr hn) hs' (he.imp fun _ _ => S.mono hu)
  | fail e =>
    intro u w w' env env' hs he
    exact ⟨u, le_rfl, hs, .error _⟩
  | halt b =>
    intro u w w' env env' hs he
    exact ⟨u, le_rfl, hs, .error _⟩

/-- A density on numbers that belong together. -/
theorem runs_density {program : Mode → List (Slot R) → List Int → Program R} {mode : Mode}
    {ints : List Int} (hp : (∀ xs, (program mode xs ints).ScopeFree) ∨ S.Nests) {u : World}
    {w w' : Workspace R} {xs : List V} {ys : List W} (hs : S.states u w w')
    (h : List.Forall₂ (S.values u) xs ys) :
    S.Agree S.values u (runDensity I program mode ints xs w)
      (runDensity J program mode ints ys w') := by
  unfold runDensity
  rw [slots_eq h]
  exact runs _ (hp.imp_left fun h => h _) hs h

end Runs

end Simulation

end LogDensity
