import LogDensity.Proofs.Program.Simulation

/-!
# Which way a program goes

A program chooses how to go on by the results it is told. The choices that a run makes show in what
was left to do before each of its steps: `Program.course` lists these programs. Two runs of one
program with equal courses took the same branches.

* `Simulation.course_eq`: runs that a simulation keeps together take the same course.
-/

namespace LogDensity

/-- A list that goes on after a run, and ends where the run stops. -/
def Run.onward {R α β : Type} (act : Run R α) (f : α → Workspace R → List β) (w : Workspace R) :
    List β :=
  match act w with
  | (.ok a, w) => f a w
  | (.error _, _) => []

namespace Program

variable {R V : Type} [Scalar R]

/-- What is left to do before each step of a run. -/
def course (I : Interpretation R V) (env : Array V) : Program R → Workspace R → List (Program R)
  | result x => fun _ => [result x]
  | constant c next => fun w =>
    let v := I.constant c
    constant c next :: (next (I.slot env v)).course I (env.push v) w
  | unary f x next => fun w =>
    unary f x next :: (I.unary f (I.fetch env x)).onward
      (fun v => (next (I.slot env v)).course I (env.push v)) w
  | binary f x y next => fun w =>
    binary f x y next :: (I.binary f (I.fetch env x) (I.fetch env y)).onward
      (fun v => (next (I.slot env v)).course I (env.push v)) w
  | write text next => fun w =>
    write text next :: (Run.write text).onward (fun taken => (next taken).course I env) w
  | active next => fun w =>
    active next :: Run.active.onward (fun kept => (next kept).course I env) w
  | nested name size values body next => fun w =>
    nested name size values body next ::
      (nestedRun name size values body).onward (fun a => (next a.1 a.2).course I env) w
  | fail e => fun _ => [fail e]
  | halt b => fun _ => [halt b]

end Program

namespace Simulation

section

variable {R V W World : Type} [Preorder World] {I : Interpretation R V} {J : Interpretation R W}
  {S : Simulation World I J}

/-- After runs that agree, lists that agree from there on are equal. -/
theorem Agree.onward_eq {α β γ : Type} {r : World → α → β → Prop} {u : World} {act : Run R α}
    {act' : Run R β} {f : α → Workspace R → List γ} {f' : β → Workspace R → List γ}
    {w w' : Workspace R} (h : S.Agree r u (act w) (act' w'))
    (hf : ∀ u' a b v v', u ≤ u' → S.states u' v v' → r u' a b → f a v = f' b v') :
    act.onward f w = act'.onward f' w' := by
  obtain ⟨u', hu, hs, hr⟩ := h
  unfold Run.onward
  generalize act w = out at *
  generalize act' w' = out' at *
  obtain ⟨a, v⟩ := out
  obtain ⟨b, v'⟩ := out'
  cases hr with
  | ok hab => exact hf u' _ _ _ _ hu hs hab
  | error s => rfl

end

variable {R V W World : Type} [Scalar R] [Preorder World] {I : Interpretation R V}
  {J : Interpretation R W} {S : Simulation World I J}

/-- **Runs that belong together take the same course.** -/
theorem course_eq (p : Program R) (hp : p.ScopeFree ∨ S.Nests) {u : World} {w w' : Workspace R}
    {env : Array V} {env' : Array W} (hs : S.states u w w')
    (he : List.Forall₂ (S.values u) env.toList env'.toList) :
    p.course I env w = p.course J env' w' := by
  induction p generalizing u w w' env env' with
  | result x => rfl
  | constant c next ih =>
    have hc : S.values u (I.constant c) (J.constant c) := S.constant u c
    simp only [Program.course]
    rw [slot_eq he hc]
    exact congrArg _ (ih _ (hp.imp_left fun h => h _) hs (values_push le_rfl he hc))
  | unary f x next ih =>
    refine congrArg _ (Agree.onward_eq (S.unary f hs (values_fetch he x)) ?_)
    intro u' a b v v' hu hs' h
    rw [slot_eq (he.imp fun _ _ => S.mono hu) h]
    exact ih _ (hp.imp_left fun h => h _) hs' (values_push hu he h)
  | binary f x y next ih =>
    refine congrArg _
      (Agree.onward_eq (S.binary f hs (values_fetch he x) (values_fetch he y)) ?_)
    intro u' a b v v' hu hs' h
    rw [slot_eq (he.imp fun _ _ => S.mono hu) h]
    exact ih _ (hp.imp_left fun h => h _) hs' (values_push hu he h)
  | write text next ih =>
    refine congrArg _ (Agree.onward_eq (agree_write text hs) ?_)
    rintro u' b _ v v' hu hs' rfl
    exact ih b (hp.imp_left fun h => h b) hs' (he.imp fun _ _ => S.mono hu)
  | active next ih =>
    refine congrArg _ (Agree.onward_eq (agree_active hs) ?_)
    rintro u' b _ v v' hu hs' rfl
    exact ih b (hp.imp_left fun h => h b) hs' (he.imp fun _ _ => S.mono hu)
  | nested name size values body next ihbody ihnext =>
    have hn : S.Nests := hp.resolve_left id
    refine congrArg _
      (Agree.onward_eq (hn name size values body (runs body (.inr hn)) hs) ?_)
    rintro u' a _ v v' hu hs' rfl
    exact ihnext a.1 a.2 (.inr hn) hs' (he.imp fun _ _ => S.mono hu)
  | fail e => rfl
  | halt b => rfl

end Simulation

end LogDensity
