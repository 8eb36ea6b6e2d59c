import LogDensity.Models.Mock
import LogDensity.Proofs.Evaluation.Sinks

/-!
# Text for a logger

With a logger, all that a density writes during a call is collected, and given to the logger as one
message when the density is done, also if it ended in an error. The message is what a stream would
have received in pieces, and the call ends as it does with a stream (`Captured`). There are two
places where text is collected: around the density in `logProb` and `logProbGrad`, and around the
whole call in `gradient`.

* `Model.captured`: text for a logger is delivered once and completely.
-/

namespace LogDensity

variable {R α : Type}

/-- `logged` is a call in `w` whose text goes to the logger `l`, and `streamed` the same call with a
stream that holds `s` already. Both have the result of the density, whose outcome is `ending` of it.
The logger is called with the whole text, and the stream receives it piece by piece. -/
structure Captured (w : Workspace R) (l : Logger) (s : String) (response : Response R)
    (ending : α → Outcome R) (logged streamed : α × Workspace R) : Prop where
  outcome : ending logged.1 = response.outcome
  result : logged.1 = streamed.1
  outlet : logged.2.outlet = .logger (l.logAll response.calls).1
  heard : logged.2.heard = w.heard ++ visible (some .info) (l.logAll response.calls).2
  stream : streamed.2.outlet = .stream (.attached (.memory (s ++ String.join response.texts)))

namespace Captured

variable {w : Workspace R} {l : Logger} {s : String}

/-- A call that ends as the density does, and lets nothing out but its texts. -/
theorem of_hears {act : Action R α} {ending : α → Outcome R} {response : Messages → Response R}
    (hact : ∀ w, ending (act w).1 = (response w.outlet.feed).outcome ∧
      w.Hears (act w).2 (response w.outlet.feed))
    (hresponse : ∀ m m' : Messages, m.answers = m'.answers → response m = response m')
    (hrespects : Action.Respects (Workspace.Kindred True) act) :
    Captured w l s (response (.attached (.memory s))) ending (act { w with outlet := .logger l })
      (act { w with outlet := .stream (.attached (.memory s)) }) := by
  let logged : Workspace R := { w with outlet := .logger l }
  let streamed : Workspace R := { w with outlet := .stream (.attached (.memory s)) }
  have hkindred : logged.Kindred True streamed := ⟨fun home => by cases home <;> rfl, fun _ => rfl⟩
  -- the logger is given the text of a stream that was empty before
  have hsame : response (.attached (.memory "")) = response (.attached (.memory s)) :=
    hresponse _ _ rfl
  obtain ⟨houtcome, hlogged⟩ := hact logged
  obtain ⟨-, hstreamed⟩ := hact streamed
  have hfeed : logged.outlet.feed = .attached (.memory "") := rfl
  rw [hfeed, hsame] at houtcome hlogged
  refine ⟨houtcome, (hrespects hkindred).1, hlogged.outlet, hlogged.heard, ?_⟩
  have hstream : (act streamed).2.outlet =
    .stream ((Messages.attached (.memory s)).writeAll (response (.attached (.memory s))).texts).2 :=
    hstreamed.outlet
  rw [hstream, Messages.writeAll_memory]

/-- A call that delivers the same in another form, and sounds alike. -/
theorem map {β : Type} {response : Response R} {ending : α → Outcome R}
    {logged streamed : α × Workspace R}
    (h : Captured w l s response ending logged streamed) {f : α → β} {ending' : β → Outcome R}
    (hending : ∀ a, ending' (f a) = ending a) {logged' streamed' : β × Workspace R}
    (hresult : logged'.1 = f logged.1) (hsounds : logged'.2.SoundsLike logged.2)
    (hstreamed : streamed' = (f streamed.1, streamed.2)) :
    Captured w l s response ending' logged' streamed' where
  outcome := by rw [hresult, hending, h.outcome]
  result := by rw [hresult, hstreamed, h.result]
  outlet := hsounds.outlet.trans h.outlet
  heard := hsounds.heard.trans h.heard
  stream := by rw [hstreamed, h.stream]

end Captured

namespace Model

variable [Scalar R]

theorem valueAndGradient_eq (m : Model R) (params : List R) (ints : List Int) (mode : Mode)
    (w : Workspace R) :
    m.valueAndGradient params ints mode w =
      (((m.logProbGrad .common params ints mode [] w).1.2.map fun y =>
          (y, (m.logProbGrad .common params ints mode [] w).1.1)),
        (m.logProbGrad .common params ints mode [] w).2) := by
  unfold valueAndGradient
  generalize m.logProbGrad .common params ints mode [] w = out
  obtain ⟨⟨partials, outcome⟩, v⟩ := out
  cases outcome <;> rfl

/-- **Text for a logger is delivered once and completely.** Whatever the model is, and whether its
density delivers a value or an error: the call ends as the density does; the logger is called once,
with the text that a stream would have received, unless there is none. The gradient as a function
does what the gradient evaluator does for as many parameters as it is given. -/
theorem captured (m : Model R) (ints : List Int) (mode : Mode) (l : Logger) (s : String)
    (w : Workspace R) :
    let logged : Workspace R := { w with outlet := .logger l }
    let streamed : Workspace R := { w with outlet := .stream (.attached (.memory s)) }
    let kept : Messages := .attached (.memory s)
    (∀ (P : Type → Type) [Container P] (params : P R),
      Captured w l s (m.response params ints mode kept) id
        (m.logProb params ints mode logged) (m.logProb params ints mode streamed) ∧
      ∀ home buffer, Captured w l s (m.gradientResponse params ints mode buffer kept) Prod.snd
        (m.logProbGrad home params ints mode buffer logged)
        (m.logProbGrad home params ints mode buffer streamed)) ∧
    ∀ xs : List R,
      Captured w l s ((m.resized xs.length).gradientResponse xs [] .proptoJacobian [] kept)
        (Except.map Prod.fst) (m.gradient xs logged)
        ((m.resized xs.length).valueAndGradient xs [] .proptoJacobian streamed) := by
  intro logged streamed kept
  have hgradient (m : Model R) {P : Type → Type} [Container P] (params : P R) (ints : List Int)
      (mode : Mode) (home : Home) (buffer : P R) :
      Captured w l s (m.gradientResponse params ints mode buffer kept) Prod.snd
        (m.logProbGrad home params ints mode buffer logged)
        (m.logProbGrad home params ints mode buffer streamed) :=
    .of_hears (m.logProbGrad_eq_response home params ints mode buffer)
      (fun _ _ h => gradientResponse_congr (.inl trivial) params ints mode buffer fun _ => h)
      (respects_logProbGrad (.inl trivial) params ints mode home buffer)
  refine ⟨fun P _ params => ⟨?_, hgradient m params ints mode⟩, fun xs => ?_⟩
  · exact .of_hears (m.logProb_eq_response params ints mode)
      (fun _ _ h => response_congr (.inl trivial) params ints mode fun _ => h)
      (respects_logProb (.inl trivial) params ints mode)
  · obtain ⟨hresult, hsounds, -⟩ := m.gradient_eq_logProbGrad xs l w
    let together (out : List R × Outcome R) : Outcome (R × List R) :=
      out.2.map fun y => (y, out.1)
    have hending (out : List R × Outcome R) : (together out).map Prod.fst = out.2 := by
      obtain ⟨partials, outcome⟩ := out
      cases outcome <;> rfl
    exact (hgradient (m.resized xs.length) xs [] .proptoJacobian .common []).map hending hresult
      hsounds (valueAndGradient_eq ..)

/-- A model that writes a text and then fails, and one that writes its name: one line for a logger
that writes to a stream, and one entry in a journal. -/
theorem captured_failing :
    let failing := Failing.model 0
    let mock : Model Datum := Mock.model
    let params : List Datum := [1]
    let w : Workspace Datum := {}
    let lines : Workspace Datum := { w with outlet := .logger (.stream (.memory "")) }
    let journal : Workspace Datum := { w with outlet := .logger .journal }
    let value := failing.logProb params [] .plain lines
    let named := mock.logProbGrad .own params [] .plain [] journal
    let functional := failing.gradient params journal
    value.1 = .error (.error Failing.aboveLimit) ∧
      value.2.outlet = .logger (.stream (.memory "[info] x = 1 is above 0\n")) ∧
      value.2.heard = [] ∧
      named.1.2 = .ok 1 ∧ named.2.heard = [⟨.info, "log_prob;"⟩] ∧
      functional.1.map Prod.fst = .error (.error Failing.aboveLimit) ∧
      functional.2.heard = [⟨.info, "x = 1 is above 0"⟩] := by
  intro failing mock params w lines journal value named functional
  let kept : Messages := .attached (.memory "")
  have hvalue : (failing.response params [] .plain kept).calls = [(.info, "x = 1 is above 0")] := by
    decide +kernel
  have hnamed : (mock.gradientResponse params [] .plain [] kept).calls =
      [(.info, "log_prob;")] := by
    decide +kernel
  have hfunctional : ((failing.resized params.length).gradientResponse params [] .proptoJacobian []
      kept).calls = [(.info, "x = 1 is above 0")] := by
    decide +kernel
  obtain ⟨hplain, -⟩ := captured failing [] .plain (.stream (.memory "")) "" w
  obtain ⟨hgradient, -⟩ := captured mock [] .plain .journal "" w
  obtain ⟨-, hderived⟩ := captured failing [] .plain .journal "" w
  obtain ⟨houtcome, -, houtlet, hheard, -⟩ := (hplain List params).1
  obtain ⟨houtcome', -, -, hheard', -⟩ := (hgradient List params).2 .own []
  obtain ⟨houtcome'', -, -, hheard'', -⟩ := hderived params
  rw [hvalue] at houtlet hheard
  rw [hnamed] at hheard'
  rw [hfunctional] at hheard''
  refine ⟨houtcome.trans ?_, houtlet.trans ?_, hheard.trans ?_, houtcome'.trans ?_,
    hheard'.trans ?_, houtcome''.trans ?_, hheard''.trans ?_⟩ <;> decide +kernel

end Model

end LogDensity
