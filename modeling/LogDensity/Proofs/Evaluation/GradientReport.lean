import LogDensity.Proofs.Evaluation.Capture
import LogDensity.Proofs.Evaluation.CentralDifference
import LogDensity.Proofs.Evaluation.Coordinates
import LogDensity.Proofs.Evaluation.GradientTable

/-!
# The report of a gradient test

A gradient test evaluates the gradient, then the central differences, and collects what the density
writes meanwhile. The logger is given that text, and then, if both were delivered, its settings and
a table with a row for each parameter (`IsTable`).

The test is compared with the two evaluations on their own, each on an empty stream. The central
differences go on where the gradient has left off: with text on the stream and with other nodes on
the tapes, but with the same interrupt. They end as they do on their own, and append the same text
(`Workspace.Resumes`).

* `Model.testGradients_report`: result, messages, warning and interrupts of a gradient test, read
  off the two evaluations.
-/

namespace LogDensity

variable {R α β : Type}

namespace Workspace

theorem polls_informAll (w : Workspace R) (messages : List String) :
    (messages.foldl inform w).polls = w.polls := by
  induction messages generalizing w with
  | nil => rfl
  | cons s messages ih => exact (ih (w.inform s)).trans (polls_inform w s)

theorem polls_flush (w v : Workspace R) (broken : Bool) : (w.flush v broken).polls = v.polls := by
  unfold flush
  dsimp only
  split
  · rfl
  · exact polls_inform ..

/-! ## Two runs on streams -/

/-- Two streams that keep their text, the first one of which held `s` already when the second was
empty; as many interrupts were asked in both workspaces, and `es` is what was heard of the first. -/
structure Resumes (s : String) (es : List Entry) (w w' : Workspace R) : Prop where
  outlet : ∃ t, w.outlet = .stream (.attached (.memory (s ++ t))) ∧
    w'.outlet = .stream (.attached (.memory t))
  polls : w.polls = w'.polls
  heard : w.heard = es

end Workspace

namespace Model

variable [Scalar R] (m : Model R) (interrupt : Nat → Bool) (params : List R) (ints : List Int)
  (mode : Mode) (epsilon : R) (s : String) (es : List Entry)

theorem logProb_resumes :
    Action.Respects (Workspace.Resumes s es) (m.logProb params ints mode) := by
  intro w w' hw
  obtain ⟨t, houtlet, houtlet'⟩ := hw.outlet
  -- the one stream answers what the other one does
  let kept (s : String) : Messages := .attached (.memory s)
  have hsame : (kept (s ++ t)).answers = (kept t).answers := rfl
  obtain ⟨hout, hleft⟩ := Probe.logProb_on m ints mode hsame params houtlet
  obtain ⟨hout', hleft'⟩ := Probe.logProb_on m ints mode (s := kept t) rfl params houtlet'
  obtain ⟨-, hhears⟩ := m.logProb_eq_response params ints mode w
  have hheard := hhears.heard
  rw [houtlet, hw.heard] at hheard
  have hpolls (u : Workspace R) : (m.logProb params ints mode u).2.polls = u.polls :=
    m.polls_logProb params ints mode u
  rw [Messages.writeAll_memory, String.append_assoc] at hleft
  rw [Messages.writeAll_memory] at hleft'
  exact ⟨hout.trans hout'.symm, ⟨_, hleft, hleft'⟩, by rw [hpolls, hpolls, hw.polls],
    hheard.trans (List.append_nil es)⟩

theorem quotientAt_resumes (x : R) (k : Nat) :
    Action.Respects (Workspace.Resumes s es)
      (m.quotientAt interrupt params ints mode epsilon x k) := by
  have hpoll : Action.Respects (R := R) (Workspace.Resumes s es) (Run.poll interrupt) := by
    intro w w' hw
    refine ⟨?_, hw.outlet, ?_, hw.heard⟩
    · simp only [Run.poll, hw.polls]
    · simp only [Run.poll, hw.polls]
  refine .bind hpoll fun stop => ?_
  split
  · exact fun _ _ hw => ⟨rfl, hw⟩
  · exact .bind (m.logProb_resumes _ ints mode s es) fun plus =>
      .bind (m.logProb_resumes _ ints mode s es) fun minus _ _ hw => ⟨rfl, hw⟩

/-- Central differences go on where something else left off as they do from the start. -/
theorem finiteDifference_resumes :
    Action.Respects (Workspace.Resumes s es)
      (m.finiteDifference interrupt params ints mode epsilon) := by
  rw [finiteDifference_eq]
  exact .mapM (fun (x, k) => m.quotientAt_resumes interrupt params ints mode epsilon s es x k) _

/-- The gradient leaves text on an empty stream, and nothing else is heard of it. -/
theorem exists_text_logProbGrad (w : Workspace R) :
    let u := (m.logProbGrad .common params ints mode [] w.collecting).2
    u.outlet = .stream (.attached (.memory u.outlet.text)) ∧ u.heard = w.heard ∧
      u.polls = w.polls := by
  intro u
  obtain ⟨-, hhears⟩ := m.logProbGrad_eq_response .common params ints mode [] w.collecting
  have houtlet : u.outlet = .stream (Messages.writeAll (.attached (.memory "")) _).2 :=
    hhears.outlet
  rw [Messages.writeAll_memory] at houtlet
  refine ⟨?_, hhears.heard.trans (List.append_nil _), m.polls_logProbGrad ..⟩
  rw [houtlet]
  rfl

/-- After the gradient the central differences end as they do from the start, and the text that
they write then comes behind that of the gradient. -/
theorem finiteDifference_after (w : Workspace R) :
    let u := (m.logProbGrad .common params ints mode [] w.collecting).2
    let after := m.finiteDifference interrupt params ints mode epsilon u
    let alone := m.finiteDifference interrupt params ints mode epsilon w.collecting
    after.1 = alone.1 ∧
      after.2.outlet = .stream (.attached (.memory (u.outlet.text ++ alone.2.outlet.text))) ∧
      after.2.heard = w.heard ∧ after.2.polls = alone.2.polls := by
  intro u after alone
  obtain ⟨houtlet, hheard, hpolls⟩ := m.exists_text_logProbGrad params ints mode w
  have hstart : u.Resumes u.outlet.text w.heard w.collecting := by
    refine ⟨⟨"", ?_, rfl⟩, hpolls, hheard⟩
    rw [String.append_empty]
    exact houtlet
  obtain ⟨hout, hend⟩ :=
    m.finiteDifference_resumes interrupt params ints mode epsilon u.outlet.text w.heard hstart
  obtain ⟨t, hafter, halone⟩ := hend.outlet
  have htext : alone.2.outlet.text = t := by
    rw [halone]
    rfl
  exact ⟨hout, by rw [htext]; exact hafter, hend.heard, hend.polls⟩

theorem bothGradients_of_error {w u : Workspace R} {g : List R} {stop : Stop}
    (hgradient : m.logProbGrad .common params ints mode [] w = ((g, .error stop), u)) :
    m.bothGradients interrupt ints mode epsilon params w = (.error stop, u) := by
  refine Run.bind_of_error ?_
  rw [valueAndGradient_eq, hgradient]
  rfl

/-- If the gradient is delivered, the test has gone where the central differences have gone. -/
theorem bothGradients_of_ok {u v : Workspace R} {g : List R} {value : R}
    {outcome : Outcome (List R)} (w : Workspace R)
    (hgradient : m.logProbGrad .common params ints mode [] w.collecting = ((g, .ok value), u))
    (hdifferences : m.finiteDifference interrupt params ints mode epsilon w.collecting =
      (outcome, v)) :
    ∃ u', m.bothGradients interrupt ints mode epsilon params w.collecting =
        (outcome.map fun f => (value, g, f), u') ∧
      u'.outlet = .stream (.attached (.memory (u.outlet.text ++ v.outlet.text))) ∧
      u'.heard = w.heard ∧ u'.polls = v.polls := by
  have hvalue : m.valueAndGradient params ints mode w.collecting = (.ok (value, g), u) := by
    rw [valueAndGradient_eq, hgradient]
    rfl
  obtain ⟨houtcome, hafter⟩ := m.finiteDifference_after interrupt params ints mode epsilon w
  rw [hgradient, hdifferences] at houtcome hafter
  dsimp only at houtcome
  refine ⟨_, ?_, hafter⟩
  rw [← houtcome]
  exact (Run.bind_of_ok hvalue).trans (Run.bind_pure_eq ..)

section Report

variable [Printable R] (tolerance : R)

/-- What a gradient test says of its settings when it has both gradients. -/
def testSettings (value : R) : String :=
  let print := Printable.display (R := R)
  s!" Log probability={print value} ({mode.display}, epsilon={print epsilon}, " ++
    s!"error={print tolerance})"

/-- What a gradient test warns of when entries fail. -/
def testWarning (failed total : Nat) : String :=
  s!"{m.name}: {failed} of {total} gradient coordinates differ from " ++
    s!"finite differences by more than {Printable.display tolerance}"

variable {w v : Workspace R} {text : String} (l : Logger) (htext : v.outlet.text = text)
  (hheard : v.heard = w.heard)

include htext hheard

/-- A test that is stopped gives the logger the text so far, and ends where it was stopped. -/
theorem testGradients_of_error {s : Stop}
    (h : m.bothGradients interrupt ints mode epsilon params w.collecting = (.error s, v)) :
    let out := m.testGradients interrupt params ints mode epsilon tolerance
      { w with outlet := .logger l }
    out.1 = .error s ∧ w.Logs l (collectedCalls out.1 text) [] out.2 ∧ out.2.polls = v.polls ∧
      ∀ home, out.2.tape home = v.tape home := by
  intro out
  let w' : Workspace R := { w with outlet := .logger l }
  have hcollected : Run.collected (m.bothGradients interrupt ints mode epsilon params) w' =
      (.error s, w'.flush v (isBreach (.error s : Outcome Nat))) := by
    rw [isBreach_error]
    exact Action.collected_eq h
  have hout : out = _ := Run.bind_of_error hcollected
  rw [hout]
  exact ⟨rfl, .flush rfl htext hheard, Workspace.polls_flush .., Workspace.tape_flush w' v _⟩

/-- A test that has both gradients gives the logger the text and the table. -/
theorem testGradients_of_ok {value : R} {g f : List R} (hf : f.length ≤ params.length)
    (h : m.bothGradients interrupt ints mode epsilon params w.collecting =
      (.ok (value, g, f), v)) :
    let out := m.testGradients interrupt params ints mode epsilon tolerance
      { w with outlet := .logger l }
    let rows := (GradientRow.ofGradients params g f).map GradientRow.text
    let messages := testSettings mode epsilon tolerance value :: "" :: GradientRow.heading :: rows
    let failed := (g.zip f).countP fun (a, b) =>
      Elementary.less tolerance (Elementary.abs (a - b))
    out.1 = .ok failed ∧
      w.Logs l (collectedCalls out.1 text ++ messages.map fun s => (.info, s))
        (if 0 < failed then [⟨.warn, m.testWarning tolerance failed g.length⟩] else []) out.2 ∧
      out.2.polls = v.polls := by
  intro out rows messages failed
  let flushed := ({ w with outlet := .logger l } : Workspace R).flush v false
  let u := messages.foldl Workspace.inform flushed
  have hcollected : Run.collected (m.bothGradients interrupt ints mode epsilon params)
      { w with outlet := .logger l } = (.ok (value, g, f), flushed) :=
    Action.collected_eq h
  have hout : out =
      (.ok failed, if 0 < failed then u.note .warn (m.testWarning tolerance failed g.length)
        else u) := by
    refine (Run.bind_of_ok hcollected).trans ?_
    -- three messages and the rows; then a warning or none
    refine (Run.bind_of_ok (Run.forM_inform GradientRow.text _ _)).trans ?_
    dsimp only
    rw [GradientRow.length_filter_fails hf]
    split <;> rfl
  have hlogs : w.Logs l (collectedCalls (.ok failed) text) [] flushed :=
    .flush rfl htext hheard
  have hmessages := hlogs.informAll messages
  have hpolls : u.polls = v.polls :=
    (Workspace.polls_informAll ..).trans (Workspace.polls_flush ..)
  rw [hout]
  split
  · exact ⟨rfl, hmessages.note _, hpolls⟩
  · exact ⟨rfl, hmessages, hpolls⟩

omit htext hheard

/-- **A gradient test reports what it computed.** It is compared with the gradient and the central
differences, each evaluated by itself on an empty stream. If one of the two stops, so does the test,
and the logger is given no more than the text written so far; no interrupt is asked before the
gradient is there. If both are delivered, the logger is given the whole text, the settings, an empty
message, and the lines of a table: titles, and a row for each position at which both gradients have
an entry, which shows the position, the parameter, the two derivatives and how much they differ. The
result is the number of positions at which they differ by more than the tolerance, and there is one
warning unless it is zero. -/
theorem testGradients_report (w : Workspace R) :
    let gradient := m.logProbGrad .common params ints mode [] w.collecting
    let differences := m.finiteDifference interrupt params ints mode epsilon w.collecting
    let out := m.testGradients interrupt params ints mode epsilon tolerance
      { w with outlet := .logger l }
    let text := gradient.2.outlet.text ++ differences.2.outlet.text
    match gradient.1, differences.1 with
    | (_, .error s), _ =>
      out.1 = .error s ∧ w.Logs l (collectedCalls out.1 gradient.2.outlet.text) [] out.2 ∧
        out.2.polls = w.polls ∧ ∀ home, out.2.tape home = gradient.2.tape home
    | (_, .ok _), .error s =>
      out.1 = .error s ∧ w.Logs l (collectedCalls out.1 text) [] out.2 ∧
        out.2.polls = differences.2.polls
    | (g, .ok value), .ok f =>
      let failed := (g.zip f).countP fun (a, b) =>
        Elementary.less tolerance (Elementary.abs (a - b))
      ∃ titles rows, IsTable params g f titles rows ∧
        let messages := testSettings mode epsilon tolerance value :: "" :: titles :: rows
        out.1 = .ok failed ∧
        w.Logs l (collectedCalls out.1 text ++ messages.map fun s => (.info, s))
          (if 0 < failed then [⟨.warn, m.testWarning tolerance failed g.length⟩] else []) out.2 ∧
        out.2.polls = differences.2.polls := by
  cases hgradient : m.logProbGrad .common params ints mode [] w.collecting with
  | mk result u =>
  cases hdifferences : m.finiteDifference interrupt params ints mode epsilon w.collecting with
  | mk outcome v =>
  obtain ⟨g, value⟩ := result
  cases value with
  | error s =>
    obtain ⟨-, hheard, hpolls⟩ := m.exists_text_logProbGrad params ints mode w
    rw [hgradient] at hheard hpolls
    obtain ⟨hstopped, hlogs, hpolls', htape⟩ :=
      m.testGradients_of_error interrupt params ints mode epsilon tolerance l rfl hheard
        (m.bothGradients_of_error interrupt params ints mode epsilon hgradient)
    exact ⟨hstopped, hlogs, hpolls'.trans hpolls, htape⟩
  | ok value =>
    obtain ⟨u', hboth, houtlet, hheard, hpolls⟩ :=
      m.bothGradients_of_ok interrupt params ints mode epsilon w hgradient hdifferences
    have htext : u'.outlet.text = u.outlet.text ++ v.outlet.text :=
      congrArg Diagnostics.text houtlet
    cases outcome with
    | error s =>
      obtain ⟨hstopped, hlogs, hpolls', -⟩ :=
        m.testGradients_of_error interrupt params ints mode epsilon tolerance l htext hheard hboth
      exact ⟨hstopped, hlogs, hpolls'.trans hpolls⟩
    | ok f =>
      have hf : f.length ≤ params.length :=
        (length_finiteDifference_eq_min hdifferences).trans_le (Nat.min_le_right _ _)
      obtain ⟨hcount, hlogs, hpolls'⟩ :=
        m.testGradients_of_ok interrupt params ints mode epsilon tolerance l htext hheard hf hboth
      exact ⟨GradientRow.heading, _, GradientRow.isTable_ofGradients hf, hcount, hlogs,
        hpolls'.trans hpolls⟩

end Report

/-- The gradient of this model has an entry too many, and the other one fails. -/
theorem testGradients_report_mock :
    let never : Nat → Bool := fun _ => false
    let model : Model Datum := Mock.model
    let params : List Datum := [((-1.5 : Float) : Datum)]
    let out := model.testGradients never params [] .proptoJacobian 1 0
      { outlet := .logger .journal }
    let written := "log_prob_propto_jacobian;"
    let settings := " Log probability=4 (propto=true, jacobian=true, epsilon=1, error=0)"
    let heading := "  param idx            value            model      finite diff            error"
    let line := "          0        -1.500000         1.000000         0.000000         1.000000"
    let messages := [written ++ written ++ written, settings, "", heading, line]
    let warning := "mock: 1 of 2 gradient coordinates differ from finite differences by more than 0"
    out.1 = .ok 1 ∧ out.2.polls = 1 ∧
      ({} : Workspace Datum).Logs .journal (messages.map fun s => (.info, s)) [⟨.warn, warning⟩]
        out.2 := by
  intro never model params out written settings heading line messages warning
  let w : Workspace Datum := {}
  have hgradient : (model.logProbGrad .common params [] .proptoJacobian [] w.collecting).1 =
      ([1, 1], .ok ((4 : Int) : Datum)) := by
    decide +kernel
  have hdifferences : (model.finiteDifference never params [] .proptoJacobian 1 w.collecting).1 =
      .ok [0] := by
    decide +kernel
  have htext : (model.logProbGrad .common params [] .proptoJacobian []
      w.collecting).2.outlet.text = written := by
    decide +kernel
  have htext' : (model.finiteDifference never params [] .proptoJacobian 1
      w.collecting).2.outlet.text = written ++ written := by
    decide +kernel
  have hpolls : (model.finiteDifference never params [] .proptoJacobian 1
      w.collecting).2.polls = 1 := by
    decide +kernel
  have hcount : (([1, 1] : List Datum).zip [0]).countP (fun (a, b) =>
      Elementary.less (0 : Datum) (Elementary.abs (a - b))) = 1 := by
    decide +kernel
  have hreport := testGradients_report model never params [] .proptoJacobian 1 0 .journal w
  dsimp only at hreport
  rw [hgradient, hdifferences, htext, htext', hpolls] at hreport
  obtain ⟨titles, rows, htable, hout, hlogs, hpolls'⟩ := hreport
  rw [hcount] at hout hlogs
  rw [hout] at hlogs
  refine ⟨hout, hpolls', ?_⟩
  -- the table has titles and one row
  obtain ⟨row, rfl⟩ : ∃ row, rows = [row] := List.length_eq_one_iff.1 htable.length_rows
  obtain ⟨x, shown, hx, hrow, hshown⟩ := htable.row 0 1 0 rfl rfl
  obtain rfl := Option.some.inj hx
  obtain rfl := Option.some.inj hrow
  have hheading : titles = heading := (isLine_iff.1 htable.titles).trans (by decide +kernel)
  have hline : row = line := (isLine_iff.1 hshown).trans (by decide +kernel)
  have hsettings : testSettings .proptoJacobian (1 : Datum) 0 ((4 : Int) : Datum) = settings := by
    decide +kernel
  rw [hheading, hline, hsettings] at hlogs
  exact hlogs

end Model

end LogDensity
