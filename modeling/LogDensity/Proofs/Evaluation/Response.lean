import LogDensity.Proofs.Evaluation.Functional
import LogDensity.Proofs.Program.Heedless

/-!
# The response of a density

What a density does by itself, on a stream, is its `Response`: how it ends, and the texts that it
writes before that. A templated density responds as its program does on plain numbers, a virtual one
as its entry point does. An evaluation adds nothing to the response: it ends like the density
(`Model.logProb_eq_response`, `Model.logProbGrad_eq_response`), and what is heard of it is what its
outlet makes of the texts (`Diagnostics.receive`). A stream appends them one by one; a logger is
called once, with all of them together, or not at all (`Workspace.Logs.flush`).
-/

namespace LogDensity

variable {R α : Type}

/-- How a density ends, and the texts that it writes before that. -/
structure Response (R : Type) where
  outcome : Outcome R
  texts : List String

/-- The calls of a logger that collected text leads to: one with all of it; none if there is no
text, or if a contract was broken. -/
def collectedCalls (outcome : Outcome α) (text : String) : List (Severity × String) :=
  if isBreach outcome || text.isEmpty then [] else [(.info, text)]

/-- The calls of a logger that a response leads to. -/
def Response.calls (r : Response R) : List (Severity × String) :=
  collectedCalls r.outcome (String.join r.texts)

/-- The outlet after a response, and the journal entries that it made. -/
def Diagnostics.receive (r : Response R) : Diagnostics → Diagnostics × List Entry
  | .stream m => (.stream (m.writeAll r.texts).2, [])
  | .logger l => (.logger (l.logAll r.calls).1, (l.logAll r.calls).2)

/-- All that came out of a workspace `w` that is `v` now is a response. -/
structure Workspace.Hears (w v : Workspace R) (r : Response R) : Prop where
  outlet : v.outlet = (w.outlet.receive r).1
  heard : v.heard = w.heard ++ visible (some .info) (w.outlet.receive r).2

/-- The logger was called, and then entries were made in the journal; nothing else came out of the
workspace. -/
structure Workspace.Logs (w : Workspace R) (l : Logger) (calls : List (Severity × String))
    (notes : List Entry) (v : Workspace R) : Prop where
  outlet : v.outlet = .logger (l.logAll calls).1
  heard : v.heard = w.heard ++ visible (some .info) (l.logAll calls).2 ++ notes

theorem Logger.logAll_append (l : Logger) (calls later : List (Severity × String)) :
    l.logAll (calls ++ later) = (((l.logAll calls).1.logAll later).1,
      (l.logAll calls).2 ++ ((l.logAll calls).1.logAll later).2) := by
  induction calls generalizing l with
  | nil => rfl
  | cons call calls ih =>
    obtain ⟨severity, message⟩ := call
    simp only [List.cons_append, logAll, ih, List.append_assoc]

namespace Workspace

namespace Logs

variable {w v : Workspace R} {l : Logger} {calls : List (Severity × String)}

theorem of_silence (houtlet : v.outlet = .logger l) (hheard : v.heard = w.heard) :
    w.Logs l [] [] v :=
  ⟨houtlet, by simp [hheard, Logger.logAll, visible]⟩

theorem inform (h : w.Logs l calls [] v) (message : String) :
    w.Logs l (calls ++ [(.info, message)]) [] (v.inform message) := by
  have hcall : (l.logAll calls).1.logAll [(.info, message)] =
      (l.logAll calls).1.log .info message := by
    simp only [Logger.logAll, List.append_nil]
  have hheard := h.heard
  rw [List.append_nil] at hheard
  refine ⟨?_, ?_⟩
  · simp only [Workspace.inform, h.outlet, Logger.logAll_append, hcall]
  · simp only [Workspace.inform, h.outlet, Logger.logAll_append, hcall, List.append_nil]
    rw [visible_append, ← List.append_assoc, ← hheard]
    exact heard_log v _

theorem informAll (h : w.Logs l calls [] v) (messages : List String) :
    w.Logs l (calls ++ messages.map fun s => (.info, s)) []
      (messages.foldl Workspace.inform v) := by
  induction messages generalizing calls v with
  | nil =>
    rw [List.map_nil, List.append_nil]
    exact h
  | cons s messages ih =>
    rw [List.map_cons, List.append_cons]
    exact ih (h.inform s)

theorem note (h : w.Logs l calls [] v) (text : String) :
    w.Logs l calls [⟨.warn, text⟩] (v.note .warn text) where
  outlet := h.outlet
  heard := by
    have hheard := h.heard
    rw [List.append_nil] at hheard
    rw [← hheard, Workspace.heard, Workspace.note, Array.toList_push, visible_append]
    rfl

/-- The logger is given the collected text. -/
theorem flush {u : Workspace R} {outcome : Outcome α} {text : String} (hu : u.outlet = .logger l)
    (htext : v.outlet.text = text) (hheard : v.heard = w.heard) :
    w.Logs l (collectedCalls outcome text) [] (u.flush v (isBreach outcome)) := by
  have hback : w.Logs l [] [] ({ v with outlet := u.outlet } : Workspace R) :=
    .of_silence hu hheard
  rw [Workspace.flush, collectedCalls, htext]
  split
  · exact hback
  · exact hback.inform text

end Logs

theorem Hears.congr {w v v' : Workspace R} {r : Response R} (h : w.Hears v r)
    (hv : v'.SoundsLike v) : w.Hears v' r :=
  ⟨hv.outlet.trans h.outlet, hv.heard.trans h.heard⟩

theorem Hears.of_stream {w v : Workspace R} {m : Messages} {r : Response R}
    (hw : w.outlet = .stream m) (houtlet : v.outlet = .stream (m.writeAll r.texts).2)
    (hheard : v.heard = w.heard) : w.Hears v r := by
  refine ⟨?_, ?_⟩
  · rw [hw]
    exact houtlet
  · rw [hw]
    exact hheard.trans (List.append_nil _).symm

theorem Hears.of_logger {w v : Workspace R} {l : Logger} {r : Response R}
    (hw : w.outlet = .logger l) (h : w.Logs l r.calls [] v) : w.Hears v r := by
  refine ⟨?_, ?_⟩
  · rw [hw]
    exact h.outlet
  · rw [hw]
    exact h.heard.trans (List.append_nil _)

/-- Nothing comes out of a workspace that is left as it was. -/
theorem Hears.of_silence (w : Workspace R) {r : Response R} (hr : r.texts = []) : w.Hears w r := by
  have hcalls : r.calls = [] := by
    rw [Response.calls, hr, String.join_nil]
    exact if_pos (Bool.or_true _)
  cases hw : w.outlet with
  | stream m =>
    refine .of_stream hw ?_ rfl
    rw [hr]
    exact hw
  | logger l =>
    refine .of_logger hw ?_
    rw [hcalls]
    exact .of_silence hw rfl

/-- What began in one workspace and is in unison sounds alike. -/
theorem Unison.soundsLike {u w w' : Workspace R} (h : Unison u u w w') : w.SoundsLike w' := by
  obtain ⟨news, hw, hw'⟩ := h.news
  exact ⟨h.outlet, hw.trans hw'.symm⟩

end Workspace

/-! ## From streams to outlets -/

/-- On a stream the action does what a response says: `ending` is how it ends. -/
def Action.Responds (act : Action R α) (ending : α → Outcome R) (response : Messages → Response R) :
    Prop :=
  ∀ (w : Workspace R) (m : Messages), w.outlet = .stream m →
    ending (act w).1 = (response m).outcome ∧ w.Hears (act w).2 (response m)

/-- The workspace after its logger was given the collected text. -/
theorem Workspace.hears_flush {w v : Workspace R} {l : Logger} (hw : w.outlet = .logger l)
    {r : Response R} (hv : w.collecting.Hears v r) :
    w.Hears (w.flush v (isBreach r.outcome)) r := by
  have hheard : v.heard = w.heard := hv.heard.trans (List.append_nil _)
  have htext : v.outlet.text = String.join r.texts := by
    rw [hv.outlet]
    simp only [collecting, Diagnostics.receive, Messages.writeAll_memory, String.empty_append]
    rfl
  exact .of_logger hw (.flush hw htext hheard)

/-- **What responds on a stream responds wherever its text goes.** -/
theorem Action.Responds.routed {act : Action R α} {ending : α → Outcome R}
    {response : Messages → Response R} (h : act.Responds ending response) (w : Workspace R) :
    let out := Action.routed (fun a => isBreach (ending a)) act w
    ending out.1 = (response w.outlet.feed).outcome ∧ w.Hears out.2 (response w.outlet.feed) := by
  intro out
  cases hw : w.outlet with
  | stream m =>
    have hout : out = act w := by simp only [out, Action.routed, hw]
    rw [hout]
    exact h w m hw
  | logger l =>
    cases hrun : act w.collecting with
    | mk a v =>
      have hout : out = (a, w.flush v (isBreach (ending a))) :=
        (Action.routed_of_logger hw).trans (Action.collected_eq hrun)
      obtain ⟨houtcome, hhears⟩ := h w.collecting (.attached (.memory "")) rfl
      rw [hrun] at houtcome hhears
      rw [hout, show ending a = _ from houtcome]
      exact ⟨rfl, Workspace.hears_flush hw hhears⟩

/-! ## Reports -/

theorem Report.responds (r : Report α) (ending : α → Outcome R) :
    Action.Responds r.run ending fun m => ⟨ending (r.on m).1, r.written m⟩ := by
  intro w m hw
  rw [r.run_of_stream hw]
  exact ⟨rfl, .of_stream hw (congrArg Diagnostics.stream (r.on_eq_writeAll m)) rfl⟩

/-! ## Programs -/

section Programs

variable [Scalar R]

theorem Interpretation.keeps_guarded {β : Type} (view : Workspace R → β) :
    (Interpretation.guarded (R := R)).Keeps view where
  unary f x w := by
    unfold guarded
    dsimp only
    split <;> rfl
  binary _ _ _ _ := rfl

theorem Interpretation.respects_guarded (r : Workspace R → Workspace R → Prop) :
    (Interpretation.guarded (R := R)).Respects r where
  unary f x w w' hw := by
    unfold guarded
    dsimp only
    split <;> exact ⟨rfl, hw⟩
  binary _ _ _ _ _ hw := ⟨rfl, hw⟩

/-- What a program does by itself on plain numbers. -/
def Program.response (p : Program R) (xs : List R) (m : Messages) : Response R :=
  let w : Workspace R := { outlet := .stream m }
  ⟨(p.run .guarded xs.toArray w).1, p.written .guarded xs.toArray w⟩

/-- A program responds in one way whatever is on the tapes and in the journal. -/
theorem Program.responds (p : Program R) (xs : List R) :
    Action.Responds (p.run .guarded xs.toArray) id (p.response xs) := by
  intro w m hw
  let alone : Workspace R := { outlet := .stream m }
  have hakin : w.Akin (fun _ => False) True alone := ⟨fun _ h => h.elim, fun _ => by rw [hw]⟩
  have hI := Interpretation.respects_guarded (R := R) (Workspace.Akin (fun _ => False) True)
  have hwritten : p.written .guarded xs.toArray w = (p.response xs m).texts :=
    p.written_congr hI (.inl trivial) _ hakin
  refine ⟨(p.respects_run hI (.inl trivial) _ hakin).1, .of_stream hw ?_ ?_⟩
  · rw [p.outlet_run (Interpretation.keeps_guarded _), hwritten, hw]
    rfl
  · exact p.keeps_run Workspace.backstage_heard (Interpretation.keeps_guarded _) _ w

/-- On streams that give the same answers a program responds alike; a heedless one responds alike on
all streams. -/
theorem Program.response_congr {p : Program R} {attentive : Prop} (hp : attentive ∨ p.Heedless)
    (xs : List R) {m m' : Messages} (h : attentive → m.answers = m'.answers) :
    p.response xs m = p.response xs m' := by
  let w : Workspace R := { outlet := .stream m }
  let w' : Workspace R := { outlet := .stream m' }
  have hakin : w.Akin (fun _ => True) attentive w' := ⟨fun home _ => by cases home <;> rfl, h⟩
  have hI := Interpretation.respects_guarded (R := R) (Workspace.Akin (fun _ => True) attentive)
  simp only [response]
  rw [(respects_run hI hp _ hakin).1, written_congr hI hp _ hakin]

end Programs

/-! ## Models -/

namespace Model

variable {P : Type → Type} [Container P]

/-- Whether the densities of the model pay heed to their outlets. -/
def Heedless (P : Type → Type) [Container P] (m : Model R) : Prop :=
  match m.density with
  | .templated program => ∀ mode xs ints, (program mode xs ints).Heedless
  | .virtual entries => ∀ mode (params : P R), (Container.entry entries mode params).Heedless ∧
    ∀ buffer : P R, (Container.gradient entries mode params buffer).Heedless

variable [Scalar R]

/-- What the density of a model does by itself on a stream. A templated density is run on as many
values as it needs; with fewer of them it is not run at all. -/
def response (m : Model R) (params : P R) (ints : List Int) (mode : Mode) (s : Messages) :
    Response R :=
  match m.density with
  | .templated program =>
    let xs := Container.toList params
    if xs.length < m.size then ⟨.error (.breach (.tooFewParameters m.name m.size xs.length)), []⟩
    else
      let p := program mode (Interpretation.guarded.slots (xs.take m.size)) ints
      p.response (xs.take m.size) s
  | .virtual entries =>
    let r := Container.entry entries mode params
    ⟨(r.on s).1, r.written s⟩

/-- What the density does on a stream when its gradient is asked for. A virtual density has an entry
point of its own for that. -/
def gradientResponse (m : Model R) (params : P R) (ints : List Int) (mode : Mode) (buffer : P R)
    (s : Messages) : Response R :=
  match m.density with
  | .templated _ => m.response params ints mode s
  | .virtual entries =>
    let r := Container.gradient entries mode params buffer
    ⟨(r.on s).1.2, r.written s⟩

section

variable {space : ParameterSpace} {program : Mode → List (Slot R) → List Int → Program R}
  {params : P R}

theorem response_of_le (h : space.size ≤ (Container.toList params).length) (ints : List Int)
    (mode : Mode) (s : Messages) :
    let xs := (Container.toList params).take space.size
    (⟨space, .templated program⟩ : Model R).response params ints mode s =
      (program mode (Interpretation.guarded.slots xs) ints).response xs s :=
  if_neg (Nat.not_lt.2 h)

theorem response_of_lt (h : (Container.toList params).length < space.size) (ints : List Int)
    (mode : Mode) (s : Messages) :
    (⟨space, .templated program⟩ : Model R).response params ints mode s =
      ⟨.error (.breach (.tooFewParameters space.name space.size (Container.toList params).length)),
        []⟩ :=
  if_pos h

/-- What is in unison with the program on plain numbers ends and sounds like its response. -/
theorem response_of_unison {ints : List Int} {mode : Mode} {outcome : Outcome R}
    {w v : Workspace R} (hle : space.size ≤ (Container.toList params).length)
    (h : let plain := Run.routed (runDensity .guarded program mode ints
        ((Container.toList params).take space.size)) w
      plain.1 = outcome ∧ Workspace.Unison w w plain.2 v) :
    let response := (⟨space, .templated program⟩ : Model R).response params ints mode w.outlet.feed
    outcome = response.outcome ∧ w.Hears v response := by
  intro response
  let xs := (Container.toList params).take space.size
  let p := program mode (Interpretation.guarded.slots xs) ints
  have hresponse : response = p.response xs w.outlet.feed := response_of_le hle ints mode _
  obtain ⟨houtcome, hunison⟩ := h
  obtain ⟨hplain, hhears⟩ := (p.responds xs).routed w
  rw [hresponse]
  exact ⟨houtcome.symm.trans hplain, hhears.congr hunison.soundsLike.symm⟩

end

/-- **An evaluation adds nothing to the response of the density.** -/
theorem logProb_eq_response (m : Model R) (params : P R) (ints : List Int) (mode : Mode)
    (w : Workspace R) :
    let out := m.logProb params ints mode w
    let response := m.response params ints mode w.outlet.feed
    out.1 = response.outcome ∧ w.Hears out.2 response := by
  intro out response
  obtain ⟨space, density⟩ := m
  cases density with
  | templated program =>
    cases Nat.lt_or_ge (Container.toList params).length space.size with
    | inl hlt =>
      have hout : out = (.error (.breach (.tooFewParameters space.name space.size
          (Container.toList params).length)), w) := by
        simp only [out, logProb, Bind.bind, name, size, Run.needed_of_lt hlt]
      have hresponse : response = _ := response_of_lt hlt ints mode w.outlet.feed
      rw [hout, hresponse]
      exact ⟨rfl, .of_silence w rfl⟩
    | inr hle => exact response_of_unison hle (logProb_eq_guarded hle w)
  | virtual entries => exact ((Container.entry entries mode params).responds id).routed w

/-- **An evaluation of the gradient adds nothing to the response of the density.** -/
theorem logProbGrad_eq_response (m : Model R) (home : Home) (params : P R) (ints : List Int)
    (mode : Mode) (buffer : P R) (w : Workspace R) :
    let out := m.logProbGrad home params ints mode buffer w
    let response := m.gradientResponse params ints mode buffer w.outlet.feed
    out.1.2 = response.outcome ∧ w.Hears out.2 response := by
  intro out response
  obtain ⟨space, density⟩ := m
  cases density with
  | templated program =>
    cases Nat.lt_or_ge (Container.toList params).length space.size with
    | inl hlt =>
      have hout : out = ((buffer, .error (.breach (.tooFewParameters space.name space.size
          (Container.toList params).length))), w) := by
        simp only [out, logProbGrad_templated, evaluation, differentiate_of_lt hlt]
        rfl
      have hresponse : response = _ := response_of_lt hlt ints mode w.outlet.feed
      rw [hout, hresponse]
      exact ⟨rfl, .of_silence w rfl⟩
    | inr hle => exact response_of_unison hle (logProbGrad_eq_guarded hle home buffer rfl)
  | virtual entries =>
    exact ((Container.gradient entries mode params buffer).responds Prod.snd).routed w

/-- On streams that give the same answers the density of a model responds alike; if it is heedless,
on all streams. -/
theorem response_congr {m : Model R} {attentive : Prop} (hm : attentive ∨ m.Heedless P)
    (params : P R) (ints : List Int) (mode : Mode) {s s' : Messages}
    (h : attentive → s.answers = s'.answers) :
    m.response params ints mode s = m.response params ints mode s' := by
  obtain ⟨space, density⟩ := m
  cases density with
  | templated program =>
    unfold response
    dsimp only
    rw [Program.response_congr (hm.imp_right fun hm => hm _ _ _) _ h]
  | virtual entries =>
    obtain ⟨hon, hwritten⟩ :=
      Report.on_congr (hm.imp_right fun hm => (hm mode params).1) h
    simp only [response, hon, hwritten]

theorem gradientResponse_congr {m : Model R} {attentive : Prop} (hm : attentive ∨ m.Heedless P)
    (params : P R) (ints : List Int) (mode : Mode) (buffer : P R) {s s' : Messages}
    (h : attentive → s.answers = s'.answers) :
    m.gradientResponse params ints mode buffer s =
      m.gradientResponse params ints mode buffer s' := by
  obtain ⟨space, density⟩ := m
  cases density with
  | templated program => exact response_congr hm params ints mode h
  | virtual entries =>
    obtain ⟨hon, hwritten⟩ :=
      Report.on_congr (hm.imp_right fun hm => (hm mode params).2 buffer) h
    simp only [gradientResponse, hon, hwritten]

end Model

end LogDensity
