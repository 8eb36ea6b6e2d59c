import LogDensity.Proofs.Evaluation.Independence

/-!
# What is heard of an evaluation

The journal holds what is logged to it, and beside it entries of the library itself for debugging:
how many nodes were recorded, and where a tape was released. What is left without the latter is
`Workspace.heard`. Two evaluations are in unison (`Workspace.Unison`) if the same was heard of them
and the same text went to their outlets, whatever they did to the tapes.
-/

namespace LogDensity

variable {R : Type}

theorem visible_append (threshold : Option Level) (es es' : List Entry) :
    visible threshold (es ++ es') = visible threshold es ++ visible threshold es' :=
  List.filter_append ..

/-- Releases are not reported to a reader who leaves out debugging entries. -/
theorem Entry.Similar.visible_eq {es es' : List Entry} (h : List.Forall₂ Similar es es') :
    visible (some .info) es = visible (some .info) es' := by
  induction h with
  | nil => rfl
  | @cons e e' es es' he _ ih =>
    have htail : visible (some .info) ([e] ++ es) = visible (some .info) ([e'] ++ es') := by
      rw [visible_append, visible_append, ih]
      cases he with
      | refl e => rfl
      | recovery => rfl
    exact htail

namespace Workspace

/-- The entries of the journal that are not for debugging. -/
def heard (w : Workspace R) : List Entry :=
  visible (some .info) w.journal.toList

theorem heard_log (w : Workspace R) (es : List Entry) :
    ({ w with journal := w.journal ++ es } : Workspace R).heard =
      w.heard ++ visible (some .info) es := by
  rw [heard, heard, ← visible_append, Array.toList_appendList]

theorem heard_note_debug (w : Workspace R) (text : String) :
    (w.note .debug text).heard = w.heard := by
  rw [heard, note, Array.toList_push, visible_append]
  exact List.append_nil _

theorem heard_setTape (w : Workspace R) (t : Tape R) (home : Home) :
    (w.setTape t home).heard = w.heard := by
  rw [heard, journal_setTape, heard]

theorem heard_release (w : Workspace R) (home : Home) (mark : Nat) :
    (w.release home mark).heard = w.heard := by
  rw [release, heard_note_debug, heard_setTape]

/-! ## One workspace sounds like another -/

/-- The outlets are the same, and what is heard. -/
structure SoundsLike (w v : Workspace R) : Prop where
  outlet : w.outlet = v.outlet
  heard : w.heard = v.heard

namespace SoundsLike

variable {w v : Workspace R}

theorem refl (w : Workspace R) : w.SoundsLike w :=
  ⟨rfl, rfl⟩

theorem symm (h : w.SoundsLike v) : v.SoundsLike w :=
  ⟨h.outlet.symm, h.heard.symm⟩

theorem trans {u : Workspace R} (h : u.SoundsLike v) (h' : v.SoundsLike w) : u.SoundsLike w :=
  ⟨h.outlet.trans h'.outlet, h.heard.trans h'.heard⟩

theorem setTape (w : Workspace R) (t : Tape R) (home : Home) : (w.setTape t home).SoundsLike w :=
  ⟨outlet_setTape w t home, heard_setTape w t home⟩

theorem release (w : Workspace R) (home : Home) (mark : Nat) : (w.release home mark).SoundsLike w :=
  ⟨outlet_setTape w _ home, heard_release w home mark⟩

theorem reportNodes (home : Home) (name : String) (size mark : Nat) (w : Workspace R) :
    (LogDensity.reportNodes home name size mark w).2.SoundsLike w :=
  ⟨rfl, heard_note_debug ..⟩

/-- A message that is given to the same logger is heard alike. -/
theorem inform (h : w.SoundsLike v) (message : String) :
    (w.inform message).SoundsLike (v.inform message) := by
  unfold Workspace.inform
  rw [← h.outlet]
  cases w.outlet with
  | stream m => exact h
  | logger l =>
    let news := visible (some .info) (l.log .info message).2
    have hnews : w.heard ++ news = v.heard ++ news := by rw [h.heard]
    exact ⟨rfl, (heard_log w _).trans (hnews.trans (heard_log v _).symm)⟩

end SoundsLike

/-! ## Two workspaces in unison -/

/-- What went out of a workspace `w` that was `u` before, and of `w'` that was `u'`, is the same:
the outlets are equal, and the same entries came to be heard. -/
structure Unison (u u' w w' : Workspace R) : Prop where
  outlet : w.outlet = w'.outlet
  news : ∃ news, w.heard = u.heard ++ news ∧ w'.heard = u'.heard ++ news

namespace Unison

variable {u u' v v' w w' : Workspace R}

theorem start (h : u.outlet = u'.outlet) : Unison u u' u u' :=
  ⟨h, [], (List.append_nil _).symm, (List.append_nil _).symm⟩

theorem trans (h : Unison u u' v v') (h' : Unison v v' w w') : Unison u u' w w' := by
  obtain ⟨news, hv, hv'⟩ := h.news
  obtain ⟨news', hw, hw'⟩ := h'.news
  exact ⟨h'.outlet, news ++ news', by rw [hw, hv, List.append_assoc],
    by rw [hw', hv', List.append_assoc]⟩

/-- Two workspaces that are in unison with a third one are in unison with each other. -/
theorem of_common {u'' v'' : Workspace R} (h : Unison u u' v v') (h' : Unison u u'' v v'') :
    Unison u' u'' v' v'' := by
  obtain ⟨news, hv, hv'⟩ := h.news
  obtain ⟨news', hw, hw'⟩ := h'.news
  obtain rfl : news = news' := List.append_cancel_left (hv.symm.trans hw)
  exact ⟨h.outlet.symm.trans h'.outlet, news, hv', hw'⟩

/-- Workspaces that sound like others are in unison if these are. -/
theorem congr (h : Unison u u' v v') (hw : w.SoundsLike v) (hw' : w'.SoundsLike v') :
    Unison u u' w w' := by
  obtain ⟨news, hv, hv'⟩ := h.news
  exact ⟨hw.outlet.trans (h.outlet.trans hw'.outlet.symm), news, hw.heard.trans hv,
    hw'.heard.trans hv'⟩

theorem setOutlet (h : Unison u u' w w') (o : Diagnostics) :
    Unison u u' { w with outlet := o } { w' with outlet := o } :=
  ⟨rfl, h.news⟩

theorem log (h : Unison u u' w w') (es : List Entry) :
    Unison u u' { w with journal := w.journal ++ es } { w' with journal := w'.journal ++ es } :=
  h.trans ⟨h.outlet, _, heard_log w es, heard_log w' es⟩

end Unison

/-- Workspaces in which the same was done are in unison. -/
theorem Alike.unison {u u' w w' : Workspace R} (h : Alike u u' w w') : Unison u u' w w' := by
  obtain ⟨es, es', hw, hw', hes⟩ := h.journal
  refine ⟨h.outlet, visible (some .info) es, ?_, ?_⟩
  · rw [heard, hw, visible_append, heard]
  · rw [heard, hw', visible_append, heard, Entry.Similar.visible_eq hes]

end Workspace

end LogDensity
