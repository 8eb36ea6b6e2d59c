import LogDensity.Model.Basic

/-!
# Writing draws

A `Sheet` keeps what is written to it: a heading of names, rows of values, and messages. `writeDraw`
writes one constrained draw of a model under its names; if the model fails to produce the values
nothing is written.
-/

namespace LogDensity

/-- A heading, rows of values, and messages. -/
structure Sheet where
  names : List String := []
  rows : List (List Float) := []
  messages : List String := []

/-- The calls that a sheet takes. -/
inductive SheetCall
  /-- Replaces the heading. -/
  | names (names : List String)
  /-- Adds a row. -/
  | values (xs : List Float)
  /-- Adds an empty message. -/
  | blank
  /-- Adds a message. -/
  | message (s : String)

namespace Sheet

/-- Carries out a call. -/
def accept (s : Sheet) : SheetCall → Sheet
  | .names names => { s with names }
  | .values xs => { s with rows := s.rows ++ [xs] }
  | .blank => { s with messages := s.messages ++ [""] }
  | .message m => { s with messages := s.messages ++ [m] }

/-- Carries out calls one after the other, keeping the sheet after each. -/
def history (s : Sheet) : List SheetCall → List Sheet
  | [] => []
  | call :: rest => s.accept call :: (s.accept call).history rest

/-- The numbers of names, rows and messages. -/
def counts (s : Sheet) : Nat × Nat × Nat :=
  (s.names.length, s.rows.length, s.messages.length)

end Sheet

/-- Writes the draw at unconstrained values to a sheet. A number of values other than that of the
names is only entered in the journal. -/
def writeDraw {R : Type} (space : ParameterSpace) (source : WordSource) (params : List Float)
    (transformed generated : Bool) (sheet : Sheet) :
    Action R (Outcome (List Float) × WordSource × Sheet) := fun w =>
  match (space.writeArray params transformed generated source).run w with
  | ((.error s, source), w) => ((.error s, source, sheet), w)
  | ((.ok values, source), w) =>
    let names := space.constrainedNames transformed generated
    let w :=
      if names.length = values.length then w
      else w.note .debug
        s!"{space.name}: write_array returned {values.length} values for {names.length} names"
    ((.ok values, source, (sheet.accept (.names names)).accept (.values values)), w)

end LogDensity
