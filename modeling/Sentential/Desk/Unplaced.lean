import Sentential.Desk.Label
import Sentential.Value

/-! Panes before they are placed on a desk, and the frames they are placed in. -/

namespace Sentential.Desk

/-- What a pane answers to requests while it stands on no desk: nothing stays on it, so each request
finds it as it was at first. -/
def unplaced {α ρ : Type} (pane : α) (requests : List (α → α × ρ)) : List ρ :=
  requests.map fun request => (request pane).2

/-- The parts of a desk that have to be put in place, by name. -/
def unplacedParts : List String :=
  ["button_panel", "conclusions_panel", "error_display", "menu_bar", "premises_panel",
   "proof_steps_panel", "truth_table_panel"]

/-- The options with which a frame is placed: those given, and that it fills its place up to a
margin. -/
def frameOptions (given : List (String × Value)) : List (String × Value) :=
  given ++ [("sticky", .text "nsew"), ("padx", .int 2), ("pady", .int 2)]

end Sentential.Desk
