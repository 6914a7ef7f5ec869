import Sentential.Desk.Proving

/-! Changing the mode. Watchers may be set who hear of a change before the desk does; the first of
them to hear it prepares the desk for the new mode and runs what is attached for that. A watcher
whom that stops does not come back. -/

namespace Sentential.Desk

/-- Changes the mode and says so. -/
def changeMode (mode : Mode) (d : Desk) : Desk :=
  let d := { d with mode }
  if mode = .automatic then d.showInfo "Switched to Automatic mode"
  else d.showInfo "Switched to Manual mode"

/-- Runs an attached action, which leaves its mark first. -/
def runRecorder (words : List String) (r : Recorder) (d : Desk) : Desk × Except Fault Unit :=
  let d := { d with attachments := d.attachments.mark words }
  match r.raises with
  | none => (d, .ok ())
  | some text => (d, .error (.raised text))

/-- Runs what is attached to a place; nothing happens if nothing was ever attached. -/
def runHook (hook : Hook) (words : List String) (d : Desk) : Desk × Except Fault Unit :=
  match d.attachments.hooks.lookup hook with
  | none => (d, .ok ())
  | some none => (d, .error .noAction)
  | some (some r) => d.runRecorder (hook.name :: words) r

/-- Goes on with what is to be done next, unless something has broken off. -/
def andThen (next : Desk → Desk × Except Fault Unit) :
    Desk × Except Fault Unit → Desk × Except Fault Unit
  | (d, .error fault) => (d, .error fault)
  | (d, .ok ()) => next d

/-- Has the proof reset for work by hand and shows it, if there is anything to reset it. -/
def resetProof (d : Desk) : Desk × Except Fault Unit :=
  if (d.attachments.hooks.lookup .resetProof).isNone then (d, .ok ())
  else (d.runHook .resetProof []) |> andThen fun d =>
    match d.showProof with
    | (d, .error cause) => (d, .error (.failure cause))
    | (d, .ok ()) => (d, .ok ())

/-- Prepares the desk for work by hand. -/
def prepareManual (d : Desk) : Desk × Except Fault Unit :=
  d.runHook .enableControls []
    |> andThen (·.runHook .enableRules [])
    |> andThen (·.runHook .showMode ["manual"])
    |> andThen (·.resetProof)
    |> andThen fun d =>
      (d.showInfo "Manual Mode: Use 'Send to Proof Panel' then build proof step by step", .ok ())

/-- Prepares the desk for automatic work. -/
def prepareAutomatic (d : Desk) : Desk × Except Fault Unit :=
  d.runHook .disableControls []
    |> andThen (·.runHook .disableRules [])
    |> andThen (·.runHook .showMode ["automatic"])
    |> andThen (·.runHook .resetSelection [])
    |> andThen fun d =>
      (d.showInfo "Automatic Mode: System will find proofs automatically", .ok ())

/-- What a watcher does on hearing of a change. -/
def hear (mode : Mode) (d : Desk) : Desk :=
  let d := d.print s!"Mode changing to: {mode.name}"
  if d.mode = mode then d
  else
    let changed := { d with mode, watchers := d.watchers - 1 }
    match if mode = .manual then changed.prepareManual else changed.prepareAutomatic with
    | (d, .ok ()) => { d with watchers := d.watchers + 1 }
    | (d, .error fault) => d.print s!"Error in safe mode change handler: {fault.message}"

/-- Chooses a mode: all watchers hear of it, and then the desk changes its mode. -/
def chooseMode (mode : Mode) (d : Desk) : Desk :=
  (d.watchers.repeat (hear mode) d).changeMode mode

/-- Connects the buttons for proofs by hand. Only those of rules can be connected. -/
def connectButtons (d : Desk) : Desk × Except Fault Unit :=
  let a := d.attachments
  if a.hasSendButton then (d, .error (.lacking .controller "handle_send_to_proof_panel"))
  else if a.hasApplyButton then (d, .error (.lacking .controller "handle_apply_rule"))
  else if a.ruleButtons.isEmpty then (d, .ok ())
  else
    ({ d with attachments := { a with rulesConnected := true } }.print
      s!"Connecting {a.ruleButtons.length} rule buttons to selection handler", .ok ())

/-- Connects the buttons for proofs by hand and sets a watcher. -/
def watchMode (d : Desk) : Desk × Except Fault Unit :=
  d.connectButtons |> andThen fun d =>
    (({ d with watchers := d.watchers + 1 }.print
        "Manual mode step selection handlers configured").print
        "Safe mode change handler configured", .ok ())

/-- Presses the button of a rule, and tells whether there is anything behind it. -/
def pressRule (d : Desk) : Except Fault Bool :=
  if d.attachments.rulesConnected then .error (.lacking .controller "handle_rule_selection")
  else .ok false

/-- Asks for the chosen rule to be applied. There is no way to choose one. -/
def applyChosenRule (d : Desk) : Desk :=
  let d := d.print s!"DEBUG: Apply Rule clicked in {d.mode.name} mode"
  if d.mode ≠ .manual then d.showError "mode" "Apply Rule only available in Manual mode"
  else
    let fault := Fault.lacking .proofControl "apply_selected_rule"
    d.showError "rule" s!"Error applying rule: {fault.message}"

end Sentential.Desk
