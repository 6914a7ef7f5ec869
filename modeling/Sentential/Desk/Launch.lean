import Sentential.Desk.Gesture

/-! Starting the program. -/

namespace Sentential.Desk

/-- Lets work begin. -/
def welcome (d : Desk) : Desk :=
  d.showInfo "Welcome to GPLC! Enter premises and conclusions to begin."

/-- Lets work begin without a desk. -/
def welcomeNobody : Except Fault Unit :=
  .error .noView

/-- Starts the program. The buttons of the desk cannot be connected, so the start breaks off; the
user is told so. -/
def launch : Desk :=
  let fault := Fault.lacking .window "connect_button_controller"
  (start.print s!"Application error: {fault.message}").notify
    (.error "GPLC Error"
      s!"Application failed to start:\n\n{fault.message}\n\nSee console for details.")

end Sentential.Desk
