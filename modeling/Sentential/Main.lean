import Sentential.Desk.Launch

/-! The command line: starts the program and prints what it prints. -/

def main : IO Unit :=
  IO.print Sentential.Desk.launch.printed
