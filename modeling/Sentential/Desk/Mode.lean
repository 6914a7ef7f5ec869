/-! The modes of work. The desk searches for a proof by itself in one and leaves it to the user in
all others. -/

namespace Sentential.Desk

/-- A mode, by its name. -/
structure Mode where
  name : String
deriving DecidableEq, Repr

namespace Mode

def automatic : Mode := ⟨"automatic"⟩

def manual : Mode := ⟨"manual"⟩

end Mode

end Sentential.Desk
