import Sentential.Content

/-! What the program says of itself, and how it looks from outside. -/

namespace Sentential.Package

def version : String := "1.0.0"

def author : String := "Silviu Ciobanica-Mkrtchyan"

/-- A sentence read outside of a proof, as the proof sees it: a proof takes only sentences of its
own, and to it this is another value. -/
def offered (s : Sentence) : Content :=
  .other (.text s.shown)

end Sentential.Package
