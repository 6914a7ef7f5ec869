/-! Lists of values under keys, in the order in which the keys first came. -/

namespace Sentential.Keyed

/-- The list with a value set under a key: in its place if the key is there, else at the end. -/
def put {κ ν : Type} [DecidableEq κ] (key : κ) (value : ν) : List (κ × ν) → List (κ × ν)
  | [] => [(key, value)]
  | entry :: rest =>
    if entry.1 = key then (key, value) :: rest else entry :: put key value rest

/-- The list without what stands under a key. -/
def erase {κ ν : Type} [DecidableEq κ] (key : κ) (entries : List (κ × ν)) : List (κ × ν) :=
  entries.filter fun entry => entry.1 ≠ key

end Sentential.Keyed
