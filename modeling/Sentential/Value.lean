import Sentential.Text.Quoted

/-! Values of any kind. A proposition may be given one where a truth value is expected, and a value
may stand where a sentence should. -/

namespace Sentential

/-- A value: nothing at all, a truth value, a number, a text, or a list of values. -/
inductive Value where
  | null
  | bool (b : Bool)
  | int (n : Int)
  | text (s : String)
  | list (items : List Value)
deriving Repr, Inhabited

namespace Value

/-- The name of the value's kind in messages. -/
def kind : Value → String
  | null => "NoneType"
  | bool _ => "bool"
  | int _ => "int"
  | text _ => "str"
  | list _ => "list"

/-- Whether the value counts as true: all do but nothing, false, zero, the empty text and the empty
list. -/
def holds : Value → Bool
  | null => false
  | bool b => b
  | int n => n != 0
  | text s => !s.isEmpty
  | list items => !items.isEmpty

mutual
/-- Whether two values are the same. The truth values are the same as the numbers 1 and 0; other
values of different kinds differ. -/
def same : Value → Value → Bool
  | null, null => true
  | bool a, bool b => a == b
  | bool a, int n => n == (if a then 1 else 0)
  | int n, bool b => n == (if b then 1 else 0)
  | int m, int n => m == n
  | text s, text t => s == t
  | list xs, list ys => sameItems xs ys
  | _, _ => false

/-- Whether two lists have the same values in the same order. -/
def sameItems : List Value → List Value → Bool
  | [], [] => true
  | x :: xs, y :: ys => same x y && sameItems xs ys
  | _, _ => false
end

mutual
/-- The value as an item of a shown list, where texts are quoted. -/
def quoted : Value → String
  | null => "None"
  | bool true => "True"
  | bool false => "False"
  | int n => toString n
  | text s => Text.quoted s
  | list items => "[" ++ quotedItems items ++ "]"

/-- The items of a shown list. -/
def quotedItems : List Value → String
  | [] => ""
  | [item] => quoted item
  | item :: rest => quoted item ++ ", " ++ quotedItems rest
end

/-- The value as shown by itself. -/
def shown : Value → String
  | text s => s
  | v => quoted v

end Value

end Sentential
