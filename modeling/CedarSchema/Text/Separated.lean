/-
  Lists of texts written with a separator between them, and the parts between double colons.
-/

namespace CedarSchema.Text

/-- The texts one after the other with `sep` between neighbours. -/
def join (sep : String) : List String → String
  | [] => ""
  | [s] => s
  | s :: rest => s ++ sep ++ join sep rest

/-- The parts of a text between its double colons, which are found from left to right; empty parts
are kept. -/
def splitDoubleColons : List Char → List (List Char)
  | [] => [[]]
  | ':' :: ':' :: r => [] :: splitDoubleColons r
  | c :: r =>
    match splitDoubleColons r with
    | part :: parts => (c :: part) :: parts
    | [] => [[c]]

end CedarSchema.Text
