/-!
# Names inside a function

Parameters and results of instructions share one set of names in each function. Whoever
asks for a name that is taken gets it with the first number behind it that makes it free.
-/

namespace LambdaArith.LocalName

/-- What may be given to who asks for the name `base`, in order of preference: `base`,
`base1`, `base2` and so on. -/
def candidate (base : String) : Nat → String
  | 0 => base
  | n + 1 => base ++ toString (n + 1)

/-- The first candidate that is not taken. As the candidates differ from each other, one
more of them than there are names taken is enough. -/
def firstFree (taken : List String) (base : String) : String :=
  ((List.range (taken.length + 1)).findSome? fun n =>
    if candidate base n ∈ taken then none else some (candidate base n)).getD base

/-- The name given to who asks for `base`, and the names that are taken from then on. -/
def reserve (taken : List String) (base : String) : String × List String :=
  (firstFree taken base, taken ++ [firstFree taken base])

/-- The names given to who ask for these in turn, and the names taken from then on. -/
def reserveAll (taken : List String) : List String → List String × List String
  | [] => ([], taken)
  | base :: rest =>
    let (name, taken) := reserve taken base
    let (names, taken) := reserveAll taken rest
    (name :: names, taken)

end LambdaArith.LocalName
