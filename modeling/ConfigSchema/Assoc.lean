/-!
# Assoc — association lists that keep the order of first entry

Fields of documents and children of elements are found by key and listed in the order in which the keys first came.
Putting a key that is there already replaces its value in place.
-/
namespace ConfigSchema
namespace Assoc

variable {α β : Type}

/-- The value under the first key that `same` accepts. -/
def find? (same : α → Bool) : List (α × β) → Option β
  | [] => none
  | (a, b) :: rest => if same a then some b else find? same rest

/-- Puts a value under a key; a key that is there keeps its place and its spelling. -/
def put (same : α → α → Bool) (a : α) (b : β) : List (α × β) → List (α × β)
  | [] => [(a, b)]
  | (a', b') :: rest => if same a' a then (a', b) :: rest else (a', b') :: put same a b rest

/-- The list that holds the given pairs, put one after the other. -/
def ofPairs (same : α → α → Bool) (pairs : List (α × β)) : List (α × β) :=
  pairs.foldl (fun l p => put same p.1 p.2 l) []

end Assoc
end ConfigSchema
