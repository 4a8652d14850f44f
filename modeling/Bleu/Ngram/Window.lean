import Bleu.Fault

/-!
# Windows of tokens

An n-gram is a window of `n` tokens that follow each other. `windows` lists those of a sequence from left to
right, `windowCount` says how many there are.
-/
namespace Bleu.Ngram
variable {α : Type}

/-- The windows of `n` tokens, from left to right. -/
def windows (n : Nat) : List α → List (List α)
  | [] => []
  | token :: rest => if n ≤ rest.length + 1 then (token :: rest).take n :: windows n rest else []

/-- The number of windows of `n` tokens in a sequence of a given length. -/
def windowCount (length n : Nat) : Nat := if n = 0 ∨ length < n then 0 else length - n + 1

/-- The n-grams of an order, which starts at one. -/
def ngrams (tokens : List α) (order : Nat) : Except Fault (List (List α)) :=
  if order = 0 then .error (.invalidOrder order) else .ok (windows order tokens)

example : windows 2 [1, 2, 3] = [[1, 2], [2, 3]] ∧ windows 4 [1, 2, 3] = [] := by decide

end Bleu.Ngram
