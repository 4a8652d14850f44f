import Bleu.Fault

/-!
# Sharing work

`mapShared` applies a function that may fail to the items of a list, divided among workers in consecutive shares.
The results come in the order of the items, and the first failing share decides the failure. How many workers there can
be is up to the machine, which comes as a class, so that what holds of shared work can be stated of any machine.
-/
namespace Bleu

/-- What a machine has for workers. -/
class Workforce where
  processors : Nat
  /-- Why the machine refuses a number of workers, if it does. -/
  refusal? : Nat → Option OsFault

/-- Tasks, eight at a time unless another number is asked for. They are never refused. -/
instance Workforce.tasks : Workforce where
  processors := 8
  refusal? _ := none

/-- Cuts a list into shares of an item and `more` others; the last one may be smaller. -/
def shares {β : Type} (more : Nat) (items : List β) : List (List β) :=
  match items with
  | [] => []
  | item :: rest => (item :: rest.take more) :: shares more (rest.drop more)
termination_by items.length
decreasing_by
  simp only [List.length_drop, List.length_cons]
  omega

theorem flatten_shares {β : Type} (more : Nat) (items : List β) : (shares more items).flatten = items := by
  fun_induction shares more items with
  | case1 => rfl
  | case2 item rest ih => rw [List.flatten_cons, ih, List.cons_append, List.take_append_drop]

example : shares 2 [1, 2, 3, 4, 5] = [[1, 2, 3], [4, 5]] := by simp [shares]

/-- Maps the items of a list, each share by a worker of its own if there is more than one. -/
def mapShared {β γ ε : Type} (workers : Nat) (f : β → Except ε γ) (items : List β) : Except ε (List γ) :=
  if workers ≤ 1 then items.mapM f
  else do
    let tasks := (shares ((items.length - 1) / workers) items).map fun share => Task.spawn fun _ => share.mapM f
    return (← tasks.mapM Task.get).flatten

end Bleu
