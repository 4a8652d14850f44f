import Bleu.Command.Failure
import Bleu.Files.Reading
import Bleu.Proofs.Outcomes

/-!
# Readings that may fail

Answered from a tree, a reading that may fail is an outcome. Evaluation takes the steps of such a reading to the steps
of its outcome (`eval_run_bind`, `eval_run_mapM`), so that a command is known from what its readings give. A result stays
what it is when its fault is turned into a failure or is put in a context.
-/
namespace Bleu.Files.Reading
variable {α β ε : Type} (tree : FileTree)

theorem andThen_done (r : Reading α) : r.andThen done = r := by
  induction r with
  | done a => rfl
  | content path next ih => exact congrArg (content path) (funext ih)
  | kind path next ih => exact congrArg (kind path) (funext ih)
  | names path next ih => exact congrArg (names path) (funext ih)

theorem andThen_assoc {γ : Type} (r : Reading α) (f : α → Reading β) (g : β → Reading γ) :
    (r.andThen f).andThen g = r.andThen fun a => (f a).andThen g := by
  induction r with
  | done a => rfl
  | content path next ih => exact congrArg (content path) (funext ih)
  | kind path next ih => exact congrArg (kind path) (funext ih)
  | names path next ih => exact congrArg (names path) (funext ih)

instance : LawfulMonad Reading := LawfulMonad.mk' Reading andThen_done (fun _ _ => rfl) andThen_assoc

@[simp] theorem eval_map (f : α → β) (r : Reading α) : (f <$> r).eval tree = f (r.eval tree) :=
  eval_bind tree r (done ∘ f)

@[simp] theorem eval_run_lift (result : Except ε α) : (liftM result : ExceptT ε Reading α).run.eval tree = result := rfl

@[simp] theorem eval_run_liftReading (r : Reading α) :
    (liftM r : ExceptT ε Reading α).run.eval tree = .ok (r.eval tree) :=
  eval_map tree Except.ok r

@[simp] theorem eval_run_bind (r : ExceptT ε Reading α) (f : α → ExceptT ε Reading β) :
    (r >>= f).run.eval tree = (r.run.eval tree >>= fun a => (f a).run.eval tree) := by
  change (r.run >>= ExceptT.bindCont f).eval tree = _
  rw [eval_bind]
  cases r.run.eval tree with
  | error fault => rfl
  | ok a => rfl

theorem eval_run_mapM (f : α → ExceptT ε Reading β) (xs : List α) :
    (xs.mapM f).run.eval tree = xs.mapM fun x => (f x).run.eval tree := by
  induction xs with
  | nil => rfl
  | cons x rest ih =>
    simp only [List.mapM_cons, eval_run_bind, ih]
    rfl

end Bleu.Files.Reading

namespace Bleu.Command
open Outcomes
variable {β : Type}

theorem inContext_eq_ok {context : Context} {result : Except Failure β} {b : β} :
    inContext context result = .ok b ↔ result = .ok b := by
  cases result with
  | ok a => rfl
  | error f => simp [inContext]

@[simp] theorem inContext_ok (context : Context) (b : β) : inContext context (.ok b) = .ok b := rfl

@[simp] theorem inContext_error (context : Context) (f : Failure) :
    inContext context (.error f : Except Failure β) = .error (f.within context) := rfl

theorem orFault_eq_ok {result : Except Fault β} {b : β} : orFault result = .ok b ↔ result = .ok b := mapError_eq_ok

@[simp] theorem orFault_ok (b : β) : orFault (.ok b) = .ok b := rfl

@[simp] theorem orOs_ok (b : β) : orOs (.ok b) = .ok b := rfl

@[simp] theorem orOs_error (fault : OsFault) : (orOs (.error fault) : Except Failure β) = .error (.ofOs fault) := rfl

end Bleu.Command
