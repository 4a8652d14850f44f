import Bleu.Files.Tree

/-!
# Computations that read files

A `Reading` asks for contents, kinds and names of files, and goes on with the answers. `Reading.eval` answers from a
tree; what a reading gives then depends on the tree alone, and `eval_bind` says that one reading after another is
one evaluation after another.
-/
namespace Bleu.Files

/-- A computation that may look at files. -/
inductive Reading (α : Type) : Type
  | done (result : α)
  /-- Asks for the content of a file. -/
  | content (path : String) (next : Except OsFault ByteArray → Reading α)
  /-- Asks what a path names. -/
  | kind (path : String) (next : Option Kind → Reading α)
  /-- Asks for the names in a folder. -/
  | names (path : String) (next : List String → Reading α)

namespace Reading
variable {α β : Type}

def andThen : Reading α → (α → Reading β) → Reading β
  | done result, f => f result
  | content path next, f => content path fun answer => (next answer).andThen f
  | kind path next, f => kind path fun answer => (next answer).andThen f
  | names path next, f => names path fun answer => (next answer).andThen f

instance : Monad Reading where
  pure := done
  bind := andThen

/-- What a reading gives when a tree answers. -/
def eval (tree : FileTree) : Reading α → α
  | done result => result
  | content path next => (next (tree.content path)).eval tree
  | kind path next => (next (tree.kindAt? path)).eval tree
  | names path next => (next (tree.names path)).eval tree

@[simp] theorem eval_pure (tree : FileTree) (a : α) : (pure a : Reading α).eval tree = a := rfl

@[simp] theorem eval_bind (tree : FileTree) (r : Reading α) (f : α → Reading β) :
    (r >>= f).eval tree = (f (r.eval tree)).eval tree := by
  change (r.andThen f).eval tree = _
  induction r with
  | done => rfl
  | content path next ih => exact ih _
  | kind path next ih => exact ih _
  | names path next ih => exact ih _

def readContent (path : String) : Reading (Except OsFault ByteArray) := content path done

def readKind (path : String) : Reading (Option Kind) := kind path done

def readNames (path : String) : Reading (List String) := names path done

def decode (bytes : ByteArray) : Except OsFault String :=
  match String.fromUTF8? bytes with
  | some text => .ok text
  | none => .error .notUtf8

def readText (path : String) : Reading (Except OsFault String) := do
  return (← readContent path) >>= decode

end Reading

end Bleu.Files
