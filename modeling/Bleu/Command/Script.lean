import Bleu.Command.Failure
import Bleu.Files.Tree

/-!
# Scripts

What a command does, once it has read what it needs, is a `Script`: it prints and saves texts in order, and then
succeeds or fails. `Script.run` carries one out on a tree of files; a text that cannot be saved ends it.
-/
namespace Bleu.Command
open Files

inductive Deed
  | print (text : String)
  /-- Creates a file, or replaces one. -/
  | save (path text : String) (context : Context)
deriving DecidableEq, Repr

structure Script where
  deeds : List Deed := []
  /-- The failure at the end. -/
  failure : Option Failure := none
deriving DecidableEq, Repr

structure Outcome where
  files : FileTree
  printed : String
  failure : Option Failure

namespace Script

def fail (f : Failure) : Script where
  failure := some f

def ofResult : Except Failure Script → Script
  | .ok script => script
  | .error f => fail f

/-- Does things in order after others that left an outcome. -/
def runFrom (outcome : Outcome) (ending : Option Failure) : List Deed → Outcome
  | [] => { outcome with failure := ending }
  | .print text :: rest => runFrom { outcome with printed := outcome.printed ++ text } ending rest
  | .save path text context :: rest =>
    match inContext context (orOs (outcome.files.write path text.toUTF8)) with
    | .ok files => runFrom { outcome with files } ending rest
    | .error f => { outcome with failure := some f }

def run (s : Script) (files : FileTree) : Outcome := runFrom { files, printed := "", failure := none } s.failure s.deeds

end Script

end Bleu.Command
