import Bleu.Command.Listing
import Bleu.Command.Scoring
import Bleu.Command.Template
import Bleu.Command.Validation

/-!
# Running commands

A command reads what it needs and becomes a script. `Command.outcome` is what it leaves behind in a tree of files.
-/
namespace Bleu.Command
open Files (Reading)
variable [Elementary] [Workforce]

def script : Command → Reading Script
  | score hypothesis references referenceFiles options =>
    Script.ofResult <$> (scoreSentence hypothesis references referenceFiles options).run
  | corpus hypotheses references withRows workers options =>
    Script.ofResult <$> (scoreFiles hypotheses references withRows workers options).run
  | list catalogue => pure (listCatalogue catalogue)
  | template output => pure (writeTemplate output)
  | validate path => checkPreferences path

def outcome (c : Command) (files : Files.FileTree) : Outcome := (c.script.eval files).run files

end Bleu.Command
