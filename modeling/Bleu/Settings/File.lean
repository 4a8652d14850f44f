import Bleu.Files.Reading
import Bleu.Settings.Document

/-!
# Settings in files

The settings of a scorer as a document in a file of its own.
-/
namespace Bleu.Settings
open Files (Reading)

def ofFile (path : String) : ExceptT Fault Reading Settings :=
  ExceptT.mk do return (← Reading.readText path).mapError .unreadableFile >>= ofDocument

end Bleu.Settings
