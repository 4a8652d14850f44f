import Bleu.Command.Options
import Bleu.Command.Script

/-!
# Listing what can be chosen

The smoothing methods, tokenizers and formats, a line each, with their columns aligned.
-/
namespace Bleu.Command
open Text (joinLines)

/-- A text with blanks after it up to a width in characters. -/
def padRight (width : Nat) (text : String) : String :=
  text ++ String.ofList (List.replicate (width - text.length) ' ')

/-- A line of a listing; each column but the last has a width. -/
def listingLine (columns : List (Nat × String)) (last : String) : String :=
  "  " ++ String.join (columns.map fun column => padRight column.1 column.2 ++ " ") ++ last

def Catalogue.lines : Catalogue → List String
  | smoothing =>
    "Available smoothing methods:" :: Smoothing.all.map fun m =>
      listingLine [(14, m.name), (8, m.numberedName)] m.description
  | tokenizers => "Available tokenizers:" :: Tokenization.all.map fun t => listingLine [(14, t.name)] t.description
  | formats => "Available output formats:" :: Report.Format.all.map fun f => listingLine [(14, f.name)] f.description

def listCatalogue (c : Catalogue) : Script where
  deeds := [.print (joinLines c.lines)]

end Bleu.Command
