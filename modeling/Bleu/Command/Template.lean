import Bleu.Command.Script
import Bleu.Text.Lines

/-!
# The template of preferences

A document that spells out the standard preferences with remarks, to start from.
-/
namespace Bleu.Command
open Text (joinLines)

def templateLines : List String := [
  "# bleurs configuration",
  "#",
  "# Every key is optional; omitted keys keep the value shown here.",
  "# Command-line options override values from this file.",
  "",
  "[output]",
  "# Report format: \"text\", \"json\" or \"markdown\"",
  "default_format = \"text\"",
  "# Indent JSON output",
  "pretty_json = true",
  "# Decimals printed for scores in text and markdown reports",
  "precision = 4",
  "",
  "[performance]",
  "# Corpora with fewer sentence pairs are scored on one thread",
  "parallel_threshold = 1000",
  "# Number of worker threads (0 = one per CPU)",
  "worker_threads = 0",
  "",
  "[scoring]",
  "# Highest n-gram order, scored with uniform weights",
  "max_order = 4",
  "# Tokenizer: \"simple\" (splits punctuation) or \"whitespace\"",
  "tokenizer = \"simple\"",
  "# Explicit per-order weights; overrides max_order when set",
  "# weights = [0.25, 0.25, 0.25, 0.25]",
  "",
  "[scoring.smoothing]",
  "# One of: none, epsilon, add-one, exponential, length-scaled",
  "# (aliases method0 to method4)",
  "method = \"none\"",
  "# epsilon = 0.1   # used by \"epsilon\"",
  "# k = 5.0         # used by \"length-scaled\""]

def templateText : String := joinLines templateLines

def writeTemplate (output : String) : Script where
  deeds := [
    .print (joinLines ["Generating configuration template...", s!"  Output file: {output}"]),
    .save output templateText (.writing output),
    .print (joinLines [
      "✓ Configuration template generated successfully!",
      "",
      "Next steps:",
      "1. Edit the configuration file",
      "2. Validate your configuration:",
      s!"   bleurs validate -c {output}",
      "3. Use it for scoring:",
      s!"   bleurs corpus -H hyp.txt -r ref.txt -c {output}"])]

end Bleu.Command
