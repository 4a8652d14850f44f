import Bleu.Json.Numbers
import Bleu.Main
import Bleu.Settings.File
import Bleu.Settings.Listing
import Bleu.Proofs.Batches
import Bleu.Proofs.Histogram
import Bleu.Proofs.Matches
import Bleu.Proofs.Double.Bounds
import Bleu.Proofs.Invariant
import Bleu.Proofs.Leftovers
import Bleu.Proofs.NoOverlap
import Bleu.Proofs.Reduction
import Bleu.Proofs.References
import Bleu.Proofs.Renaming
import Bleu.Proofs.Restriction
import Bleu.Proofs.Smoothing
import Bleu.Proofs.UnitInterval
import Bleu.Proofs.Orders
import Bleu.Proofs.Alignment
import Bleu.Proofs.Settings
import Bleu.Proofs.Faults
import Bleu.Proofs.Reports
import Bleu.Proofs.Arguments
import Bleu.Proofs.StandardWeights
import Bleu.Proofs.CommandLine
import Bleu.Proofs.Overrides
import Bleu.Proofs.Occurrences
import Bleu.Proofs.Copies
import Bleu.Proofs.Validation
import Bleu.Proofs.SingleReference
import Bleu.Proofs.Separators
import Bleu.Proofs.Locality
import Bleu.Proofs.Vanishing
import Bleu.Proofs.Mediants
import Bleu.Proofs.Transposition
import Bleu.Proofs.LineEnds
import Bleu.Proofs.Adjustments
import Bleu.Proofs.Drafts
import Bleu.Proofs.Counts
