import PathExpansion.Collect
import PathExpansion.Tree.Reader
import PathExpansion.Proofs.Agenda.Basic
import PathExpansion.Proofs.Agenda.Finite
import PathExpansion.Proofs.Agenda.Step
import PathExpansion.Proofs.Agenda.Length
import PathExpansion.Proofs.Agenda.Run
import PathExpansion.Proofs.Agenda.Transcript
import PathExpansion.Proofs.Tree.Paths
import PathExpansion.Proofs.Tree.Finite
import PathExpansion.Proofs.Agenda.Results
import PathExpansion.Proofs.Enumeration
import PathExpansion.Proofs.Descent
import PathExpansion.Proofs.LevelOrder
import PathExpansion.Proofs.PathQueue
import PathExpansion.Proofs.Regex.Language
import PathExpansion.Proofs.Regex.Parts
import PathExpansion.Proofs.Globs
import PathExpansion.Proofs.Divisions
import PathExpansion.Proofs.WholePath
import PathExpansion.Proofs.Reach
import PathExpansion.Proofs.Traversal
import PathExpansion.Proofs.Meaning
import PathExpansion.Proofs.Policies
import PathExpansion.Proofs.Handles
import PathExpansion.Proofs.Cycles
import PathExpansion.Proofs.Orders
import PathExpansion.Proofs.Comparisons
import PathExpansion.Proofs.Exclusion
import PathExpansion.Proofs.Displacement
import PathExpansion.Proofs.Restarts
import PathExpansion.Proofs.ListingOrder
import PathExpansion.Proofs.Alarms
import PathExpansion.Proofs.Ancestors
import PathExpansion.Proofs.Depth
import PathExpansion.Proofs.GlobItems
import PathExpansion.Proofs.GlobLanguage
import PathExpansion.Proofs.Regex.Groups
import PathExpansion.Proofs.Tiles
import PathExpansion.Proofs.Retelling
import PathExpansion.Proofs.Arrivals
import PathExpansion.Proofs.Replacement
import PathExpansion.Proofs.Following
import PathExpansion.Proofs.Unrolling
import PathExpansion.Proofs.Spelling
import PathExpansion.Proofs.Derivation
import PathExpansion.Proofs.Lexicographic
import PathExpansion.Proofs.Entered
import PathExpansion.Proofs.LinkFree
import PathExpansion.Proofs.Templates
import PathExpansion.Proofs.Compilable
import PathExpansion.Proofs.TreeListing
import PathExpansion.Proofs.Construction
import PathExpansion.Proofs.Printing
import PathExpansion.Proofs.WellFormed
