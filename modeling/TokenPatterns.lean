import TokenPatterns.Description
import TokenPatterns.Json.Printer
import TokenPatterns.Lexicon.Session
import TokenPatterns.Stored.File
import TokenPatterns.Stored.Result
import TokenPatterns.Stored.Text
import TokenPatterns.Proofs.Greedy.Machine
import TokenPatterns.Proofs.Graph.Links
import TokenPatterns.Proofs.Graph.Order
import TokenPatterns.Proofs.Graph.Successors
import TokenPatterns.Proofs.Graph.Finality
import TokenPatterns.Proofs.Greedy.Simulation
import TokenPatterns.Proofs.Graph.Tokens
import TokenPatterns.Proofs.Greedy.Alignment
import TokenPatterns.Proofs.Greedy.Trail
import TokenPatterns.Proofs.Phrases
import TokenPatterns.Proofs.Greedy.Captures
import TokenPatterns.Proofs.Greedy.Consumer
import TokenPatterns.Proofs.Greedy.Anchor
import TokenPatterns.Proofs.Greedy.Omission
import TokenPatterns.Proofs.Greedy.Trailing
import TokenPatterns.Proofs.Registry.Reachable
import TokenPatterns.Proofs.Registry.Best
import TokenPatterns.Proofs.Registry.History
import TokenPatterns.Proofs.Locality
import TokenPatterns.Proofs.Registry.Scan
import TokenPatterns.Proofs.Registry.Styles
import TokenPatterns.Proofs.Registry.Exact
import TokenPatterns.Proofs.Variables
import TokenPatterns.Proofs.Grammar
import TokenPatterns.Proofs.Lexicon.Caching
import TokenPatterns.Proofs.Lexicon.Senses
import TokenPatterns.Proofs.Synonyms
import TokenPatterns.Proofs.Registry.Endings
import TokenPatterns.Proofs.Lexicon.Accounting
import TokenPatterns.Proofs.Lexicon.Composition
import TokenPatterns.Proofs.Lexicon.Index
import TokenPatterns.Proofs.Text.Overlays
import TokenPatterns.Proofs.Renaming.Match
import TokenPatterns.Proofs.Labels
import TokenPatterns.Proofs.Stored.Records
import TokenPatterns.Proofs.Stored.Rereading
import TokenPatterns.Proofs.Graph.Shape
import TokenPatterns.Proofs.Json.Printing
