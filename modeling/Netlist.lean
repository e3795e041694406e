import Netlist.Buffer
import Netlist.Fault
import Netlist.Program
import Netlist.Proofs.Acyclic
import Netlist.Proofs.Placement
import Netlist.Proofs.Extraction
import Netlist.Proofs.Stages
import Netlist.Proofs.Linking
import Netlist.Proofs.Root
import Netlist.Proofs.Ports
import Netlist.Proofs.Resolution
import Netlist.Proofs.Positional
import Netlist.Proofs.PositionalTokens
import Netlist.Proofs.PositionalBodies
import Netlist.Proofs.FreshName
import Netlist.Proofs.PositionalLoad
import Netlist.Proofs.Blocks
import Netlist.Proofs.BodyRanges
import Netlist.Proofs.Arguments
import Netlist.Proofs.BodyGrammar
import Netlist.Proofs.Wiring
import Netlist.Proofs.Lowering
import Netlist.Proofs.Problems
import Netlist.Proofs.Consistency
import Netlist.Proofs.Conservation
import Netlist.Proofs.Faults
import Netlist.Proofs.Numbering
import Netlist.Proofs.Separation
import Netlist.Proofs.ModelContents
import Netlist.Proofs.Blockwise
import Netlist.Proofs.Permutation
import Netlist.Proofs.PhysicalLines
import Netlist.Proofs.QuotedLines
import Netlist.Proofs.OrdinaryEvents
import Netlist.Proofs.OpenStrings
import Netlist.Proofs.Precedence
import Netlist.Proofs.Shorthand
import Netlist.Proofs.LineEdits
import Netlist.Proofs.SectionOwner
import Netlist.Proofs.GraphCalls
import Netlist.Proofs.WellFormed
import Netlist.Proofs.DesignCalls
import Netlist.Proofs.Renumbering
import Netlist.Proofs.RetainedTops
import Netlist.Proofs.StatedProperties
import Netlist.Proofs.CommentMarks
import Netlist.Proofs.LineGrammar
import Netlist.Proofs.Segments
import Netlist.Proofs.SharedChannel
import Netlist.Proofs.Layout
import Netlist.Proofs.BoxBindings
import Netlist.Proofs.ResetLatches
import Netlist.Proofs.SkippedLines
import Netlist.Proofs.BufferCalls
import Netlist.Proofs.Growth
import Netlist.Proofs.ClonedChannels
import Netlist.Proofs.LineGroups
import Netlist.Proofs.Replies
