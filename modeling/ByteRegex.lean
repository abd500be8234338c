import ByteRegex.Main
import ByteRegex.Proofs.Machine.Move
import ByteRegex.Proofs.Machine.Fuel
import ByteRegex.Proofs.Machine.Ceilings
import ByteRegex.Proofs.Search.Thresholds
import ByteRegex.Proofs.Semantics.Extent
import ByteRegex.Proofs.Bytecode.Decode
import ByteRegex.Proofs.Assembly.Layout
import ByteRegex.Proofs.Assembly.LaidOut
import ByteRegex.Proofs.Simulation.Behavior
import ByteRegex.Proofs.Simulation.Cost
import ByteRegex.Proofs.Simulation.Loop
import ByteRegex.Proofs.Semantics.Repetition
import ByteRegex.Proofs.Simulation.Single
import ByteRegex.Proofs.Simulation.Expr
import ByteRegex.Proofs.Syntax.Bounds
import ByteRegex.Proofs.Syntax.Numbering
import ByteRegex.Proofs.Syntax.Parse
import ByteRegex.Proofs.Bytecode.Fragment
import ByteRegex.Proofs.Assembly.Listed
import ByteRegex.Proofs.Assembly.Compiled
import ByteRegex.Proofs.Bytecode.WellFormed
import ByteRegex.Proofs.Simulation.Fuel
import ByteRegex.Proofs.Search.Correctness
import ByteRegex.Proofs.Syntax.Tokens
import ByteRegex.Proofs.Syntax.LookFree
import ByteRegex.Proofs.Search.Spans
import ByteRegex.Proofs.Machine.Trace
import ByteRegex.Proofs.Search.Safety
import ByteRegex.Proofs.Machine.Lockstep
import ByteRegex.Proofs.Syntax.Erasure
import ByteRegex.Proofs.Simulation.Erasure
import ByteRegex.Proofs.Search.Capturing
import ByteRegex.Proofs.Grammar.Spelling
import ByteRegex.Proofs.Grammar.Sets
import ByteRegex.Proofs.Grammar.Groups
import ByteRegex.Proofs.Grammar.Quantifiers
import ByteRegex.Proofs.Grammar.Lexing
import ByteRegex.Proofs.Syntax.Widths
import ByteRegex.Proofs.Assembly.Refusal
import ByteRegex.Proofs.Grammar.Phrase
import ByteRegex.Proofs.Grammar.Outline
import ByteRegex.Proofs.Grammar.Refinement
import ByteRegex.Proofs.Grammar.Acceptance
import ByteRegex.Proofs.Machine.Leftovers
import ByteRegex.Proofs.Search.Windows
import ByteRegex.Proofs.Assembly.Sinks
import ByteRegex.Proofs.Assembly.Edits
import ByteRegex.Proofs.Assembly.Passes
import ByteRegex.Proofs.Semantics.Mirror
import ByteRegex.Proofs.Assembly.Mirror
import ByteRegex.Proofs.Syntax.Mirror
import ByteRegex.Proofs.Search.Mirror
import ByteRegex.Proofs.Search.Newlines
import ByteRegex.Proofs.Semantics.Caseless
import ByteRegex.Proofs.Grammar.Suffixes
import ByteRegex.Proofs.Search.Caseless
import ByteRegex.Proofs.Machine.Onward
import ByteRegex.Proofs.Simulation.Crossing
import ByteRegex.Proofs.Search.Widths
import ByteRegex.Proofs.Syntax.Congruence
import ByteRegex.Proofs.Semantics.Equivalence
import ByteRegex.Proofs.Grammar.Splicing
import ByteRegex.Proofs.Grammar.Nesting
import ByteRegex.Proofs.Search.Rewriting
import ByteRegex.Proofs.Search.Grouping
import ByteRegex.Proofs.Search.Possessive
import ByteRegex.Proofs.Assembly.Sizes
import ByteRegex.Proofs.Semantics.Reordering
import ByteRegex.Proofs.Search.Greed
import ByteRegex.Proofs.Machine.Balance
import ByteRegex.Proofs.Search.Balance
import ByteRegex.Proofs.Search.Verbatim
import ByteRegex.Proofs.Syntax.Unread
import ByteRegex.Proofs.Machine.Consuming
import ByteRegex.Proofs.Search.Consuming
import ByteRegex.Proofs.Grammar.Depth
import ByteRegex.Proofs.Search.Enclosing
import ByteRegex.Proofs.Unicode.Encoding
import ByteRegex.Proofs.Unicode.Words
import ByteRegex.Proofs.Grammar.Escaping
import ByteRegex.Proofs.Grammar.Brackets
import ByteRegex.Proofs.Syntax.Arithmetic
import ByteRegex.Proofs.Syntax.Progress
import ByteRegex.Proofs.Assembly.Casts
import ByteRegex.Proofs.Assembly.Ranges
import ByteRegex.Proofs.Bytecode.Stream
import ByteRegex.Proofs.Assembly.Wrapping
import ByteRegex.Proofs.Bytecode.Sealed
import ByteRegex.Proofs.Assembly.Sealing
import ByteRegex.Proofs.Assembly.Drafts
import ByteRegex.Proofs.Text.Escapes
import ByteRegex.Proofs.Bytecode.Listing
import ByteRegex.Proofs.Assembly.Listings
