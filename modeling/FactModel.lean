import FactModel.Main
import FactModel.Document.Clause
import FactModel.Matching.Wording
import FactModel.Proofs.Attempt
import FactModel.Proofs.Vocabulary.Grows
import FactModel.Proofs.Vocabulary.WellFormed
import FactModel.Proofs.Vocabulary.Preservation
import FactModel.Proofs.Vocabulary.Edits
import FactModel.Proofs.Vocabulary.Implied
import FactModel.Proofs.Clause.Everywhere
import FactModel.Proofs.Matching.Resolution
import FactModel.Proofs.Matching.Completion
import FactModel.Proofs.Context.Lookup
import FactModel.Proofs.Context.Bindings
import FactModel.Proofs.Context.Adoption
import FactModel.Proofs.Matching.Operations
import FactModel.Proofs.Peg.Yields
import FactModel.Proofs.Script.Evaluation
import FactModel.Proofs.Script.Words
import FactModel.Proofs.Context.Validity
import FactModel.Proofs.Matching.Ranking
import FactModel.Proofs.Matching.Validity
import FactModel.Proofs.Definition.Constraint
import FactModel.Proofs.Definition.FactType
import FactModel.Proofs.JoinGraph.Builder
import FactModel.Proofs.Session
import FactModel.Proofs.Matching.Assignment
import FactModel.Proofs.Matching.Candidates
import FactModel.Proofs.Session.Ranking
import FactModel.Proofs.Context.Replay
import FactModel.Proofs.Matching.Conservation
import FactModel.Proofs.JoinGraph.Connectivity
import FactModel.Proofs.Session.Connectivity
import FactModel.Proofs.Matching.Flat
import FactModel.Proofs.Matching.Through
import FactModel.Proofs.Vocabulary.Change
import FactModel.Proofs.Vocabulary.Hierarchy
import FactModel.Proofs.Session.Growth
import FactModel.Proofs.Matching.Verbatim
import FactModel.Proofs.Definition.Creation
import FactModel.Proofs.Session.Restating
import FactModel.Proofs.Context.Merging
import FactModel.Proofs.Matching.Carrying
import FactModel.Proofs.Matching.Slots
import FactModel.Proofs.Matching.Borrowing
import FactModel.Proofs.JoinGraph.Variables
import FactModel.Proofs.Session.Entering
import FactModel.Proofs.Session.Runs
import FactModel.Proofs.Session.Queries
import FactModel.Proofs.Session.Individuals
import FactModel.Proofs.Matching.ExactTypes
import FactModel.Proofs.Vocabulary.Additions
import FactModel.Proofs.Matching.Onto
import FactModel.Proofs.Matching.Implied
import FactModel.Proofs.Vocabulary.Kinds
import FactModel.Proofs.Matching.Kinds
import FactModel.Proofs.Session.Kinds
import FactModel.Proofs.Definition.Keeping
import FactModel.Proofs.Definition.Bindings
import FactModel.Proofs.JoinGraph.Plays
import FactModel.Proofs.Context.Numbering
import FactModel.Proofs.Definition.Roles
import FactModel.Proofs.JoinGraph.Mirror
import FactModel.Proofs.Session.JoinGraphs
import FactModel.Proofs.Definition.Constraining
import FactModel.Proofs.Definition.Invoking
import FactModel.Proofs.Definition.Naming
import FactModel.Proofs.Definition.Agreeing
import FactModel.Proofs.Session.Constraints
import FactModel.Proofs.Peg.DeadEnds
import FactModel.Proofs.Script.Spelling
import FactModel.Proofs.Definition.Wording
import FactModel.Proofs.Script.Fences
import FactModel.Proofs.Script.Composition
import FactModel.Proofs.Session.Composition
import FactModel.Proofs.Definition.Bounding
import FactModel.Proofs.Session.Bounding
import FactModel.Proofs.Matching.RoleNames
import FactModel.Proofs.Session.RoleNames
import FactModel.Proofs.Vocabulary.Fullness
import FactModel.Proofs.Definition.Fullness
import FactModel.Proofs.Session.Fullness
import FactModel.Proofs.Definition.Placing
import FactModel.Proofs.Session.Placing
import FactModel.Proofs.Session.Players
import FactModel.Proofs.Definition.Casting
import FactModel.Proofs.Definition.Apart
import FactModel.Proofs.Matching.Contraction
import FactModel.Proofs.Matching.Adjectives
import FactModel.Proofs.Session.Adjectives
import FactModel.Proofs.Definition.Redefining
import FactModel.Proofs.Session.Redeclaring
import FactModel.Proofs.Definition.Commuting
import FactModel.Proofs.Session.Forwards
import FactModel.Proofs.Session.Commuting
import FactModel.Proofs.Session.Merges
import FactModel.Proofs.Matching.Spelling
import FactModel.Proofs.Matching.Negating
import FactModel.Proofs.Session.Apart
import FactModel.Proofs.Graph.Distance
import FactModel.Proofs.Session.Nearest
import FactModel.Proofs.JoinGraph.Objectification
import FactModel.Proofs.Session.Objectification
import FactModel.Proofs.Session.Denotation
import FactModel.Proofs.Matching.Renaming
import FactModel.Proofs.Context.Likeness
import FactModel.Proofs.Vocabulary.Comparisons
import FactModel.Proofs.Matching.Forwards
import FactModel.Proofs.Context.Naming
import FactModel.Proofs.Context.Taking
import FactModel.Proofs.Context.Speaking
import FactModel.Proofs.Context.Reentering
import FactModel.Proofs.Matching.Singly
import FactModel.Proofs.Matching.Stages
import FactModel.Proofs.JoinGraph.Seating
import FactModel.Proofs.JoinGraph.Flat
import FactModel.Proofs.Session.Reordering
