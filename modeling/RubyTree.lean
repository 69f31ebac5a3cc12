import RubyTree.Canonical.Compare
import RubyTree.Canonical.Render
import RubyTree.Conversion
import RubyTree.Legacy.Build
import RubyTree.Legacy.Wire
import RubyTree.Symbol
import RubyTree.Proofs.Descent
import RubyTree.Proofs.Parts
import RubyTree.Proofs.Bound
import RubyTree.Proofs.Everywhere
import RubyTree.Proofs.Grammar
import RubyTree.Proofs.SplatFlags
import RubyTree.Proofs.Formed
import RubyTree.Proofs.Expressions
import RubyTree.Proofs.Clauses
import RubyTree.Proofs.Programs
import RubyTree.Proofs.ParameterLayout
import RubyTree.Proofs.ParameterDecoding
import RubyTree.Proofs.DoubleValue
import RubyTree.Proofs.JsonDifference
import RubyTree.Proofs.Similarity
import RubyTree.Proofs.ReferenceTrees
import RubyTree.Proofs.MirroredNodes
import RubyTree.Proofs.MirroredParts
import RubyTree.Proofs.Coupling
import RubyTree.Proofs.CoupledExpressions
import RubyTree.Proofs.CoupledClauses
import RubyTree.Proofs.CoupledPrograms
import RubyTree.Proofs.Locations
import RubyTree.Proofs.Relocation
import RubyTree.Proofs.SourceLines
import RubyTree.Proofs.LineShift
import RubyTree.Proofs.Operands
import RubyTree.Proofs.Refusals
import RubyTree.Proofs.FrozenStrings
import RubyTree.Proofs.Forgetting
import RubyTree.Proofs.FlipFlops
import RubyTree.Proofs.ArgumentOrder
import RubyTree.Proofs.JsonReading
import RubyTree.Proofs.WireForms
import RubyTree.Proofs.WireDecoding
import RubyTree.Proofs.WireRepresentation
import RubyTree.Proofs.BlockAttachment
import RubyTree.Proofs.ExceptionClauses
import RubyTree.Proofs.CaseChains
import RubyTree.Proofs.MatchOperators
import RubyTree.Proofs.Interpolations
import RubyTree.Proofs.Destructuring
import RubyTree.Proofs.Footprint
import RubyTree.Proofs.ConvertedNodes
import RubyTree.Proofs.RescueReferences
import RubyTree.Proofs.ParameterTables
import RubyTree.Proofs.SourceOffsets
import RubyTree.Proofs.VariableFamilies
import RubyTree.Proofs.StaticFragments
import RubyTree.Proofs.ScopedConstants
import RubyTree.Proofs.HashPairs
import RubyTree.Proofs.JsonSymmetry
import RubyTree.Proofs.Places
import RubyTree.Proofs.FirstDifference
import RubyTree.Proofs.DecimalText
import RubyTree.Proofs.Rendering
import RubyTree.Proofs.ByteOrder
import RubyTree.Proofs.SymbolTables
