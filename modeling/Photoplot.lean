import Photoplot.Compile
import Photoplot.Expression.Reader
import Photoplot.Geometry.Tessellation
import Photoplot.Proofs.Decimal
import Photoplot.Proofs.PackedCoordinate
import Photoplot.Proofs.ExpressionGrammar
import Photoplot.Proofs.LayerOrder
import Photoplot.Proofs.Refinement
import Photoplot.Proofs.Scope
import Photoplot.Proofs.Simulation
import Photoplot.Proofs.Bodies
import Photoplot.Proofs.PictureLayers
import Photoplot.Proofs.ComposerInvariants
import Photoplot.Proofs.StackDiscipline
import Photoplot.Proofs.LayerNames
import Photoplot.Proofs.VariantHistory
import Photoplot.Proofs.TransformLaws
import Photoplot.Proofs.Inliner
import Photoplot.Proofs.LibraryImages
import Photoplot.Proofs.ComposerInlines
import Photoplot.Proofs.Inlining
import Photoplot.Proofs.MissingLayers
import Photoplot.Proofs.Agreement
import Photoplot.Proofs.FailedCommands
import Photoplot.Proofs.SkippedNodes
import Photoplot.Proofs.Steps
import Photoplot.Proofs.Halting
import Photoplot.Proofs.ErrorModes
import Photoplot.Proofs.DerivedState
import Photoplot.Proofs.PictureGroups
import Photoplot.Proofs.Regions
import Photoplot.Proofs.LayerBounds
import Photoplot.Proofs.Essence
import Photoplot.Proofs.Stencils
import Photoplot.Proofs.Recoloring
import Photoplot.Proofs.PolarityErasure
import Photoplot.Proofs.CoordinateGrammar
import Photoplot.Proofs.CanonicalCoordinate
import Photoplot.Proofs.CurrentPoint
import Photoplot.Proofs.ApertureStore
import Photoplot.Proofs.DecodingFormat
import Photoplot.Proofs.ThermalSectors
import Photoplot.Proofs.TurningOnce
import Photoplot.Proofs.EvenOdd
import Photoplot.Proofs.Fans
import Photoplot.Proofs.ConvexFans
import Photoplot.Proofs.Twins
import Photoplot.Proofs.DefinitionOrder
import Photoplot.Proofs.DistinctVertices
import Photoplot.Proofs.KeptVertices
import Photoplot.Proofs.Retracing
import Photoplot.Proofs.VariantGraphs
import Photoplot.Proofs.MomentInvariants
import Photoplot.Proofs.LibraryInvariants
import Photoplot.Proofs.VariantCounts
import Photoplot.Proofs.LayerLineage
import Photoplot.Proofs.ConstantPropagation
import Photoplot.Proofs.FilledContours
import Photoplot.Proofs.RegionContours
import Photoplot.Proofs.StepRepeatGrids
import Photoplot.Proofs.Sweeps
import Photoplot.Proofs.QuadrantCenters
import Photoplot.Proofs.SampledArcs
import Photoplot.Proofs.ArcImages
import Photoplot.Proofs.StrokeWidths
import Photoplot.Proofs.MoireRings
