import LineGrammar.Command.FileTree
import LineGrammar.Command.Program
import LineGrammar.Main
import LineGrammar.RuleStore
import LineGrammar.Proofs.LSystem.History
import LineGrammar.Proofs.Growth.Brackets
import LineGrammar.Proofs.Growth.Counting
import LineGrammar.Proofs.Growth.Prediction
import LineGrammar.Proofs.Studio.Guard
import LineGrammar.Proofs.Studio.Overflow
import LineGrammar.Proofs.Painter.Division
import LineGrammar.Proofs.Painter.Assignment
import LineGrammar.Proofs.Painter.Painting
import LineGrammar.Proofs.Painter.Repainting
import LineGrammar.Proofs.Raster.Strokes
import LineGrammar.Proofs.Studio.Repainting
import LineGrammar.Proofs.Turtle.Trail
import LineGrammar.Proofs.Gradient.Rebuilding
import LineGrammar.Proofs.Scene.RoundTrip
import LineGrammar.Proofs.Rules.Runs
import LineGrammar.Proofs.LSystem.Ancestry
import LineGrammar.Proofs.LSystem.Composition
import LineGrammar.Proofs.LSystem.Tables
import LineGrammar.Proofs.Gradient.Lookup
import LineGrammar.Proofs.Painter.Opacity
import LineGrammar.Proofs.Turtle.Branch
import LineGrammar.Proofs.Turtle.Excess
import LineGrammar.Proofs.Turtle.Depths
import LineGrammar.Proofs.Growth.Expression
import LineGrammar.Proofs.Painter.Blocks
import LineGrammar.Proofs.Painter.Selection
import LineGrammar.Proofs.Gradient.Insertion
import LineGrammar.Proofs.Growth.Survival
import LineGrammar.Proofs.Growth.Covering
import LineGrammar.Proofs.Growth.Indexing
import LineGrammar.Proofs.Gradient.Interpolation
import LineGrammar.Proofs.Color.Spelling
import LineGrammar.Proofs.Turtle.Idle
import LineGrammar.Proofs.Painter.Pooling
import LineGrammar.Proofs.Command.SizeTable
