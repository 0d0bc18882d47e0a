import PatternTree.CommandLine
import PatternTree.Grammar
import PatternTree.Main
import PatternTree.Proofs.Bounds
import PatternTree.Proofs.CommandLine
import PatternTree.Proofs.Concatenation
import PatternTree.Proofs.Copy
import PatternTree.Proofs.CursorRuns
import PatternTree.Proofs.Equality
import PatternTree.Proofs.Expressible
import PatternTree.Proofs.FaultText
import PatternTree.Proofs.Height
import PatternTree.Proofs.Inspect
import PatternTree.Proofs.Levels
import PatternTree.Proofs.NestLimit
import PatternTree.Proofs.Nullable
import PatternTree.Proofs.Outline
import PatternTree.Proofs.Size
import PatternTree.Proofs.Strictness
import PatternTree.Proofs.ValidPrefix
import PatternTree.Tree.Copy
import PatternTree.Tree.Equality
import PatternTree.Tree.Expressible
import PatternTree.Tree.Inspect
import PatternTree.Tree.Language
import PatternTree.Tree.Nullable
import PatternTree.Tree.Size
import PatternTree.Tree.Written
