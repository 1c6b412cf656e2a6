import CellScript.Heap.Equality
import CellScript.Heap.Shape
import CellScript.Outcome
import CellScript.Tree.Encoding
import CellScript.Proofs.Comparisons
import CellScript.Proofs.FunctionBodies
import CellScript.Proofs.IterationCap
import CellScript.Proofs.Mutation
import CellScript.Proofs.OperatorPrograms
import CellScript.Proofs.ReturnScope
import CellScript.Proofs.RunIsolation
import CellScript.Proofs.Severity
import CellScript.Proofs.SinkRoom
import CellScript.Proofs.SnapshotDepth
import CellScript.Proofs.SnapshotText
import CellScript.Proofs.SnapshotViews
import CellScript.Proofs.Termination
import CellScript.Proofs.TokenPlaces
import CellScript.Proofs.TokenTexts
import CellScript.Proofs.TreeJson
import CellScript.Proofs.LineLayout
import CellScript.Proofs.Assignments
import CellScript.Proofs.Flattening
import CellScript.Proofs.TextWrites
import CellScript.Proofs.Owners
import CellScript.Proofs.Unfoldings
import CellScript.Proofs.Calls
import CellScript.Proofs.Decoding
import CellScript.Proofs.Printed
import CellScript.Proofs.UnbrokenTexts
import CellScript.Proofs.OutputLines
import CellScript.Proofs.Shadowing
import CellScript.Proofs.Expressions
import CellScript.Proofs.CountingLoops
import CellScript.Proofs.Entering
import CellScript.Proofs.Factorial
