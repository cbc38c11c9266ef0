import ClassModel.Format
import ClassModel.Main
import ClassModel.Proofs.Diagram.Normalization
import ClassModel.Proofs.Source.Files
import ClassModel.Proofs.Source.Restored
import ClassModel.Proofs.Source.Drawn
import ClassModel.Proofs.Overwriting
import ClassModel.Proofs.Schema.Fields
import ClassModel.Proofs.Schema.Tracking
import ClassModel.Proofs.Schema.Written
import ClassModel.Proofs.Schema.Resolution
import ClassModel.Proofs.Schema.Payloads
import ClassModel.Proofs.Schema.Repeating
import ClassModel.Proofs.Schema.Undefined
import ClassModel.Proofs.Schema.Lines
import ClassModel.Proofs.Schema.Normalized
import ClassModel.Proofs.Operations
import ClassModel.Proofs.Source.Ordering
import ClassModel.Proofs.Diagram.Interleaved
import ClassModel.Proofs.Cli.StubFiles
import ClassModel.Proofs.Source.TypeLines
import ClassModel.Proofs.Source.ClassTexts
import ClassModel.Proofs.Diagram.Exclusion
import ClassModel.Proofs.Diagram.RelationTexts
import ClassModel.Proofs.Diagram.Visits
import ClassModel.Proofs.Diagram.Relocated
import ClassModel.Proofs.Schema.Owners
import ClassModel.Proofs.Schema.Pending
import ClassModel.Proofs.Schema.Detached
import ClassModel.Proofs.Schema.Numbering
import ClassModel.Proofs.Diagram.Marks
import ClassModel.Proofs.Recognition
import ClassModel.Proofs.Source.Failures
import ClassModel.Proofs.Source.Divided
import ClassModel.Proofs.Diagram.ParameterTexts
