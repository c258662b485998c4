import HeaderReflect.CommandLine.Command
import HeaderReflect.Cursor.Builder
import HeaderReflect.Cursor.Script
import HeaderReflect.Main
import HeaderReflect.Setup
import HeaderReflect.Proofs.Merge.Depth
import HeaderReflect.Proofs.Merge.Associativity
import HeaderReflect.Proofs.Merge.Classes
import HeaderReflect.Proofs.Visit.Documents
import HeaderReflect.Proofs.Visit.Faithful
import HeaderReflect.Proofs.Blob.Reads
import HeaderReflect.Proofs.Blob.RoundTrip
import HeaderReflect.Proofs.Cache.Refresh
import HeaderReflect.Proofs.FileSystem.Content
import HeaderReflect.Proofs.Fingerprint
import HeaderReflect.Proofs.Generator.Effects
import HeaderReflect.Proofs.Generator.Run
import HeaderReflect.Proofs.Generator.History
import HeaderReflect.Proofs.Generator.Artifacts
import HeaderReflect.Proofs.Merge.Compatible
import HeaderReflect.Proofs.Merge.Facts
import HeaderReflect.Proofs.Blob.Nesting
import HeaderReflect.Proofs.Cache.Storage
import HeaderReflect.Proofs.Generator.Attempts
import HeaderReflect.Proofs.Merge.Shape
import HeaderReflect.Proofs.Visit.Shape
import HeaderReflect.Proofs.Merge.Reordering
import HeaderReflect.Proofs.Merge.Commutativity
import HeaderReflect.Proofs.Merge.View
import HeaderReflect.Proofs.Visit.Pruning
import HeaderReflect.Proofs.Visit.SelfContained
import HeaderReflect.Proofs.Visit.Exposure
import HeaderReflect.Proofs.Generator.Remains
import HeaderReflect.Proofs.Cache.Tally
import HeaderReflect.Proofs.Generator.Commit
import HeaderReflect.Proofs.Generator.Outputs
import HeaderReflect.Proofs.Generator.Collisions
import HeaderReflect.Proofs.Generator.Listing
import HeaderReflect.Proofs.Generator.Rerun
import HeaderReflect.Proofs.Merge.Grouping
import HeaderReflect.Proofs.Merge.Recording
import HeaderReflect.Proofs.Plan.Enums
import HeaderReflect.Proofs.Plan.Need
import HeaderReflect.Proofs.Merge.Clashes
import HeaderReflect.Proofs.Visit.Conflicts
import HeaderReflect.Proofs.Merge.Idempotence
import HeaderReflect.Proofs.Visit.Reopening
import HeaderReflect.Proofs.Cache.Account
import HeaderReflect.Proofs.Plan.Overloads
import HeaderReflect.Proofs.Path.Segments
import HeaderReflect.Proofs.Attributes
import HeaderReflect.Proofs.Generator.Adoption
import HeaderReflect.Proofs.Template.Builtin
import HeaderReflect.Proofs.Path.Identifier
import HeaderReflect.Proofs.Discovery.Headers
