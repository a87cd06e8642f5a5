import ClassScribe.Command.Run
import ClassScribe.Config
import ClassScribe.Main
import ClassScribe.Model.Build
import ClassScribe.Model.Facts
import ClassScribe.Snapshot.Print
import ClassScribe.Snapshot.Read
import ClassScribe.Text.Stem
import ClassScribe.Source.Render
import ClassScribe.Generate
import ClassScribe.Host.Memory
import ClassScribe.Host.Disk
import ClassScribe.Proofs.Generate.Consent
import ClassScribe.Proofs.Model.Subtree
import ClassScribe.Proofs.Path.Steps
import ClassScribe.Proofs.Generate.Containment
import ClassScribe.Proofs.Host.Memory
import ClassScribe.Proofs.Text.Stem
import ClassScribe.Proofs.Generate.Carry
import ClassScribe.Proofs.Generate.Names
import ClassScribe.Proofs.Generate.Last
import ClassScribe.Proofs.Generate.Reported
import ClassScribe.Proofs.Generate.Renewal
import ClassScribe.Proofs.Generate.Refusal
import ClassScribe.Proofs.Generate.Repetition
import ClassScribe.Proofs.Model.Reference
import ClassScribe.Proofs.Generate.Require
import ClassScribe.Proofs.Text.Lines
import ClassScribe.Proofs.Source.Layout
import ClassScribe.Proofs.Source.Nesting
import ClassScribe.Proofs.Source.Comments
import ClassScribe.Proofs.Generate.Closure
import ClassScribe.Proofs.Model.Unbroken
import ClassScribe.Proofs.Source.Reading
import ClassScribe.Proofs.Source.Items
import ClassScribe.Proofs.Source.Body
import ClassScribe.Proofs.Source.Membership
import ClassScribe.Proofs.Model.Address
import ClassScribe.Proofs.Model.Arena
import ClassScribe.Proofs.Generate.Coverage
import ClassScribe.Proofs.Model.Renumber
import ClassScribe.Proofs.Model.Shuffle
import ClassScribe.Proofs.Source.Renumber
import ClassScribe.Proofs.Source.Reorder
import ClassScribe.Proofs.Host.Disk
import ClassScribe.Proofs.Generate.Blocked
import ClassScribe.Proofs.Generate.DryRun
import ClassScribe.Proofs.Host.Orphan
import ClassScribe.Proofs.Generate.Preview
import ClassScribe.Proofs.Source.Within
import ClassScribe.Proofs.Source.Construction
import ClassScribe.Proofs.Snapshot.RoundTrip
import ClassScribe.Proofs.Model.ExplicitId
import ClassScribe.Proofs.Source.Definition
import ClassScribe.Proofs.Source.Fields
import ClassScribe.Proofs.Source.Groups
import ClassScribe.Proofs.Model.Navigation
import ClassScribe.Proofs.Model.QualifiedName
import ClassScribe.Proofs.Source.Relevance
import ClassScribe.Proofs.Source.Sections
import ClassScribe.Proofs.Snapshot.Steady
import ClassScribe.Proofs.Source.Emitters
import ClassScribe.Proofs.Source.Relocation
import ClassScribe.Proofs.Source.Recovery
import ClassScribe.Proofs.Text.Lowered
