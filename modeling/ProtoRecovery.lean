import ProtoRecovery.Main
import ProtoRecovery.Schema.Walk
import ProtoRecovery.Storage.FileTree
import ProtoRecovery.Proofs.Blob.RoundTrip
import ProtoRecovery.Proofs.Blob.Descent
import ProtoRecovery.Proofs.Il2cpp.Bounds
import ProtoRecovery.Proofs.Recovery.Failure
import ProtoRecovery.Proofs.Managed.Placement
import ProtoRecovery.Proofs.Managed.Reconstruction
import ProtoRecovery.Proofs.Recovery.Imports
import ProtoRecovery.Proofs.Managed.Content
import ProtoRecovery.Proofs.Managed.Output
import ProtoRecovery.Proofs.Managed.Sides
import ProtoRecovery.Proofs.Managed.Order
import ProtoRecovery.Proofs.Schema.Scope
import ProtoRecovery.Proofs.Schema.WrittenNames
import ProtoRecovery.Proofs.Recovery.Kinds
import ProtoRecovery.Proofs.Managed.Ending
import ProtoRecovery.Proofs.Managed.Handle
import ProtoRecovery.Proofs.Managed.Skipping
import ProtoRecovery.Proofs.Schema.Export
import ProtoRecovery.Proofs.Managed.References
import ProtoRecovery.Proofs.Managed.Collections
import ProtoRecovery.Proofs.Schema.Lineage
import ProtoRecovery.Proofs.Recovery.Justified
import ProtoRecovery.Proofs.Il2cpp.SharedNames
import ProtoRecovery.Proofs.Recovery.Accounts
import ProtoRecovery.Proofs.Blob.Extension
import ProtoRecovery.Proofs.Blob.NullArrays
import ProtoRecovery.Proofs.Schema.ChoiceLayout
import ProtoRecovery.Proofs.Schema.Draft
import ProtoRecovery.Proofs.Blob.TokenSearch
import ProtoRecovery.Proofs.Managed.Lookup
import ProtoRecovery.Proofs.Command.Candidates
import ProtoRecovery.Proofs.Managed.Assignability
import ProtoRecovery.Proofs.Managed.FullNames
import ProtoRecovery.Proofs.Recovery.MissingArguments
import ProtoRecovery.Proofs.Il2cpp.Interfaces
import ProtoRecovery.Proofs.Schema.Combined
import ProtoRecovery.Proofs.Schema.Preamble
import ProtoRecovery.Proofs.Identifier.Spelling
import ProtoRecovery.Proofs.Schema.Literals
import ProtoRecovery.Proofs.Blob.Compression
import ProtoRecovery.Proofs.Il2cpp.NestedNames
