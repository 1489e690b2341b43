import Accession.Text.Character
import Accession.Digest.Source
import Accession.Manifest.Reader
import Accession.Package.Kind
import Accession.Package.Reconcile
import Accession.Package.Error
import Accession.Restructured.Sidecar
import Accession.Markup.Node
import Accession.Instant.Basic
import Accession.Instant.Reader
import Accession.Provenance.Document
import Accession.Files.Path
import Accession.Files.Tree
import Accession.Files.Access
import Accession.Provenance.Activity
import Accession.Settings.File
import Accession.Command.Report
import Accession.Command.Arguments
import Accession.Command.Run
import Accession.Provenance.Context
import Accession.Main
import Accession.Proofs.Lists
import Accession.Proofs.Text.Utf8
import Accession.Proofs.Text.Decoding
import Accession.Proofs.Index
import Accession.Proofs.Markup.Reference
import Accession.Proofs.Markup.Tag
import Accession.Proofs.Markup.Cutting
import Accession.Proofs.Markup.Nesting
import Accession.Proofs.Markup.Extending
import Accession.Proofs.Markup.Breaking
import Accession.Proofs.Markup.Content
import Accession.Proofs.Markup.Resolving
import Accession.Proofs.Markup.Node
import Accession.Proofs.Markup.Tearing
import Accession.Proofs.Markup.Resaving
import Accession.Proofs.Provenance.Element
import Accession.Proofs.Provenance.Placement
import Accession.Proofs.Provenance.Adding
import Accession.Proofs.Provenance.Growth
import Accession.Proofs.Provenance.Resaving
import Accession.Proofs.Provenance.Records
import Accession.Proofs.Provenance.AuditLog
import Accession.Proofs.Provenance.Linking
import Accession.Proofs.Provenance.Chronology
import Accession.Proofs.Manifest.Written
import Accession.Proofs.Manifest.Reading
import Accession.Proofs.Manifest.Progress
import Accession.Proofs.Manifest.Ending
import Accession.Proofs.Manifest.Origin
import Accession.Proofs.Manifest.Extension
import Accession.Proofs.Manifest.Layering
import Accession.Proofs.Manifest.Segments
import Accession.Proofs.Digest.Streaming
import Accession.Proofs.Files.Spelling
import Accession.Proofs.Files.Walking
import Accession.Proofs.Files.Contents
import Accession.Proofs.Files.Writing
import Accession.Proofs.Package.Reconciling
import Accession.Proofs.Package.Collecting
import Accession.Proofs.Package.Listing
import Accession.Proofs.Package.Verifying
import Accession.Proofs.Package.Confinement
import Accession.Proofs.Provenance.Activities
import Accession.Proofs.Provenance.Orderly
import Accession.Proofs.Provenance.Closure
import Accession.Proofs.Provenance.Retrying
import Accession.Proofs.Provenance.Validating
import Accession.Proofs.Provenance.Recording
import Accession.Proofs.Provenance.Commuting
import Accession.Proofs.Provenance.Targeting
import Accession.Proofs.Instant.Calendar
import Accession.Proofs.Instant.Fields
import Accession.Proofs.Instant.Forms
import Accession.Proofs.Instant.RoundTrip
import Accession.Proofs.Provenance.Timing
import Accession.Proofs.Provenance.DateTime
import Accession.Proofs.Command.Log
import Accession.Proofs.Text.Quoted
import Accession.Proofs.Restructured.Projecting
import Accession.Proofs.Package.Diagnostics
import Accession.Proofs.Json.Written
import Accession.Proofs.Restructured.Sidecar
