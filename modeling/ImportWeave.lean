import ImportWeave.Attributes
import ImportWeave.Config.Json
import ImportWeave.Declaration.Basic
import ImportWeave.Declaration.Json
import ImportWeave.Declaration.Resolution
import ImportWeave.Declaration.Validity
import ImportWeave.Importer
import ImportWeave.Injection
import ImportWeave.Json.Basic
import ImportWeave.Json.Number
import ImportWeave.Json.Parser
import ImportWeave.Json.Printer
import ImportWeave.Json.Quoted
import ImportWeave.Json.Record
import ImportWeave.Json.Token
import ImportWeave.Keyed
import ImportWeave.Overlay
import ImportWeave.Preset.Basic
import ImportWeave.Preset.Json
import ImportWeave.Proofs.Grouping
import ImportWeave.Proofs.Injection.Blocks
import ImportWeave.Proofs.Injection.Merging
import ImportWeave.Proofs.Overlay.Pieces
import ImportWeave.Proofs.Resolution.Survivors
import ImportWeave.Source.Blanking
import ImportWeave.Source.BoundNames
import ImportWeave.Source.StaticImport
import ImportWeave.Specifier.Basic
import ImportWeave.Specifier.Path
import ImportWeave.Statement.Export
import ImportWeave.Statement.Import
import ImportWeave.Statement.Types
import ImportWeave.Text.Basic
import ImportWeave.Text.Offset
import ImportWeave.Text.Word
import ImportWeave.Proofs.Resolution.Holder
import ImportWeave.Proofs.Blanking.Characters
import ImportWeave.Proofs.StaticImport.Parts
import ImportWeave.Proofs.Blanking.LiveOffsets
import ImportWeave.Proofs.Injection.InsertionOffsets
import ImportWeave.Proofs.Declaration.Normalization
import ImportWeave.Proofs.Resolution.Invariance
import ImportWeave.Proofs.Importer.FixedPoint
import ImportWeave.Proofs.Statement.Normalization
import ImportWeave.Proofs.Importer.Disabled
import ImportWeave.Proofs.Statement.LocalNames
import ImportWeave.Proofs.Importer.ReservedNames
import ImportWeave.Proofs.Overlay.ByOffset
import ImportWeave.Proofs.Overlay.Wrapping
import ImportWeave.Proofs.Config.RoundTrip
import ImportWeave.Proofs.Statement.Recognition
import ImportWeave.Proofs.Resolution.Winners
import ImportWeave.Proofs.Specifier.Paths
import ImportWeave.Proofs.Statement.ExportSpecifiers
import ImportWeave.Proofs.Injection.Clauses
import ImportWeave.Proofs.StaticImport.Resumption
import ImportWeave.Proofs.Injection.LeadingComment
import ImportWeave.Proofs.Injection.Division
import ImportWeave.Proofs.Injection.Edits
import ImportWeave.Proofs.StaticImport.Spans
import ImportWeave.Proofs.Injection.Composition
import ImportWeave.Proofs.Injection.Anchors
import ImportWeave.Proofs.Blanking.Classification
import ImportWeave.Proofs.Blanking.Layout
import ImportWeave.Proofs.Injection.FirstLine
import ImportWeave.Proofs.Blanking.LineEndings
import ImportWeave.Proofs.Injection.OpeningBraces
import ImportWeave.Proofs.Statement.BoundNames
import ImportWeave.Proofs.Preset.Inheritance
import ImportWeave.Proofs.Statement.Interleaving
import ImportWeave.Proofs.Statement.TypeBlocks
import ImportWeave.Proofs.Json.Quoted
import ImportWeave.Proofs.Attributes.Reading
import ImportWeave.Proofs.Injection.Normalization
