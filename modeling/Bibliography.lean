import Bibliography.Grammar.Tree
import Bibliography.Options.Record
import Bibliography.Text.Octets
import Bibliography.Tidy
import Bibliography.Proofs.Parse.Findings
import Bibliography.Proofs.Grammar.Acceptance
import Bibliography.Proofs.Render.FixedPoint
import Bibliography.Proofs.Tidy.Index
import Bibliography.Proofs.Tidy.Sources
import Bibliography.Proofs.Tidy.Sessions
import Bibliography.Proofs.Tidy.Reordering
import Bibliography.Proofs.Duplicates.Citation
import Bibliography.Proofs.Duplicates.Survivors
import Bibliography.Proofs.Sort.Numbers
import Bibliography.Proofs.Parse.Payload
import Bibliography.Proofs.Value.Closing
import Bibliography.Proofs.Tidy.Normalizing
import Bibliography.Proofs.CitationKey.Escaping
import Bibliography.Proofs.Unicode.Folding
import Bibliography.Proofs.Duplicates.Keys
import Bibliography.Proofs.Layout.Rereading
import Bibliography.Proofs.Resolve
import Bibliography.Proofs.Tidy.FieldOrder
import Bibliography.Proofs.Layout.Filling
import Bibliography.Proofs.Layout.Alignment
import Bibliography.Proofs.Value.Authors
import Bibliography.Proofs.CitationKey.Templates
import Bibliography.Proofs.Offset.Range
