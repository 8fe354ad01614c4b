import PropCatalog.Main
import PropCatalog.Proofs.Binary64
import PropCatalog.Proofs.Catalog.Closing
import PropCatalog.Proofs.Catalog.Decoding
import PropCatalog.Proofs.Catalog.Outline
import PropCatalog.Proofs.CommandLine.Agreement
import PropCatalog.Proofs.CommandLine.Ownership
import PropCatalog.Proofs.Component.Bindings
import PropCatalog.Proofs.Example.Decoding
import PropCatalog.Proofs.Example.Shape
import PropCatalog.Proofs.Interface.Comments
import PropCatalog.Proofs.Interface.Members
import PropCatalog.Proofs.Interface.RoundTrip
import PropCatalog.Proofs.Interface.Table
import PropCatalog.Proofs.Json.Numeral
import PropCatalog.Proofs.Literal.Items
import PropCatalog.Proofs.Literal.Numbers
import PropCatalog.Proofs.Template.Description
import PropCatalog.Proofs.Template.Written
import PropCatalog.Proofs.Example.Depth
import PropCatalog.Proofs.Example.Refinement
import PropCatalog.Proofs.Example.Inline
import PropCatalog.Proofs.Example.References
import PropCatalog.Proofs.Component.Fallback
import PropCatalog.Proofs.Config.LegacyHeading
import PropCatalog.Proofs.Document.CodeBlocks
import PropCatalog.Proofs.Text.Closer
import PropCatalog.Proofs.Example.Denotation
import PropCatalog.Proofs.Catalog.Scan
import PropCatalog.Proofs.Component.Reflow
