import ItemTree.Decimal.Double
import ItemTree.Decimal.Numeral
import ItemTree.Decimal.Shortest
import ItemTree.Decimal.Style
import ItemTree.Error
import ItemTree.Header
import ItemTree.Ident.Checksum
import ItemTree.Ident.Generator
import ItemTree.Item.Basic
import ItemTree.Item.Blueprint
import ItemTree.Item.Container
import ItemTree.Item.Inspect
import ItemTree.Item.Walk
import ItemTree.Json.Basic
import ItemTree.Json.Error
import ItemTree.Json.Parse
import ItemTree.Json.Reader
import ItemTree.Json.Record
import ItemTree.Json.Skip
import ItemTree.Json.Typed
import ItemTree.Kind
import ItemTree.Kind.Json
import ItemTree.Outline
import ItemTree.Proofs.Ident.Checksum
import ItemTree.Proofs.Ident.Documents
import ItemTree.Proofs.Ident.Sequence
import ItemTree.Proofs.Item.Conservation
import ItemTree.Proofs.Item.Induction
import ItemTree.Proofs.Item.Observers
import ItemTree.Proofs.Item.Visitors
import ItemTree.Proofs.Item.Walk
import ItemTree.Proofs.Json.Literal
import ItemTree.Proofs.Json.Number
import ItemTree.Proofs.Json.Numeral
import ItemTree.Proofs.Json.Reads
import ItemTree.Proofs.Json.Record
import ItemTree.Proofs.Json.Skip
import ItemTree.Proofs.Json.Yields
import ItemTree.Proofs.Source.Config
import ItemTree.Proofs.Source.Layout
import ItemTree.Proofs.Source.Lines
import ItemTree.Proofs.Source.Loop
import ItemTree.Proofs.Source.Nesting
import ItemTree.Proofs.Source.Surface
import ItemTree.Proofs.Source.Trailing
import ItemTree.Proofs.Value.Json
import ItemTree.Proofs.Xml.Canonical
import ItemTree.Proofs.Xml.Census
import ItemTree.Proofs.Xml.Conforming
import ItemTree.Proofs.Xml.Escape
import ItemTree.Proofs.Xml.Export
import ItemTree.Proofs.Xml.Node
import ItemTree.Proofs.Xml.Normalization
import ItemTree.Proofs.Xml.Reading
import ItemTree.Proofs.Xml.RoundTrip
import ItemTree.Proofs.Xml.Skeleton
import ItemTree.Session
import ItemTree.Source.Config
import ItemTree.Source.Emit
import ItemTree.Source.Writer
import ItemTree.Text.Invisible
import ItemTree.Text.Quoted
import ItemTree.Value
import ItemTree.Value.Json
import ItemTree.Xml.Export
import ItemTree.Xml.Json
import ItemTree.Xml.Node
import ItemTree.Xml.Text
