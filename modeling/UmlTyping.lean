import UmlTyping.CommandLine.Options
import UmlTyping.CommandLine.Outcome
import UmlTyping.Definition.Compile
import UmlTyping.Definition.Error
import UmlTyping.Definition.Kind
import UmlTyping.Definition.Source
import UmlTyping.Definition.TypeExpr
import UmlTyping.Disk.Basic
import UmlTyping.Disk.Path
import UmlTyping.Event
import UmlTyping.Generation
import UmlTyping.Identifier
import UmlTyping.Main
import UmlTyping.Model.Basic
import UmlTyping.Model.Error
import UmlTyping.Model.Load
import UmlTyping.Module
import UmlTyping.Proofs.Arrangement
import UmlTyping.Proofs.Balance
import UmlTyping.Proofs.Binding
import UmlTyping.Proofs.Checking
import UmlTyping.Proofs.Collecting
import UmlTyping.Proofs.Compilation
import UmlTyping.Proofs.Composition
import UmlTyping.Proofs.Declarations
import UmlTyping.Proofs.Decoding
import UmlTyping.Proofs.Decomposition
import UmlTyping.Proofs.Dependency
import UmlTyping.Proofs.Emission
import UmlTyping.Proofs.Extension
import UmlTyping.Proofs.Filing
import UmlTyping.Proofs.Grouping
import UmlTyping.Proofs.Importing
import UmlTyping.Proofs.Indexing
import UmlTyping.Proofs.Inheritance
import UmlTyping.Proofs.Inspection
import UmlTyping.Proofs.JsonReading
import UmlTyping.Proofs.Lines
import UmlTyping.Proofs.Listing
import UmlTyping.Proofs.Loading
import UmlTyping.Proofs.Locality
import UmlTyping.Proofs.Lookup
import UmlTyping.Proofs.Merging
import UmlTyping.Proofs.Naming
import UmlTyping.Proofs.Nesting
import UmlTyping.Proofs.Outcome
import UmlTyping.Proofs.Ownership
import UmlTyping.Proofs.Placing
import UmlTyping.Proofs.PlainReading
import UmlTyping.Proofs.Positions
import UmlTyping.Proofs.Preparation
import UmlTyping.Proofs.Quotation
import UmlTyping.Proofs.Recording
import UmlTyping.Proofs.Reference
import UmlTyping.Proofs.Reordering
import UmlTyping.Proofs.Resolution
import UmlTyping.Proofs.Scoping
import UmlTyping.Proofs.Spelling
import UmlTyping.Proofs.Stepping
import UmlTyping.Proofs.Unescaping
import UmlTyping.Proofs.Uniqueness
import UmlTyping.Proofs.Walk
import UmlTyping.Proofs.Writing
import UmlTyping.Resolve
import UmlTyping.Run
import UmlTyping.Table
import UmlTyping.Text.Json
import UmlTyping.Text.Printable
import UmlTyping.Text.Quoted
import UmlTyping.Text.Utf8
import UmlTyping.Xmi.Element
import UmlTyping.Xmi.Field
import UmlTyping.Xmi.Reading
import UmlTyping.Xml.Binding
import UmlTyping.Xml.Content
import UmlTyping.Xml.Reference
import UmlTyping.Xml.Scopes
import UmlTyping.Xml.Tag
import UmlTyping.Xml.Token
