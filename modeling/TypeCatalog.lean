import TypeCatalog.Text.Word
import TypeCatalog.Text.Quoted
import TypeCatalog.Text.Blank
import TypeCatalog.Text.Utf16
import TypeCatalog.Decimal.Shortest
import TypeCatalog.Json.Reader
import TypeCatalog.Json.Writer
import TypeCatalog.Signature.Parse
import TypeCatalog.Signature.Substitution
import TypeCatalog.ClassFile.Reader
import TypeCatalog.CompiledClass
import TypeCatalog.Text.Base64
import TypeCatalog.Cache.Entry
import TypeCatalog.ResolvedType
import TypeCatalog.Catalog.Resolve
import TypeCatalog.Inheritance
import TypeCatalog.Call
import TypeCatalog.Source.Token
import TypeCatalog.Source.Reader
import TypeCatalog.Source.Annotate
import TypeCatalog.Storage.Disk
import TypeCatalog.Archive.Format
import TypeCatalog.Failure
import TypeCatalog.Library.Load
import TypeCatalog.Toml.Reader
import TypeCatalog.Settings.File
import TypeCatalog.Command.Run
import TypeCatalog.Main
import TypeCatalog.Proofs.Signature.Grammar
import TypeCatalog.Proofs.Signature.Reading
import TypeCatalog.Proofs.Signature.RoundTrip
import TypeCatalog.Proofs.Signature.Declaration
import TypeCatalog.Proofs.Signature.Replacement
import TypeCatalog.Proofs.ClassFile.ModifiedUtf8
import TypeCatalog.Proofs.ClassFile.Decoding
import TypeCatalog.Proofs.ClassFile.Truncation
import TypeCatalog.Proofs.Json.RoundTrip
import TypeCatalog.Proofs.Cache.RoundTrip
import TypeCatalog.Proofs.Catalog.Reachable
import TypeCatalog.Proofs.Catalog.Specialisation
import TypeCatalog.Proofs.Catalog.Signature
import TypeCatalog.Proofs.Catalog.Legible
import TypeCatalog.Proofs.Catalog.Alike
import TypeCatalog.Proofs.Catalog.Replacement
import TypeCatalog.Proofs.Catalog.Derived
import TypeCatalog.Proofs.Inference
import TypeCatalog.Proofs.Unbound
import TypeCatalog.Proofs.Inheritance
import TypeCatalog.Proofs.Source.Declarations
import TypeCatalog.Proofs.Json.Controls
import TypeCatalog.Proofs.Library.Caches
import TypeCatalog.Proofs.Source.Annotation
import TypeCatalog.Proofs.Lookahead
import TypeCatalog.Proofs.Signature.Refusal
import TypeCatalog.Proofs.Signature.Spelling
import TypeCatalog.Proofs.Signature.Search
import TypeCatalog.Proofs.Signature.Rewriting
import TypeCatalog.Proofs.OwnerArguments
import TypeCatalog.Proofs.Renaming
import TypeCatalog.Proofs.RenamedMethod
import TypeCatalog.Proofs.Library.Sources
import TypeCatalog.Proofs.Signature.Parts
import TypeCatalog.Proofs.Signature.Lookups
import TypeCatalog.Proofs.Catalog.Contents
import TypeCatalog.Proofs.Source.Bounds
import TypeCatalog.Proofs.Signature.Unbounded
import TypeCatalog.Proofs.Signature.References
import TypeCatalog.Proofs.Catalog.Erasure
import TypeCatalog.Proofs.Library.Dependencies
import TypeCatalog.Proofs.Library.Selection
import TypeCatalog.Proofs.Library.Builds
import TypeCatalog.Proofs.Source.Frame
import TypeCatalog.Proofs.Source.Descriptors
import TypeCatalog.Proofs.Source.Elements
import TypeCatalog.Proofs.Source.Initialisers
import TypeCatalog.Proofs.Source.Passage
import TypeCatalog.Proofs.Source.PassageReaders
import TypeCatalog.Proofs.Source.Bodies
import TypeCatalog.Proofs.Catalog.Growth
import TypeCatalog.Proofs.Catalog.WrittenNames
import TypeCatalog.Proofs.Source.Margins
import TypeCatalog.Proofs.Source.CompactConstructors
import TypeCatalog.Proofs.Catalog.ShortSignature
import TypeCatalog.Proofs.Library.Bundles
import TypeCatalog.Proofs.Settings.References
import TypeCatalog.Proofs.Matching
import TypeCatalog.Proofs.Flatness
