import Typings.Main
import Typings.Proofs.AllowedValues
import Typings.Proofs.CanonicalNodes
import Typings.Proofs.Chunks
import Typings.Proofs.Composition.Comment
import Typings.Proofs.Composition.Declarations
import Typings.Proofs.Composition.Text
import Typings.Proofs.Composition.Types
import Typings.Proofs.DeclaredNames
import Typings.Proofs.DeclaredReferences
import Typings.Proofs.DescribedParameters
import Typings.Proofs.Documentation.Bare
import Typings.Proofs.Documentation.BareBlock
import Typings.Proofs.Documentation.ClosedBlock
import Typings.Proofs.Documentation.ParameterTags
import Typings.Proofs.DroppedNamespaces
import Typings.Proofs.Duplicates
import Typings.Proofs.EarlyRemoval
import Typings.Proofs.ElidedCallbacks
import Typings.Proofs.Enumerations
import Typings.Proofs.FileLayout
import Typings.Proofs.Files.Enumeration
import Typings.Proofs.Files.Reading
import Typings.Proofs.GeneratedFile
import Typings.Proofs.Grouping
import Typings.Proofs.InlineObjects
import Typings.Proofs.KeyedLists
import Typings.Proofs.MalformedTypes
import Typings.Proofs.MergeContents
import Typings.Proofs.MergeableRecords
import Typings.Proofs.Overloads
import Typings.Proofs.Parameters
import Typings.Proofs.PropertyKeys
import Typings.Proofs.ReformattedDocuments
import Typings.Proofs.RefusedFiles
import Typings.Proofs.RenderedWarnings
import Typings.Proofs.RepeatedMembers
import Typings.Proofs.RepeatedReading
import Typings.Proofs.ReservedNames
import Typings.Proofs.Runs
import Typings.Proofs.Scanning.ClosedFiles
import Typings.Proofs.Scanning.Decoding
import Typings.Proofs.Scanning.Literal
import Typings.Proofs.Scanning.Strings
import Typings.Proofs.SchemaGrammar
import Typings.Proofs.ScopeDependence
import Typings.Proofs.SignatureLines
import Typings.Proofs.SourceOrder
import Typings.Proofs.StrippedComments
import Typings.Proofs.Subnodes
import Typings.Proofs.TypeSyntax.Choices
import Typings.Proofs.TypeSyntax.Expression
import Typings.Proofs.TypeSyntax.Function
import Typings.Proofs.TypeSyntax.Grammar
import Typings.Proofs.TypeSyntax.Rendering
import Typings.Proofs.TypeSyntax.Token
import Typings.Proofs.TypeSyntax.Translation
import Typings.Proofs.TypeSyntax.Tree
import Typings.Proofs.Utf8
