import ApiDocs.Docstring.Session
import ApiDocs.Docstring.Writer
import ApiDocs.Docstring.Codec
import ApiDocs.Markdown.Codec
import ApiDocs.Main
import ApiDocs.Proofs.Docstring.RoundTrip
import ApiDocs.Proofs.Docstring.SharedReader
import ApiDocs.Proofs.Docstring.Layout
import ApiDocs.Proofs.Docstring.DialectAgreement
import ApiDocs.Proofs.Package.SelectionModes
import ApiDocs.Proofs.Output.FileNames
import ApiDocs.Proofs.Package.AliasIdentity
import ApiDocs.Proofs.Package.HiddenMembers
import ApiDocs.Proofs.Output.GroupFiles
import ApiDocs.Proofs.Run.Failure
import ApiDocs.Proofs.Json.RoundTrip
import ApiDocs.Proofs.Docstring.ParsedForm
import ApiDocs.Proofs.Docstring.Neighbours
import ApiDocs.Proofs.Docstring.HeaderSpelling
import ApiDocs.Proofs.Docstring.FieldLines
import ApiDocs.Proofs.Docstring.ItemRuns
import ApiDocs.Proofs.Docstring.UnionTypes
import ApiDocs.Proofs.Markdown.Composition
import ApiDocs.Proofs.Page.TagLists
import ApiDocs.Proofs.Page.Sections
import ApiDocs.Proofs.Json.Nesting
import ApiDocs.Proofs.Page.TypeWalk
import ApiDocs.Proofs.Markdown.CodeSpans
import ApiDocs.Proofs.Output.Containment
import ApiDocs.Proofs.Package.AmbiguousNames
import ApiDocs.Proofs.Run.OutputFile
import ApiDocs.Proofs.Docstring.CommonMargin
import ApiDocs.Proofs.Docstring.FieldSplitting
import ApiDocs.Proofs.Docstring.MatchingParens
import ApiDocs.Proofs.Output.PathCompletion
