import DotGraph.Attribute.Edit
import DotGraph.Attribute.Layout
import DotGraph.Attribute.Schema
import DotGraph.Attribute.Spec
import DotGraph.Attribute.Table
import DotGraph.Attribute.Value
import DotGraph.Binary64
import DotGraph.Binary64.Numeral
import DotGraph.Binary64.Product
import DotGraph.Binary64.Shortest
import DotGraph.Command
import DotGraph.CommandLine
import DotGraph.ConfigFile
import DotGraph.Datum
import DotGraph.Datum.Equality
import DotGraph.Datum.Product
import DotGraph.Decimal
import DotGraph.Decimal.Reader
import DotGraph.Dot
import DotGraph.Entries
import DotGraph.Example
import DotGraph.Files
import DotGraph.Identifier
import DotGraph.Json
import DotGraph.Json.Datum
import DotGraph.Json.Equality
import DotGraph.Json.Graph
import DotGraph.Json.Printer
import DotGraph.Json.Reader
import DotGraph.Naming
import DotGraph.Network
import DotGraph.Network.Export
import DotGraph.Network.Import
import DotGraph.Network.Key
import DotGraph.Network.NodeLink
import DotGraph.NodeId
import DotGraph.Object
import DotGraph.Operator
import DotGraph.Outline
import DotGraph.Project
import DotGraph.RenderConfig
import DotGraph.Script
import DotGraph.Session
import DotGraph.Session.Edit
import DotGraph.Session.Names
import DotGraph.Session.Query
import DotGraph.Store
import DotGraph.Store.Edit
import DotGraph.Store.Links
import DotGraph.Store.Operation
import DotGraph.Text.Digits
import DotGraph.Text.Hex
import DotGraph.Text.Indentation
import DotGraph.Text.Piece
import DotGraph.Text.Printable
import DotGraph.Text.Quoted
import DotGraph.Text.Terminal
import DotGraph.Text.WholeNumber
import DotGraph.Vocabulary
import DotGraph.Vocabulary.Catalogue
import DotGraph.Vocabulary.Standard
import DotGraph.Main
import DotGraph.Proofs.Construction
import DotGraph.Proofs.TableEdits
import DotGraph.Proofs.Change
import DotGraph.Proofs.Contents
import DotGraph.Proofs.Admission
import DotGraph.Proofs.Outcomes
import DotGraph.Proofs.LinkSearch
import DotGraph.Proofs.Uniformity
import DotGraph.Proofs.Acyclicity
import DotGraph.Proofs.Unfolding
import DotGraph.Proofs.Exports
import DotGraph.Proofs.EntryLists
import DotGraph.Proofs.MergedEntries
import DotGraph.Proofs.Tables
import DotGraph.Proofs.ShownData
import DotGraph.Proofs.Outlines
import DotGraph.Proofs.Parts
import DotGraph.Proofs.Words
import DotGraph.Proofs.AttributeText
import DotGraph.Proofs.OutlineText
import DotGraph.Proofs.LineStarts
import DotGraph.Proofs.UniqueReading
import DotGraph.Proofs.GraphText
import DotGraph.Proofs.Networks
import DotGraph.Proofs.NetworkListing
import DotGraph.Proofs.Coercion
import DotGraph.Proofs.Importing
import DotGraph.Proofs.NetworkRoundTrip
import DotGraph.Proofs.OperatorAgreement
import DotGraph.Proofs.Ownership
import DotGraph.Proofs.Refusal
import DotGraph.Proofs.NetworkNormalForm
import DotGraph.Proofs.ViewText
import DotGraph.Proofs.Frame
import DotGraph.Proofs.ImportedGraphs
import DotGraph.Proofs.NodeLinkErrors
import DotGraph.Proofs.Conversion
import DotGraph.Proofs.Mentions
import DotGraph.Proofs.NetworkNodes
import DotGraph.Proofs.Appending
import DotGraph.Proofs.NetworkLinks
import DotGraph.Proofs.NetworkEdges
import DotGraph.Proofs.ImportedStatements
import DotGraph.Proofs.ClearTexts
import DotGraph.Proofs.Rows
import DotGraph.Proofs.LinkPaths
import DotGraph.Proofs.BodyOperators
import DotGraph.Proofs.SubgraphText
import DotGraph.Proofs.BraceDepth
import DotGraph.Proofs.Rounding
import DotGraph.Proofs.ShortestDecimals
import DotGraph.Proofs.Numerals
import DotGraph.Proofs.TextCharacters
import DotGraph.Proofs.Success
import DotGraph.Proofs.BundledExamples
import DotGraph.Proofs.Rendering
import DotGraph.Proofs.EntryChanges
import DotGraph.Proofs.TableUpdates
import DotGraph.Proofs.TableHistory
import DotGraph.Proofs.DeclaredData
import DotGraph.Proofs.ImportConditions
import DotGraph.Proofs.FlatStatements
import DotGraph.Proofs.NetworkData
import DotGraph.Proofs.IdentifierGrammar
import DotGraph.Proofs.JsonQuotedTexts
import DotGraph.Proofs.JsonNumbers
import DotGraph.Proofs.JsonRoundTrip
import DotGraph.Proofs.ViewReading
import DotGraph.Proofs.FileWalks
import DotGraph.Proofs.SavedOptions
import DotGraph.Proofs.SparedTables
import DotGraph.Proofs.Independence
import DotGraph.Proofs.SettingOrder
import DotGraph.Proofs.TableEquality
import DotGraph.Proofs.FirstMentions
import DotGraph.Proofs.SearchRounds
import DotGraph.Proofs.WrittenBodies
import DotGraph.Proofs.StableValues
