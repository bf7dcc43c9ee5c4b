import FunctionInventory.Analysis
import FunctionInventory.Batch
import FunctionInventory.Cache
import FunctionInventory.CommandLine.Arguments
import FunctionInventory.CommandLine.Program
import FunctionInventory.Data.Binary64
import FunctionInventory.Data.Json
import FunctionInventory.Data.MessagePack
import FunctionInventory.Data.Sha256
import FunctionInventory.Data.Value
import FunctionInventory.Extraction
import FunctionInventory.FileSystem
import FunctionInventory.FileTree
import FunctionInventory.Language
import FunctionInventory.Language.JavaScript
import FunctionInventory.Language.Scanner
import FunctionInventory.Language.TypeScript
import FunctionInventory.Limits
import FunctionInventory.Loading
import FunctionInventory.Log
import FunctionInventory.Main
import FunctionInventory.Nesting
import FunctionInventory.Parsing.Automaton
import FunctionInventory.Parsing.Grammar
import FunctionInventory.Parsing.Lexer
import FunctionInventory.Parsing.Parser
import FunctionInventory.Parsing.Pattern
import FunctionInventory.Parsing.Rule
import FunctionInventory.Parsing.Source
import FunctionInventory.Parsing.Stack
import FunctionInventory.Parsing.Syntax
import FunctionInventory.Parsing.TokenSet
import FunctionInventory.Parsing.Tree
import FunctionInventory.Path
import FunctionInventory.Progress
import FunctionInventory.Proofs.Analyses
import FunctionInventory.Proofs.BatchEffects
import FunctionInventory.Proofs.BatchOutcomes
import FunctionInventory.Proofs.BatchesInPlace
import FunctionInventory.Proofs.CacheEntries
import FunctionInventory.Proofs.CacheFiles
import FunctionInventory.Proofs.CacheTransparency
import FunctionInventory.Proofs.Calls
import FunctionInventory.Proofs.CanonicalData
import FunctionInventory.Proofs.CommandLines
import FunctionInventory.Proofs.Containment
import FunctionInventory.Proofs.ContentKeys
import FunctionInventory.Proofs.DeclaredNames
import FunctionInventory.Proofs.Displacement
import FunctionInventory.Proofs.DurableCaches
import FunctionInventory.Proofs.Extents
import FunctionInventory.Proofs.FailedSaves
import FunctionInventory.Proofs.Files
import FunctionInventory.Proofs.FilteredCalls
import FunctionInventory.Proofs.Forest
import FunctionInventory.Proofs.FunctionIndexes
import FunctionInventory.Proofs.Inventory
import FunctionInventory.Proofs.LaminarExtents
import FunctionInventory.Proofs.LanguageProfiles
import FunctionInventory.Proofs.LineTexts
import FunctionInventory.Proofs.Lines
import FunctionInventory.Proofs.MergedResults
import FunctionInventory.Proofs.MessagePack
import FunctionInventory.Proofs.MessagePackFormat
import FunctionInventory.Proofs.Outcomes
import FunctionInventory.Proofs.PathTexts
import FunctionInventory.Proofs.Places
import FunctionInventory.Proofs.PoolResults
import FunctionInventory.Proofs.Provenance
import FunctionInventory.Proofs.ReadableTrees
import FunctionInventory.Proofs.RecordChecks
import FunctionInventory.Proofs.RecordRoundTrip
import FunctionInventory.Proofs.Resolution
import FunctionInventory.Proofs.Slices
import FunctionInventory.Proofs.SourceFiles
import FunctionInventory.Proofs.StoredAnalyses
import FunctionInventory.Proofs.StoredEntries
import FunctionInventory.Proofs.TreeNodes
import FunctionInventory.Proofs.UnusableCaches
import FunctionInventory.Proofs.Utf8
import FunctionInventory.Proofs.WorkerCounts
import FunctionInventory.Record
import FunctionInventory.Record.Dump
import FunctionInventory.Record.Validation
import FunctionInventory.Resolution
import FunctionInventory.SourceText
import FunctionInventory.SyntaxNode
import FunctionInventory.Text
import FunctionInventory.Text.Decoding
import FunctionInventory.Text.Integer
import FunctionInventory.Text.Printable
import FunctionInventory.Text.Quoted
import FunctionInventory.Text.Similarity
