import JniHeader.Archive.Basic
import JniHeader.Archive.Bzip2
import JniHeader.Archive.CodePage437
import JniHeader.Archive.Crc32
import JniHeader.Archive.Decoding
import JniHeader.Archive.Inflate
import JniHeader.Archive.LittleEndian
import JniHeader.Archive.Lzma
import JniHeader.ClassFile.Basic
import JniHeader.ClassFile.Parser
import JniHeader.ClassFile.Pool
import JniHeader.ClassFile.Reader
import JniHeader.CommandLine.Config
import JniHeader.CommandLine.Options
import JniHeader.CommandLine.Program
import JniHeader.Constant.Basic
import JniHeader.Constant.StringLiteral
import JniHeader.Descriptor.Basic
import JniHeader.Descriptor.Parser
import JniHeader.Files.Error
import JniHeader.Files.Path
import JniHeader.Files.System
import JniHeader.Files.Table
import JniHeader.Generation.Basic
import JniHeader.Generation.Batch
import JniHeader.Generation.Summary
import JniHeader.Header.Basic
import JniHeader.Main
import JniHeader.Meta.Basic
import JniHeader.Name.Mangling
import JniHeader.Name.Qualified
import JniHeader.NativeType.Basic
import JniHeader.NativeType.Throwable
import JniHeader.Number.Binary
import JniHeader.Number.Decimal
import JniHeader.Number.Reading
import JniHeader.Proofs.ClassFile.PoolLayout
import JniHeader.Proofs.ClassFile.PoolReference
import JniHeader.Proofs.ClassFile.Reads
import JniHeader.Proofs.ClassFile.RoundTrip
import JniHeader.Proofs.ClassFile.StoredValues
import JniHeader.Proofs.ClassFile.Truncation
import JniHeader.Proofs.ClassFile.Yields
import JniHeader.Proofs.Constant.FloatLiteral
import JniHeader.Proofs.Constant.IntegerLiteral
import JniHeader.Proofs.Descriptor.Grammar
import JniHeader.Proofs.Descriptor.Scanner
import JniHeader.Proofs.Files.Changes
import JniHeader.Proofs.Files.Children
import JniHeader.Proofs.Files.Components
import JniHeader.Proofs.Files.EnsuredPaths
import JniHeader.Proofs.Files.Entries
import JniHeader.Proofs.Files.FailedWrites
import JniHeader.Proofs.Files.MadeDirectories
import JniHeader.Proofs.Files.ObstructedPaths
import JniHeader.Proofs.Files.PlainWalk
import JniHeader.Proofs.Files.Reaches
import JniHeader.Proofs.Files.SettledPaths
import JniHeader.Proofs.Files.Trees
import JniHeader.Proofs.Files.UsableNames
import JniHeader.Proofs.Files.Writes
import JniHeader.Proofs.Files.WrittenFiles
import JniHeader.Proofs.Generation.BatchEnds
import JniHeader.Proofs.Generation.Confinement
import JniHeader.Proofs.Generation.DirectoryCalls
import JniHeader.Proofs.Generation.FailedCalls
import JniHeader.Proofs.Generation.Headlines
import JniHeader.Proofs.Generation.KeptHeaders
import JniHeader.Proofs.Generation.LongerPath
import JniHeader.Proofs.Generation.Lookups
import JniHeader.Proofs.Generation.Packing
import JniHeader.Proofs.Generation.PrintedLines
import JniHeader.Proofs.Generation.RepeatedCalls
import JniHeader.Proofs.Generation.StoredHeaders
import JniHeader.Proofs.Generation.Turns
import JniHeader.Proofs.Generation.Unaffected
import JniHeader.Proofs.Generation.WrittenCalls
import JniHeader.Proofs.Header.Alphabet
import JniHeader.Proofs.Header.Comments
import JniHeader.Proofs.Header.Comparison
import JniHeader.Proofs.Header.Identifiers
import JniHeader.Proofs.Header.Layout
import JniHeader.Proofs.Header.Parts
import JniHeader.Proofs.Header.Refusals
import JniHeader.Proofs.Header.Reports
import JniHeader.Proofs.Meta.ExportedConstants
import JniHeader.Proofs.Meta.SuperClass
import JniHeader.Proofs.Name.Accepted
import JniHeader.Proofs.Name.HeaderFile
import JniHeader.Proofs.Name.Mangling
import JniHeader.Proofs.Name.OpenUnderscores
import JniHeader.Proofs.Name.Parts
import JniHeader.Proofs.Name.Spelling
import JniHeader.Proofs.Name.Symbol
import JniHeader.Proofs.Name.UnitEscapes
import JniHeader.Proofs.NativeType.SuperClassWalk
import JniHeader.Proofs.NativeType.Throwable
import JniHeader.Proofs.NativeType.WalkLookups
import JniHeader.Proofs.Number.DecimalText
import JniHeader.Proofs.Number.Nearest
import JniHeader.Proofs.Number.NineDigits
import JniHeader.Proofs.Number.Pattern
import JniHeader.Proofs.Number.Rereading
import JniHeader.Proofs.Number.Rounding
import JniHeader.Proofs.Number.SingleText
import JniHeader.Proofs.Search.EntryOrder
import JniHeader.Proofs.Search.Failures
import JniHeader.Proofs.Search.ModuleOrder
import JniHeader.Proofs.Search.PathEntries
import JniHeader.Proofs.Search.Reported
import JniHeader.Proofs.Search.Results
import JniHeader.Proofs.Search.SettledLookups
import JniHeader.Proofs.Text.CComments
import JniHeader.Proofs.Text.CNumerals
import JniHeader.Proofs.Text.CStrings
import JniHeader.Proofs.Text.Digits
import JniHeader.Proofs.Text.Lines
import JniHeader.Proofs.Text.Only
import JniHeader.Proofs.Text.Order
import JniHeader.Proofs.Text.Split
import JniHeader.Proofs.Text.Utf16
import JniHeader.Proofs.Text.Utf8
import JniHeader.Search.Failure
import JniHeader.Search.PathText
import JniHeader.Search.Provider
import JniHeader.Search.Reported
import JniHeader.Search.Runtime
import JniHeader.Search.Source
import JniHeader.Text.Blank
import JniHeader.Text.CodePoint
import JniHeader.Text.DecimalDigit
import JniHeader.Text.Numeral
import JniHeader.Text.Printable
import JniHeader.Text.Quoted
import JniHeader.Text.Utf16
import JniHeader.Text.Utf8
