import GrammarListing.CommandLine.Arguments
import GrammarListing.CommandLine.Run
import GrammarListing.Config.Discovery
import GrammarListing.Config.Record
import GrammarListing.Decimal
import GrammarListing.FileSystem.Basic
import GrammarListing.FileSystem.Workspace
import GrammarListing.Json.Document
import GrammarListing.Main
import GrammarListing.Path
import GrammarListing.Proofs.Alignment
import GrammarListing.Proofs.CommandLine.Agreement
import GrammarListing.Proofs.CommandLine.Arguments
import GrammarListing.Proofs.CommandLine.Configuration
import GrammarListing.Proofs.CommandLine.EmptySource
import GrammarListing.Proofs.CommandLine.Mention
import GrammarListing.Proofs.CommandLine.Outcome
import GrammarListing.Proofs.CommandLine.Run
import GrammarListing.Proofs.CommandLine.Spelling
import GrammarListing.Proofs.CommandLine.Subdirectory
import GrammarListing.Proofs.Config.Acceptance
import GrammarListing.Proofs.Config.Files
import GrammarListing.Proofs.Config.Layering
import GrammarListing.Proofs.Config.Loading
import GrammarListing.Proofs.Config.Nearness
import GrammarListing.Proofs.Config.Table
import GrammarListing.Proofs.Path.Ancestors
import GrammarListing.Proofs.Path.Components
import GrammarListing.Proofs.Path.Reported
import GrammarListing.Proofs.Realignment
import GrammarListing.Proofs.Relisting
import GrammarListing.Proofs.Rule.Annotation
import GrammarListing.Proofs.Rule.Extraction
import GrammarListing.Proofs.Rule.Layout
import GrammarListing.Proofs.Rule.Locality
import GrammarListing.Proofs.Rule.Marking
import GrammarListing.Proofs.Rule.Recognition
import GrammarListing.Proofs.Rule.Slicing
import GrammarListing.Proofs.Rule.Widening
import GrammarListing.Proofs.Stream.Dump
import GrammarListing.Proofs.Stream.ReadBack
import GrammarListing.Proofs.Text.Decoding
import GrammarListing.Proofs.Text.Encoding
import GrammarListing.Proofs.Text.Lines
import GrammarListing.Proofs.Text.Offset
import GrammarListing.Proofs.Text.Search
import GrammarListing.Proofs.Text.Splitting
import GrammarListing.Proofs.Toml.Document
import GrammarListing.Proofs.Toml.Keys
import GrammarListing.Proofs.Toml.Reading
import GrammarListing.Rule
import GrammarListing.Stream
import GrammarListing.Text.Basic
import GrammarListing.Text.Printed
import GrammarListing.Toml.Document
import GrammarListing.Toml.Lexeme
