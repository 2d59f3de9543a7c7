import TableSpec.Catalog
import TableSpec.Column
import TableSpec.CommandLine
import TableSpec.Config
import TableSpec.Database
import TableSpec.Declaration
import TableSpec.Document
import TableSpec.Document.Model
import TableSpec.Error
import TableSpec.Extraction
import TableSpec.Files
import TableSpec.Format
import TableSpec.Ingest
import TableSpec.Ingest.Pipeline
import TableSpec.Json.Model
import TableSpec.KeyMap
import TableSpec.Listing
import TableSpec.Main
import TableSpec.MediaType
import TableSpec.Namespace
import TableSpec.Path
import TableSpec.Platform
import TableSpec.Scalar
import TableSpec.Schema
import TableSpec.Service
import TableSpec.Source.Expression
import TableSpec.Source.Node
import TableSpec.Source.Statement
import TableSpec.Source.StringLiteral
import TableSpec.Source.Token
import TableSpec.Sql.Engine
import TableSpec.Sql.Statement
import TableSpec.Table
import TableSpec.Toml.Printer
import TableSpec.Toml.Reader
import TableSpec.Yaml.Model
import TableSpec.Proofs.Ingest.Step
import TableSpec.Proofs.Ingest.Progress
import TableSpec.Proofs.Catalog.Recording
import TableSpec.Proofs.Extraction.Errors
import TableSpec.Proofs.Ingest.Conservation
import TableSpec.Proofs.Ingest.Outcome
import TableSpec.Proofs.Document.Catalog
import TableSpec.Proofs.Yaml.Document
import TableSpec.Proofs.Catalog.Reachable
import TableSpec.Proofs.Catalog.LastWrite
import TableSpec.Proofs.Catalog.RoundTrip
import TableSpec.Proofs.Yaml.Plain
import TableSpec.Proofs.Yaml.Quoted
import TableSpec.Proofs.Yaml.Literal
import TableSpec.Proofs.Yaml.Line
import TableSpec.Proofs.Yaml.Blocks
import TableSpec.Proofs.Yaml.Text
import TableSpec.Proofs.InPlace
import TableSpec.Proofs.Catalog.Owners
import TableSpec.Proofs.Database.LifeCycle
import TableSpec.Proofs.Extraction.Meaning
import TableSpec.Proofs.Text.Hex
import TableSpec.Proofs.Source.Printer
import TableSpec.Proofs.Source.StringLiteral
import TableSpec.Proofs.Source.Lexing
import TableSpec.Proofs.Source.Parsing
import TableSpec.Proofs.Source.RoundTrip
import TableSpec.Proofs.Database.Serving
import TableSpec.Proofs.Extraction.Extensions
import TableSpec.Proofs.CommandLine.Columns
import TableSpec.Proofs.Sql.Statement
import TableSpec.Proofs.Sql.Engine
import TableSpec.Proofs.Database.Kept
import TableSpec.Proofs.Database.Materialised
import TableSpec.Proofs.Source.Walk
import TableSpec.Proofs.Source.Traversal
import TableSpec.Proofs.Platform
import TableSpec.Proofs.Extraction.Schema
import TableSpec.Proofs.Source.Chains
import TableSpec.Proofs.Extraction.Registration
import TableSpec.Proofs.Extraction.Silence
import TableSpec.Proofs.Extraction.Atomicity
import TableSpec.Proofs.Database.Reduction
import TableSpec.Proofs.Database.Written
import TableSpec.Proofs.Source.Spelling
import TableSpec.Proofs.Source.BrokenEscapes
import TableSpec.Proofs.Platform.Disjunction
import TableSpec.Proofs.Platform.Merging
import TableSpec.Proofs.Toml.Text
import TableSpec.Proofs.Toml.Document
import TableSpec.Proofs.Files
import TableSpec.Proofs.Config
import TableSpec.Proofs.Service.Session
