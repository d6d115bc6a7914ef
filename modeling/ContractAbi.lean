import ContractAbi.AbiType.Basic
import ContractAbi.AbiType.Hint
import ContractAbi.AbiType.Tuple
import ContractAbi.Call
import ContractAbi.Catalog.Annotations
import ContractAbi.Catalog.Basic
import ContractAbi.Catalog.Check
import ContractAbi.Catalog.Survey
import ContractAbi.CommandLine.Directory
import ContractAbi.CommandLine.Options
import ContractAbi.CommandLine.Run
import ContractAbi.Declaration.Basic
import ContractAbi.Declaration.Enroll
import ContractAbi.Declaration.Program
import ContractAbi.Declaration.Registry
import ContractAbi.Dispatch.Injector
import ContractAbi.Dispatch.Routine
import ContractAbi.Distinct
import ContractAbi.Double.Basic
import ContractAbi.Double.Shortest
import ContractAbi.Dump
import ContractAbi.Fault
import ContractAbi.Finding
import ContractAbi.Fragment.Constants
import ContractAbi.Fragment.Definitions
import ContractAbi.Json.Basic
import ContractAbi.Json.Reader
import ContractAbi.Json.Writer
import ContractAbi.Layout
import ContractAbi.Main
import ContractAbi.Manifest.Basic
import ContractAbi.Manifest.Build
import ContractAbi.Name
import ContractAbi.ObjectLiteral
import ContractAbi.OutputPath
import ContractAbi.Param
import ContractAbi.Proofs.Failure
import ContractAbi.Proofs.Hex
import ContractAbi.Proofs.Signature
import ContractAbi.Sha256
import ContractAbi.Table
import ContractAbi.Text.Blank
import ContractAbi.Text.Decimal
import ContractAbi.Text.Digit
import ContractAbi.Text.Hex
import ContractAbi.Text.Printable
import ContractAbi.Text.Quoted
import ContractAbi.Text.Upper
import ContractAbi.Transform
import ContractAbi.Workspace
import ContractAbi.Proofs.Resolution
import ContractAbi.Proofs.Building
import ContractAbi.Proofs.Handles
import ContractAbi.Proofs.Surveying
import ContractAbi.Proofs.Rendering
import ContractAbi.Proofs.Running
import ContractAbi.Proofs.Routing
import ContractAbi.Proofs.Agreement
import ContractAbi.Proofs.Textual
import ContractAbi.Proofs.Outcome
import ContractAbi.Proofs.Atomicity
import ContractAbi.Proofs.Rewording
import ContractAbi.Proofs.Tuples
import ContractAbi.Proofs.Respelling
import ContractAbi.Proofs.Inventory
import ContractAbi.Proofs.Dispatchers
import ContractAbi.Proofs.Emissions
import ContractAbi.Proofs.Splicing
import ContractAbi.Proofs.Histories
import ContractAbi.Proofs.Naming
import ContractAbi.Proofs.Reruns
import ContractAbi.Proofs.ReadBack
import ContractAbi.Proofs.Telling
import ContractAbi.Proofs.Constants
import ContractAbi.Proofs.Loading
import ContractAbi.Proofs.Embedding
import ContractAbi.Proofs.Ledger
import ContractAbi.Proofs.Libraries
import ContractAbi.Proofs.Files
import ContractAbi.Proofs.Reordering
import ContractAbi.Proofs.Format
import ContractAbi.Proofs.Refusals
import ContractAbi.Proofs.Bookkeeping
import ContractAbi.Proofs.Merging
import ContractAbi.Proofs.Misspelling
import ContractAbi.Proofs.Revisiting
import ContractAbi.Proofs.Injecting
import ContractAbi.Proofs.Outlines
import ContractAbi.Proofs.Exports
import ContractAbi.Proofs.Independence
import ContractAbi.Proofs.Numbering
import ContractAbi.Proofs.Warnings
import ContractAbi.Proofs.Registration
import ContractAbi.Proofs.Quoting
import ContractAbi.Proofs.Placement
import ContractAbi.Proofs.Grammar
import ContractAbi.Proofs.Trimming
import ContractAbi.Proofs.Literals
