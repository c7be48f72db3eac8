import NativeTypes.Assoc
import NativeTypes.CommandLine.Arguments
import NativeTypes.CommandLine.Files
import NativeTypes.CommandLine.Host
import NativeTypes.CommandLine.Input
import NativeTypes.CommandLine.Options
import NativeTypes.CommandLine.Outcome
import NativeTypes.CommandLine.Run
import NativeTypes.Config
import NativeTypes.Decimal.Read
import NativeTypes.Decimal.Shortest
import NativeTypes.Diagnostic
import NativeTypes.Digest.Sha1
import NativeTypes.Dwarf.BitField
import NativeTypes.Dwarf.Entry
import NativeTypes.Dwarf.Image
import NativeTypes.Dwarf.Index
import NativeTypes.Export.Run
import NativeTypes.Export.Schedule
import NativeTypes.Instance.Basic
import NativeTypes.Instance.Graph
import NativeTypes.Key
import NativeTypes.Main
import NativeTypes.Naming.Allocate
import NativeTypes.Naming.Identifier
import NativeTypes.Order.Components
import NativeTypes.Order.Emission
import NativeTypes.Path
import NativeTypes.Primitive
import NativeTypes.Problem
import NativeTypes.Proofs.CommandLine.Delivery
import NativeTypes.Proofs.CommandLine.Files
import NativeTypes.Proofs.Config
import NativeTypes.Proofs.Dwarf.Arrays
import NativeTypes.Proofs.Dwarf.BitField
import NativeTypes.Proofs.Dwarf.Declarations
import NativeTypes.Proofs.Dwarf.Index
import NativeTypes.Proofs.Dwarf.Kept
import NativeTypes.Proofs.Export.Defined
import NativeTypes.Proofs.Export.Parallel
import NativeTypes.Proofs.Export.RootOrder
import NativeTypes.Proofs.Export.Roots
import NativeTypes.Proofs.Export.Ties
import NativeTypes.Proofs.Export.ValueCycles
import NativeTypes.Proofs.Instance.Changes
import NativeTypes.Proofs.Instance.Undefined
import NativeTypes.Proofs.Naming.Allocation
import NativeTypes.Proofs.Naming.Members
import NativeTypes.Proofs.Order.Edges
import NativeTypes.Proofs.Order.Loop
import NativeTypes.Proofs.Registry.History
import NativeTypes.Proofs.Resolver.Alike
import NativeTypes.Proofs.Resolver.Apart
import NativeTypes.Proofs.Resolver.ChainEnds
import NativeTypes.Proofs.Resolver.Confluent
import NativeTypes.Proofs.Resolver.Cycles
import NativeTypes.Proofs.Resolver.Decided
import NativeTypes.Proofs.Resolver.Deduplicated
import NativeTypes.Proofs.Resolver.References
import NativeTypes.Proofs.Resolver.Respelled
import NativeTypes.Proofs.Resolver.Returns
import NativeTypes.Proofs.Resolver.Sorting
import NativeTypes.Proofs.Snapshot.Divided
import NativeTypes.Proofs.Snapshot.Outcomes
import NativeTypes.Proofs.Source.Additions
import NativeTypes.Proofs.Source.Lookups
import NativeTypes.Proofs.TypeName.Keys
import NativeTypes.Proofs.Worker.Orderly
import NativeTypes.Proofs.Writer.EntryNames
import NativeTypes.Proofs.Writer.Packed
import NativeTypes.Proofs.Writer.Properties
import NativeTypes.Proofs.Writer.Steps
import NativeTypes.Proofs.Writer.UnionWidth
import NativeTypes.Registry
import NativeTypes.Resolver.Declare
import NativeTypes.Resolver.Define
import NativeTypes.Resolver.Layout
import NativeTypes.Resolver.State
import NativeTypes.Sexp.Form
import NativeTypes.Sexp.Reader
import NativeTypes.Shape
import NativeTypes.Snapshot
import NativeTypes.Source.Basic
import NativeTypes.Source.Catalog
import NativeTypes.Source.Router
import NativeTypes.Source.Session
import NativeTypes.Text.Letter
import NativeTypes.Text.Literal
import NativeTypes.Text.Printable
import NativeTypes.Text.Quoted
import NativeTypes.Text.Utf8
import NativeTypes.Text.Word
import NativeTypes.TypeName.Basic
import NativeTypes.TypeName.Builtin
import NativeTypes.TypeName.Parser
import NativeTypes.TypeName.Scanner
import NativeTypes.Worker.Machine
import NativeTypes.Worker.Source
import NativeTypes.Writer.Accessor
import NativeTypes.Writer.Basic
import NativeTypes.Writer.Ctypes
import NativeTypes.Writer.Declare
import NativeTypes.Writer.Emitter
