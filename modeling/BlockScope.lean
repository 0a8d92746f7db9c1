import BlockScope.CommandLine.Run
import BlockScope.CommandLine.Standard
import BlockScope.Declarations
import BlockScope.Dump
import BlockScope.Error
import BlockScope.Log
import BlockScope.Main
import BlockScope.Object
import BlockScope.Proofs.Block.Balanced
import BlockScope.Proofs.Block.Chain
import BlockScope.Proofs.Block.Lookup
import BlockScope.Proofs.Block.Stack
import BlockScope.Proofs.CommandLine.Run
import BlockScope.Proofs.Declarations.Headings
import BlockScope.Proofs.Declarations.Insert
import BlockScope.Proofs.Declarations.Log
import BlockScope.Proofs.Declarations.Nesting
import BlockScope.Proofs.Declarations.Program
import BlockScope.Proofs.Declarations.Reference
import BlockScope.Proofs.Declarations.Release
import BlockScope.Proofs.Declarations.Walk
import BlockScope.Proofs.Dump.Heading
import BlockScope.Proofs.Dump.Lines
import BlockScope.Proofs.Dump.Nesting
import BlockScope.Proofs.Dump.Render
import BlockScope.Proofs.Dump.Text
import BlockScope.Proofs.Dump.Unambiguous
import BlockScope.Proofs.Dump.Walk
import BlockScope.Proofs.Names.Checks
import BlockScope.Proofs.Names.Distinct
import BlockScope.Proofs.Names.Interner
import BlockScope.Proofs.Names.Lookup
import BlockScope.Proofs.Names.Shadowing
import BlockScope.Proofs.Names.Visible
import BlockScope.Proofs.Ownership.Cycle
import BlockScope.Proofs.Ownership.Forest
import BlockScope.Proofs.Ownership.Frontier
import BlockScope.Proofs.Ownership.Holders
import BlockScope.Proofs.Ownership.Nested
import BlockScope.Proofs.Ownership.Orphan
import BlockScope.Proofs.Ownership.Path
import BlockScope.Proofs.Ownership.Release
import BlockScope.Proofs.Ownership.Sweep
import BlockScope.Proofs.Parameters.Home
import BlockScope.Proofs.Parameters.Index
import BlockScope.Proofs.Parameters.Interleaving
import BlockScope.Proofs.Predeclared.Sealed
import BlockScope.Proofs.Predeclared.Signature
import BlockScope.Proofs.Session.Answers
import BlockScope.Proofs.Session.Blind
import BlockScope.Proofs.Session.Bounds
import BlockScope.Proofs.Session.Continuity
import BlockScope.Proofs.Session.Discipline
import BlockScope.Proofs.Session.Growth
import BlockScope.Proofs.Session.LastRecord
import BlockScope.Proofs.Session.Numbering
import BlockScope.Proofs.Session.Orderly
import BlockScope.Proofs.Session.Reachable
import BlockScope.Proofs.Session.Recorded
import BlockScope.Proofs.Session.Refusal
import BlockScope.Proofs.Session.Transcript
import BlockScope.Proofs.Session.Transition
import BlockScope.Proofs.Table.Access
import BlockScope.Proofs.Table.Additions
import BlockScope.Proofs.Table.Initial
import BlockScope.Proofs.Table.Operations
import BlockScope.Proofs.Types.Agreement
import BlockScope.Release
import BlockScope.Session
import BlockScope.Table.Basic
import BlockScope.Table.Change
import BlockScope.Table.Create
import BlockScope.Table.Lookup
import BlockScope.Ty
