import BitcodeReplay.Archive
import BitcodeReplay.Compiler
import BitcodeReplay.DanglingLinks
import BitcodeReplay.Digest
import BitcodeReplay.Execution.Launch
import BitcodeReplay.Execution.Outcome
import BitcodeReplay.Execution.Replay
import BitcodeReplay.FileTree.Basic
import BitcodeReplay.FileTree.Edit
import BitcodeReplay.FileTree.Resolve
import BitcodeReplay.Fixture.Archive
import BitcodeReplay.Fixture.Log
import BitcodeReplay.Fixture.Snapshot
import BitcodeReplay.Fixture.Toolchain
import BitcodeReplay.Graph.Basic
import BitcodeReplay.Graph.Build
import BitcodeReplay.Graph.Dot
import BitcodeReplay.Host
import BitcodeReplay.Invocation
import BitcodeReplay.Json.Basic
import BitcodeReplay.Json.Draft
import BitcodeReplay.Json.Printer
import BitcodeReplay.Json.Record
import BitcodeReplay.Main
import BitcodeReplay.Numeric.Binary64
import BitcodeReplay.Numeric.Elementary
import BitcodeReplay.Numeric.Generator
import BitcodeReplay.Numeric.Notation
import BitcodeReplay.Numeric.Reading
import BitcodeReplay.OutputFileMap
import BitcodeReplay.Path
import BitcodeReplay.Pif.BuildPhase
import BitcodeReplay.Pif.Cache
import BitcodeReplay.Pif.Guid
import BitcodeReplay.Pif.Load
import BitcodeReplay.Pif.Project
import BitcodeReplay.Pif.Reference
import BitcodeReplay.Pif.Target
import BitcodeReplay.Pipeline
import BitcodeReplay.Plan
import BitcodeReplay.ProductTree.Basic
import BitcodeReplay.ProductTree.Consolidate
import BitcodeReplay.Program
import BitcodeReplay.Proofs.DanglingLinks.Clear
import BitcodeReplay.Proofs.DanglingLinks.Ways
import BitcodeReplay.Proofs.FileTree.Around
import BitcodeReplay.Proofs.FileTree.Directory
import BitcodeReplay.Proofs.FileTree.Edit
import BitcodeReplay.Proofs.FileTree.Local
import BitcodeReplay.Proofs.FileTree.Lookup
import BitcodeReplay.Proofs.FileTree.Making
import BitcodeReplay.Proofs.FileTree.Proper
import BitcodeReplay.Proofs.FileTree.Resolve
import BitcodeReplay.Proofs.FileTree.Walk
import BitcodeReplay.Proofs.Fixture.Log
import BitcodeReplay.Proofs.Fixture.Recipe
import BitcodeReplay.Proofs.Fixture.Snapshot
import BitcodeReplay.Proofs.Graph.Build
import BitcodeReplay.Proofs.Graph.Chain
import BitcodeReplay.Proofs.Graph.Dot
import BitcodeReplay.Proofs.Graph.Links
import BitcodeReplay.Proofs.Graph.Operations
import BitcodeReplay.Proofs.Graph.RootOrder
import BitcodeReplay.Proofs.Graph.WellFormed
import BitcodeReplay.Proofs.Invocation
import BitcodeReplay.Proofs.Invocation.Arguments
import BitcodeReplay.Proofs.Invocation.Program
import BitcodeReplay.Proofs.Json.Record
import BitcodeReplay.Proofs.Json.RoundTrip
import BitcodeReplay.Proofs.Pif.Agreement
import BitcodeReplay.Proofs.Pif.Frameworks
import BitcodeReplay.Proofs.Pif.Load
import BitcodeReplay.Proofs.Pif.Resolution
import BitcodeReplay.Proofs.Pif.Unmodelled
import BitcodeReplay.Proofs.Pipeline.Confinement
import BitcodeReplay.Proofs.Pipeline.DryRun
import BitcodeReplay.Proofs.Plan.Confluence
import BitcodeReplay.Proofs.Plan.Directories
import BitcodeReplay.Proofs.Plan.Partition
import BitcodeReplay.Proofs.Plan.Precedence
import BitcodeReplay.Proofs.Plan.Products
import BitcodeReplay.Proofs.Plan.Visits
import BitcodeReplay.Proofs.ProductTree.Consolidate
import BitcodeReplay.Proofs.ProductTree.Copies
import BitcodeReplay.Proofs.ProductTree.Merge
import BitcodeReplay.Proofs.ProductTree.Moves
import BitcodeReplay.Proofs.ProductTree.Order
import BitcodeReplay.Proofs.ProductTree.Shorten
import BitcodeReplay.Proofs.ProductTree.Sources
import BitcodeReplay.Proofs.ProductTree.Standing
import BitcodeReplay.Proofs.ProductTree.Within
import BitcodeReplay.Proofs.Replay.Bounds
import BitcodeReplay.Proofs.Replay.Harvest
import BitcodeReplay.Proofs.Replay.Interleaving
import BitcodeReplay.Proofs.Replay.Job
import BitcodeReplay.Proofs.Replay.Local
import BitcodeReplay.Proofs.Replay.Name
import BitcodeReplay.Proofs.Replay.Schedule
import BitcodeReplay.Proofs.Text.Reading
import BitcodeReplay.Proofs.Text.Utf8
import BitcodeReplay.Proofs.Transcript.Merge
import BitcodeReplay.Proofs.Transcript.Reading
import BitcodeReplay.Proofs.Traversal.Discovery
import BitcodeReplay.Replay.Crew
import BitcodeReplay.Replay.Harvest
import BitcodeReplay.Replay.Job
import BitcodeReplay.Replay.Schedule
import BitcodeReplay.Shell.Arithmetic
import BitcodeReplay.Shell.Builtin
import BitcodeReplay.Shell.Builtin.Flow
import BitcodeReplay.Shell.Builtin.Jobs
import BitcodeReplay.Shell.Builtin.Names
import BitcodeReplay.Shell.Builtin.Places
import BitcodeReplay.Shell.Builtin.Programs
import BitcodeReplay.Shell.Builtin.Traps
import BitcodeReplay.Shell.Builtin.Variables
import BitcodeReplay.Shell.Condition
import BitcodeReplay.Shell.Course
import BitcodeReplay.Shell.Field
import BitcodeReplay.Shell.Fork
import BitcodeReplay.Shell.Format
import BitcodeReplay.Shell.Image
import BitcodeReplay.Shell.Kernel
import BitcodeReplay.Shell.Opening
import BitcodeReplay.Shell.OptionWords
import BitcodeReplay.Shell.Pattern
import BitcodeReplay.Shell.Permissions
import BitcodeReplay.Shell.Reader.Cursor
import BitcodeReplay.Shell.Reader.Grammar
import BitcodeReplay.Shell.Run
import BitcodeReplay.Shell.Script
import BitcodeReplay.Shell.Session
import BitcodeReplay.Shell.Signal
import BitcodeReplay.Shell.World
import BitcodeReplay.Text.Bracket
import BitcodeReplay.Text.Difference
import BitcodeReplay.Text.Lines
import BitcodeReplay.Text.Regex
import BitcodeReplay.Text.RegexSyntax
import BitcodeReplay.Text.Search
import BitcodeReplay.Text.ShellWords
import BitcodeReplay.Text.Utf8
import BitcodeReplay.Tool.Awk.Evaluate
import BitcodeReplay.Tool.Awk.Machine
import BitcodeReplay.Tool.Awk.Pattern
import BitcodeReplay.Tool.Awk.Reader
import BitcodeReplay.Tool.Awk.Record
import BitcodeReplay.Tool.Awk.Run
import BitcodeReplay.Tool.Awk.Syntax
import BitcodeReplay.Tool.Awk.Table
import BitcodeReplay.Tool.Awk.Token
import BitcodeReplay.Tool.Awk.Value
import BitcodeReplay.Tool.Basic
import BitcodeReplay.Tool.Blocks
import BitcodeReplay.Tool.Columns
import BitcodeReplay.Tool.Compare
import BitcodeReplay.Tool.Copying
import BitcodeReplay.Tool.Counting
import BitcodeReplay.Tool.Diff.Layout
import BitcodeReplay.Tool.Diff.Run
import BitcodeReplay.Tool.Diff.Sides
import BitcodeReplay.Tool.Digest
import BitcodeReplay.Tool.Directory
import BitcodeReplay.Tool.Dump
import BitcodeReplay.Tool.Encoding
import BitcodeReplay.Tool.Entry
import BitcodeReplay.Tool.Expr
import BitcodeReplay.Tool.Find
import BitcodeReplay.Tool.Grep
import BitcodeReplay.Tool.Identity
import BitcodeReplay.Tool.Making
import BitcodeReplay.Tool.Modes
import BitcodeReplay.Tool.Moment
import BitcodeReplay.Tool.Options
import BitcodeReplay.Tool.Ordering
import BitcodeReplay.Tool.Pairing
import BitcodeReplay.Tool.Paths
import BitcodeReplay.Tool.Plain
import BitcodeReplay.Tool.Removing
import BitcodeReplay.Tool.Sed.Editor
import BitcodeReplay.Tool.Sed.Reader
import BitcodeReplay.Tool.Sed.Run
import BitcodeReplay.Tool.Sed.Script
import BitcodeReplay.Tool.Splitting
import BitcodeReplay.Tool.Starting
import BitcodeReplay.Tool.Status
import BitcodeReplay.Tool.Table
import BitcodeReplay.Tool.Transfer
import BitcodeReplay.Tool.Version
import BitcodeReplay.Transcript.Basic
import BitcodeReplay.Transcript.Load
import BitcodeReplay.Traversal
import BitcodeReplay.Usage
