import ExternalParser.Main
import ExternalParser.Tree.Materialize
import ExternalParser.Script
import ExternalParser.Simulation.Machine
import ExternalParser.Proofs.Text.Encoding
import ExternalParser.Proofs.Text.Trim
import ExternalParser.Proofs.Text.Slice
import ExternalParser.Proofs.Grammar.Origin
import ExternalParser.Proofs.Grammar.Tables
import ExternalParser.Proofs.Grammar.Entries
import ExternalParser.Proofs.Json.Tokens
import ExternalParser.Proofs.Json.Reading
import ExternalParser.Proofs.Json.Spelling
import ExternalParser.Proofs.Json.Compact
import ExternalParser.Proofs.Grammar.Routes
import ExternalParser.Proofs.Grammar.Validity
import ExternalParser.Proofs.Config.Reading
import ExternalParser.Proofs.Record.Forest
import ExternalParser.Proofs.Record.Places
import ExternalParser.Proofs.Record.Assembly
import ExternalParser.Proofs.Record.Extension
import ExternalParser.Proofs.Record.RoundTrip
import ExternalParser.Proofs.Tree.Acceptance
import ExternalParser.Proofs.Tree.ReadBack
import ExternalParser.Proofs.Tree.Links
import ExternalParser.Proofs.Tree.Spans
import ExternalParser.Proofs.Tree.Texts
import ExternalParser.Proofs.Tree.Tokens
import ExternalParser.Proofs.Tree.Cover
import ExternalParser.Proofs.Tree.Materialize
import ExternalParser.Proofs.Tree.Reassembly
import ExternalParser.Proofs.Report.Classification
import ExternalParser.Proofs.Dialogue.Plays
import ExternalParser.Proofs.Availability.Check
import ExternalParser.Proofs.Availability.Interleaving
import ExternalParser.Proofs.Availability.Sequential
import ExternalParser.Proofs.Availability.Settling
import ExternalParser.Proofs.Client.History
import ExternalParser.Proofs.Client.Parse
import ExternalParser.Proofs.Client.Statements
import ExternalParser.Proofs.Client.Cancellation
import ExternalParser.Proofs.Client.Scheduling
import ExternalParser.Proofs.Client.Script
import ExternalParser.Proofs.Availability.Outcome
import ExternalParser.Proofs.Grammar.Wrapping
import ExternalParser.Proofs.Tree.Offsets
import ExternalParser.Proofs.Tree.Lines
import ExternalParser.Proofs.Tree.Blame
import ExternalParser.Proofs.Tree.Descent
import ExternalParser.Proofs.Tree.Leaves
import ExternalParser.Proofs.Tree.Position
import ExternalParser.Proofs.Tree.Selection
import ExternalParser.Proofs.Json.Legality
import ExternalParser.Proofs.Record.Description
import ExternalParser.Proofs.Grammar.Cuts
import ExternalParser.Proofs.Tree.Places
import ExternalParser.Proofs.CommandLine.Export
import ExternalParser.Proofs.CommandLine.Drawing
import ExternalParser.Proofs.Supervision.Course
import ExternalParser.Proofs.Path.Components
import ExternalParser.Proofs.Config.Paths
import ExternalParser.Proofs.CommandLine.Preview
import ExternalParser.Proofs.Simulation.Shell
import ExternalParser.Proofs.Simulation.Machine
