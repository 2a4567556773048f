import ContestTests.Candidate
import ContestTests.Command.Arguments
import ContestTests.Command.Environment
import ContestTests.Command.Report
import ContestTests.Command.Run
import ContestTests.Conversion
import ContestTests.Definition
import ContestTests.Detection
import ContestTests.Failure
import ContestTests.Json
import ContestTests.Library
import ContestTests.Main
import ContestTests.Proofs.Command.ExitCodes
import ContestTests.Proofs.Command.Persistence
import ContestTests.Proofs.Command.Prompt
import ContestTests.Proofs.Conversion.Clearing
import ContestTests.Proofs.Conversion.InputsAlone
import ContestTests.Proofs.Conversion.Rereading
import ContestTests.Proofs.Definition.Writing
import ContestTests.Proofs.Detection.Mismatch
import ContestTests.Proofs.Detection.Pairing
import ContestTests.Proofs.Detection.Relisting
import ContestTests.Proofs.Library.Loading
import ContestTests.Proofs.Record.Marks
import ContestTests.Proofs.Settings.LegacyChars
import ContestTests.Proofs.Task.Partition
import ContestTests.Proofs.Template.FixedName
import ContestTests.Proofs.Template.Grammar
import ContestTests.Proofs.Template.LetterCase
import ContestTests.Proofs.Template.Places
import ContestTests.Proofs.Tree.Components
import ContestTests.Record
import ContestTests.Regex.Reader
import ContestTests.Selection
import ContestTests.Settings
import ContestTests.Task
import ContestTests.Template.Pattern
import ContestTests.Text.Lower
import ContestTests.Toml.Writer
import ContestTests.Tree.Files
