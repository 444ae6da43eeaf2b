import Ringtone.CommandLine.Grammar
import Ringtone.CommandLine.Help
import Ringtone.CommandLine.Reader
import Ringtone.CommandLine.Wrap
import Ringtone.Commands
import Ringtone.Composer
import Ringtone.Duration
import Ringtone.Fault
import Ringtone.Files.Fault
import Ringtone.Files.Path
import Ringtone.Files.Tree
import Ringtone.Frequency
import Ringtone.Json.Printer
import Ringtone.Json.Reader
import Ringtone.Json.Token
import Ringtone.Main
import Ringtone.Note
import Ringtone.Note.Fault
import Ringtone.Number.Binary64
import Ringtone.Number.Decimal
import Ringtone.Number.Numeral
import Ringtone.Number.PowerOfTwo
import Ringtone.Number.Quantity
import Ringtone.Number.Rounding
import Ringtone.Pitch
import Ringtone.Places
import Ringtone.Platform
import Ringtone.Score
import Ringtone.Session
import Ringtone.Settings
import Ringtone.Sound.Header
import Ringtone.Sound.Pcm
import Ringtone.Sound.Rendering
import Ringtone.Sound.Wav
import Ringtone.Sound.Wave
import Ringtone.Text.Blank
import Ringtone.Text.Digit
import Ringtone.Text.Points
import Ringtone.Text.Printable
import Ringtone.Text.Quoted
import Ringtone.Text.Utf8
import Ringtone.Value
import Ringtone.Proofs.Range
import Ringtone.Proofs.Points
import Ringtone.Proofs.Obstacles
import Ringtone.Proofs.Frequency
import Ringtone.Proofs.Numerals
import Ringtone.Proofs.NoteGrammar
import Ringtone.Proofs.Traversal
import Ringtone.Proofs.Duration
import Ringtone.Proofs.Compilation
import Ringtone.Proofs.Timing
import Ringtone.Proofs.Decimals
import Ringtone.Proofs.JsonNumbers
import Ringtone.Proofs.Members
import Ringtone.Proofs.JsonStrings
import Ringtone.Proofs.JsonReading
import Ringtone.Proofs.JsonRoundTrip
import Ringtone.Proofs.Overlay
import Ringtone.Proofs.FileTree
import Ringtone.Proofs.Sessions
import Ringtone.Proofs.Utf8
import Ringtone.Proofs.SettingsFile
import Ringtone.Proofs.ScoreRendering
import Ringtone.Proofs.WavFiles
import Ringtone.Proofs.SilentFaults
import Ringtone.Proofs.CommandRuns
import Ringtone.Proofs.RenderRuns
import Ringtone.Proofs.RenderFaults
import Ringtone.Proofs.Tokens
import Ringtone.Proofs.ComposerRuns
import Ringtone.Proofs.SettingsSections
import Ringtone.Proofs.FrequencyRuns
import Ringtone.Proofs.Separation
import Ringtone.Proofs.WavReading
import Ringtone.Proofs.NoteLengths
import Ringtone.Proofs.Lag
import Ringtone.Proofs.RenderDecisions
import Ringtone.Proofs.LengthOutcomes
import Ringtone.Proofs.LostMilliseconds
import Ringtone.Proofs.CommandLines
import Ringtone.Proofs.SettingsInForce
import Ringtone.Proofs.RestRuns
import Ringtone.Proofs.FractionalPowers
import Ringtone.Proofs.ScoreLayout
import Ringtone.Proofs.EqualTemperament
import Ringtone.Proofs.Octaves
import Ringtone.Proofs.FreshPaths
import Ringtone.Proofs.Quantisation
import Ringtone.Proofs.ToneListings
import Ringtone.Proofs.SettingsAtRest
import Ringtone.Proofs.AddedFiles
import Ringtone.Proofs.FreshRenders
import Ringtone.Proofs.SampleCounts
import Ringtone.Proofs.MachineFloats
import Ringtone.Proofs.ExactWaves
import Ringtone.Proofs.FullScale
import Ringtone.Proofs.Ramps
import Ringtone.Proofs.Fades
