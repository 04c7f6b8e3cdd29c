import BrainfuckDialect.Opcode
import BrainfuckDialect.Log
import BrainfuckDialect.Conflict
import BrainfuckDialect.Symbol.Group
import BrainfuckDialect.Symbol.Table
import BrainfuckDialect.Dialect
import BrainfuckDialect.Text.Utf8
import BrainfuckDialect.Text.Blank
import BrainfuckDialect.Text.Lines
import BrainfuckDialect.Translate.Line
import BrainfuckDialect.Translate.Document
import BrainfuckDialect.Config.Error
import BrainfuckDialect.Config.Parse
import BrainfuckDialect.Host
import BrainfuckDialect.Workspace
import BrainfuckDialect.Session
import BrainfuckDialect.Job
import BrainfuckDialect.Cli.Switch
import BrainfuckDialect.Cli.Similarity
import BrainfuckDialect.Cli.Arguments
import BrainfuckDialect.Cli.Command
import BrainfuckDialect.Main
import BrainfuckDialect.Proofs.Lines
import BrainfuckDialect.Proofs.LineTranslation
import BrainfuckDialect.Proofs.DocumentTranslation
import BrainfuckDialect.Proofs.TableBuild
import BrainfuckDialect.Proofs.DialectTable
import BrainfuckDialect.Proofs.TableContents
import BrainfuckDialect.Proofs.StrictDialect
import BrainfuckDialect.Proofs.ConfigSettings
import BrainfuckDialect.Proofs.ConfigGrammar
import BrainfuckDialect.Proofs.ConfigErrors
import BrainfuckDialect.Proofs.Readback
import BrainfuckDialect.Proofs.FileJob
import BrainfuckDialect.Proofs.GroupOrder
import BrainfuckDialect.Proofs.DocumentText
import BrainfuckDialect.Proofs.DialectChange
import BrainfuckDialect.Proofs.FileWrite
import BrainfuckDialect.Proofs.SecondPass
