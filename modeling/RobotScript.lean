import RobotScript.Word
import RobotScript.Decimal
import RobotScript.Token
import RobotScript.Token.Scan
import RobotScript.Token.Stream
import RobotScript.Tree
import RobotScript.Tree.Render
import RobotScript.Error
import RobotScript.Grammar.Fault
import RobotScript.Grammar.Reader
import RobotScript.Grammar.Production
import RobotScript.Parser
import RobotScript.Reading
import RobotScript.Source
import RobotScript.Json
import RobotScript.Json.Write
import RobotScript.Json.Read
import RobotScript.Form
import RobotScript.Form.Tree
import RobotScript.Form.Token
import RobotScript.Store
import RobotScript.Form.Store
import RobotScript.Limits
import RobotScript.Signal
import RobotScript.Robot
import RobotScript.Robot.Scripted
import RobotScript.Trace
import RobotScript.Run
import RobotScript.Answer
import RobotScript.Store.Request
import RobotScript.Evaluator
import RobotScript.Session
import RobotScript.Proofs.Derivation
import RobotScript.Proofs.Soundness
import RobotScript.Proofs.Completeness
import RobotScript.Proofs.Lookahead
import RobotScript.Proofs.Entry
import RobotScript.Proofs.Parser
import RobotScript.Proofs.Decimal
import RobotScript.Proofs.Kind
import RobotScript.Proofs.Classification
import RobotScript.Proofs.RoundTrip
import RobotScript.Proofs.Tree
import RobotScript.Proofs.Eval
import RobotScript.Proofs.Path
import RobotScript.Proofs.Rounds
import RobotScript.Proofs.Budget
import RobotScript.Proofs.Cutoff
import RobotScript.Proofs.Truncation
import RobotScript.Proofs.Store
import RobotScript.Proofs.Course
import RobotScript.Proofs.Journal
import RobotScript.Proofs.Stop
import RobotScript.Proofs.Agreement
import RobotScript.Proofs.Division
import RobotScript.Proofs.Concatenation
import RobotScript.Descent
import RobotScript.Proofs.Descent
import RobotScript.Proofs.Faults
import RobotScript.Proofs.Json
import RobotScript.Proofs.Scanner
import RobotScript.Proofs.Nesting
import RobotScript.Proofs.Form
import RobotScript.Proofs.DeadElse
import RobotScript.Proofs.Queries
import RobotScript.Proofs.Frame
import RobotScript.Proofs.Extension
import RobotScript.Proofs.Arithmetic
import RobotScript.Proofs.Legible
import RobotScript.Proofs.Holders
import RobotScript.Proofs.Numeral
import RobotScript.Proofs.History
import RobotScript.Proofs.Sharing
