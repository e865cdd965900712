import WordMachine.Main
import WordMachine.Proofs.AfterFault
import WordMachine.Proofs.Reachable
import WordMachine.Proofs.Refinement
import WordMachine.Proofs.Lines
import WordMachine.Proofs.Refill
import WordMachine.Proofs.Deliveries
import WordMachine.Proofs.InputLines
import WordMachine.Proofs.TwoRuns
import WordMachine.Proofs.Ending
import WordMachine.Proofs.Reports
import WordMachine.Proofs.Replay
import WordMachine.Proofs.Renaming
import WordMachine.Proofs.CallReturn
import WordMachine.Proofs.Recording
import WordMachine.Proofs.Conversation
import WordMachine.Proofs.Loading
import WordMachine.Proofs.Session
import WordMachine.Proofs.Terminators
import WordMachine.Proofs.ReadingBack
import WordMachine.Proofs.History
import WordMachine.Proofs.StraightLine
import WordMachine.Proofs.Truncation
import WordMachine.Proofs.Canonical
import WordMachine.Proofs.Flushes
import WordMachine.Proofs.Echo
import WordMachine.Proofs.InstructionLog
import WordMachine.Proofs.Rendering
import WordMachine.Proofs.SessionFiles
