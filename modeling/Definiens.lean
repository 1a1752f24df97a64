import Definiens.Grammar.Trace
import Definiens.Grammar.Silence
import Definiens.Main
import Definiens.Proofs.Grammar.Reader
import Definiens.Proofs.Token.Items
import Definiens.Proofs.Grammar.Outcomes
import Definiens.Proofs.Grammar.Alike
import Definiens.Proofs.Grammar.Refinement
import Definiens.Proofs.Grammar.Allowance
import Definiens.Proofs.Grammar.Equations
import Definiens.Proofs.Grammar.Written
import Definiens.Proofs.Grammar.Matches
import Definiens.Proofs.Grammar.Completeness
import Definiens.Proofs.Grammar.Soundness
import Definiens.Proofs.Grammar.Whole
import Definiens.Proofs.Grammar.Refusal
import Definiens.Proofs.Grammar.Productions
import Definiens.Proofs.Grammar.Derivation
import Definiens.Proofs.Grammar.Productivity
import Definiens.Proofs.Grammar.Viability
import Definiens.Proofs.Grammar.Exactness
import Definiens.Proofs.Grammar.Offence
import Definiens.Proofs.Cursor.Bounds
import Definiens.Proofs.Grammar.Moments
import Definiens.Proofs.Grammar.Calls
import Definiens.Proofs.Grammar.Aftermath
import Definiens.Proofs.Grammar.LeftFactoring
import Definiens.Proofs.Grammar.Telling
import Definiens.Proofs.Cursor.Delivery
import Definiens.Proofs.Cursor.Plain
import Definiens.Proofs.Cursor.Excursion
import Definiens.Proofs.Text.Runs
import Definiens.Proofs.Text.Legibility
import Definiens.Proofs.Text.Quoting
import Definiens.Proofs.Text.Unquoting
import Definiens.Proofs.Text.Slices
import Definiens.Proofs.Token.Lexing
import Definiens.Proofs.Token.Tiling
import Definiens.Proofs.Token.Failure
import Definiens.Proofs.Token.Classes
import Definiens.Proofs.Token.Respacing
import Definiens.Proofs.Token.Joining
import Definiens.Proofs.Grammar.Anchors
import Definiens.Proofs.Grammar.Scopes
import Definiens.Proofs.Graph.Paths
import Definiens.Proofs.Graph.Edges
import Definiens.Proofs.Graph.Drawing
import Definiens.Proofs.Graph.Readback
import Definiens.Proofs.Graph.Shape
import Definiens.Proofs.Graph.Recovery
import Definiens.Proofs.Command.Agreement
import Definiens.Proofs.Grammar.Renaming
import Definiens.Proofs.Grammar.Variables
import Definiens.Proofs.Grammar.Course
import Definiens.Proofs.Grammar.Descending
import Definiens.Proofs.Grammar.Replay
import Definiens.Proofs.Grammar.Nesting
import Definiens.Proofs.Grammar.Ending
import Definiens.Proofs.Grammar.Lookahead
import Definiens.Proofs.Grammar.TermLists
import Definiens.Proofs.Token.Pulls
import Definiens.Proofs.Token.Bounds
import Definiens.Proofs.Grammar.Orderly
import Definiens.Proofs.Token.Display
import Definiens.Proofs.Command.Lines
