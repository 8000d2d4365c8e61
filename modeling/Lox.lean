import Lox.Main
import Lox.Syntax.Outline
import Lox.Proofs.Evaluation.Forests
import Lox.Proofs.Scanning.Counting
import Lox.Proofs.Scanning.Rescanning
import Lox.Proofs.Scoping.Bracketing
import Lox.Proofs.Scoping.Lexical
import Lox.Proofs.Scoping.Renaming
import Lox.Proofs.Scoping.UnusedOrder
import Lox.Proofs.Session.Construction
import Lox.Proofs.Session.Depth
import Lox.Proofs.Session.Diagnostics
import Lox.Proofs.Session.Echoing
import Lox.Proofs.Session.Faults
import Lox.Proofs.Session.Filling
import Lox.Proofs.Session.Identities
import Lox.Proofs.Session.Limits
import Lox.Proofs.Session.Loops
import Lox.Proofs.Session.Methods
import Lox.Proofs.Session.Pieces
import Lox.Proofs.Session.Programs
import Lox.Proofs.Session.Rendering
import Lox.Proofs.Syntax.Blocks
import Lox.Proofs.Syntax.ErrorOrder
import Lox.Proofs.Syntax.TopLevel
