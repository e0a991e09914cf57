import Dvi.Main
import Dvi.Proofs.Elision
import Dvi.Proofs.Writer.Failure
import Dvi.Proofs.Ending
import Dvi.Proofs.Truncation
import Dvi.Proofs.Concatenation
import Dvi.Proofs.SourceFailure
import Dvi.Proofs.Writer.Attempts
import Dvi.Proofs.Cache
import Dvi.Proofs.Machine.Limited
import Dvi.Proofs.Machine.Frame
import Dvi.Proofs.Dump
import Dvi.Proofs.Pages
import Dvi.Proofs.Writer.Refusal
import Dvi.Proofs.Acceptance
import Dvi.Proofs.Writer.Shorthand
import Dvi.Proofs.Writer.Schedule
import Dvi.Proofs.Machine.History
import Dvi.Proofs.Machine.Axes
import Dvi.Proofs.Writer.Filler
import Dvi.Proofs.Lines
