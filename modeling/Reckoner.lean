import Reckoner.Main
import Reckoner.Web.Server
import Reckoner.Proofs.Tokenization
import Reckoner.Proofs.Printing
import Reckoner.Proofs.Discipline
import Reckoner.Proofs.Poison
import Reckoner.Proofs.Agreement
import Reckoner.Proofs.Location
import Reckoner.Proofs.Dialogue
import Reckoner.Proofs.Lettering
import Reckoner.Proofs.Relocation
import Reckoner.Proofs.Rendering
import Reckoner.Proofs.Coordinates
import Reckoner.Proofs.Rounding
import Reckoner.Proofs.Shortest
import Reckoner.Proofs.Numerals
import Reckoner.Proofs.Quoting
import Reckoner.Proofs.Nesting
import Reckoner.Proofs.Stream
import Reckoner.Proofs.Joining
import Reckoner.Proofs.Normalizing
import Reckoner.Proofs.Expansion
import Reckoner.Proofs.Counting
import Reckoner.Proofs.Verdict
import Reckoner.Proofs.Progress
import Reckoner.Proofs.Accounting
import Reckoner.Proofs.Sequence
import Reckoner.Proofs.Closing
import Reckoner.Proofs.Leftover
import Reckoner.Proofs.Lookup
import Reckoner.Proofs.Sources
import Reckoner.Proofs.Respelling
import Reckoner.Proofs.Denotation
import Reckoner.Proofs.Truncation
import Reckoner.Proofs.Detours
import Reckoner.Proofs.Addressing
import Reckoner.Proofs.Markup
import Reckoner.Proofs.Submission
