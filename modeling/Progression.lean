import Progression.Config.Reader
import Progression.Source
import Progression.Proofs.Agreement
import Progression.Proofs.Configuring
import Progression.Proofs.Counting
import Progression.Proofs.DeadEnds
import Progression.Proofs.Decoding
import Progression.Proofs.Discovery
import Progression.Proofs.Enlisting
import Progression.Proofs.Exempting
import Progression.Proofs.GivenNames
import Progression.Proofs.Grammar
import Progression.Proofs.Grounding
import Progression.Proofs.Interchanging
import Progression.Proofs.Meaning
import Progression.Proofs.Monotonicity
import Progression.Proofs.Placing
import Progression.Proofs.Reflattening
import Progression.Proofs.Repetitions
import Progression.Proofs.Reporting
import Progression.Proofs.Rounds
import Progression.Proofs.Tallying
import Progression.Proofs.Union
import Progression.Proofs.Vocabulary
import Progression.Proofs.Writing
