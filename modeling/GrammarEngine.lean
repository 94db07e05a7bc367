import GrammarEngine.Notation.Basic
import GrammarEngine.Proofs.Notation.Outcome
import GrammarEngine.Token.Outline
import GrammarEngine.Token.Place
import GrammarEngine.Proofs.Notation.Blanks
import GrammarEngine.Proofs.Notation.Literals
import GrammarEngine.Proofs.Notation.Meaning
import GrammarEngine.Proofs.Notation.Understanding
import GrammarEngine.Proofs.Influence
import GrammarEngine.Proofs.Soundness
import GrammarEngine.Proofs.Cursors
import GrammarEngine.Proofs.Twins
import GrammarEngine.Proofs.Notation.Bootstrap
import GrammarEngine.Proofs.Notation.Between
import GrammarEngine.Grammar.Session
import GrammarEngine.Proofs.Building
import GrammarEngine.Proofs.Overflow
import GrammarEngine.Proofs.Anchors
import GrammarEngine.Proofs.Notation.Derivation
import GrammarEngine.Proofs.Notation.Spelling
import GrammarEngine.Proofs.Notation.Accepting
import GrammarEngine.Proofs.Notation.Recovering
import GrammarEngine.Proofs.Notation.Reordering
import GrammarEngine.Proofs.Paths
import GrammarEngine.Proofs.Displacement
import GrammarEngine.Proofs.Renumbering
import GrammarEngine.Proofs.Notation.Culprits
import GrammarEngine.Proofs.Postorder
import GrammarEngine.Proofs.Notation.Scanning
import GrammarEngine.Proofs.Notation.Seams
import GrammarEngine.Proofs.Notation.Decoding
import GrammarEngine.Proofs.Complements
import GrammarEngine.Proofs.Outlines
import GrammarEngine.Proofs.Shortcut
import GrammarEngine.Proofs.Collapsing
import GrammarEngine.Proofs.Doubling
import GrammarEngine.Proofs.Lines
import GrammarEngine.Proofs.Notation.Safety
