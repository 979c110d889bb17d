import Colloquy.Main
import Colloquy.Proofs.Engine.Noninterference
import Colloquy.Proofs.Engine.Slate
import Colloquy.Proofs.Grammar.Reindentation
import Colloquy.Proofs.Grammar.Folding
import Colloquy.Proofs.Grammar.Synonyms
import Colloquy.Proofs.Grammar.Comparing
import Colloquy.Proofs.Grammar.Calling
import Colloquy.Proofs.Engine.Iteration
import Colloquy.Proofs.Machine.Sequencing
import Colloquy.Proofs.Engine.CallDepth
import Colloquy.Proofs.Engine.Termination
import Colloquy.Proofs.Engine.Globals
import Colloquy.Proofs.Registry
import Colloquy.Proofs.Token.LineEndings
import Colloquy.Proofs.Token.Resumption
import Colloquy.Proofs.Engine.Pacing
import Colloquy.Proofs.Grammar.Recovery
import Colloquy.Proofs.Decimal.ReadBack
