import Script.Parser
import Script.Proofs.Layout
import Script.Proofs.Phrase.Running
import Script.Tree.Equality
import Script.Tree.Render
import Script.Proofs.Layout.Reading
import Script.Proofs.Program
import Script.Proofs.Layout.Parsing
import Script.Proofs.Rendering
import Script.Proofs.Phrase.Inversion
import Script.Proofs.Yield
import Script.Proofs.Chain
import Script.Proofs.Chain.Reading
import Script.Proofs.Chain.Parsing
import Script.Proofs.Termination
import Script.Proofs.Resumption
import Script.Proofs.Order
import Script.Proofs.Lookahead
import Script.Proofs.Agreement.Reading
import Script.Proofs.Nesting
import Script.Proofs.Height
import Script.Proofs.Concatenation
import Script.Proofs.Relexing
import Script.Proofs.Volume
import Script.Proofs.Resynchronization
import Script.Proofs.Faithfulness
import Script.Proofs.Limit
import Script.Proofs.Machine
import Script.Proofs.Machine.Work
import Script.Proofs.Machine.Reading
import Script.Proofs.Machine.Run
import Script.Proofs.Greed
import Script.Proofs.Conservation
import Script.Proofs.Cursor.Run
