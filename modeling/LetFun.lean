import LetFun.Main
import LetFun.Proofs.Command.Conversation
import LetFun.Proofs.Command.Disks
import LetFun.Proofs.Draft.Refusal
import LetFun.Proofs.Draft.Views
import LetFun.Proofs.Draft.Worklist
import LetFun.Proofs.Graph.Correspondence
import LetFun.Proofs.Lexer.Delivery
import LetFun.Proofs.Lexer.Invariant
import LetFun.Proofs.Lexer.MaximalMunch
import LetFun.Proofs.Lexer.Progress
import LetFun.Proofs.Parse.Aftermath
import LetFun.Proofs.Parse.Composition
import LetFun.Proofs.Parse.FirstFault
import LetFun.Proofs.Parse.Nesting
import LetFun.Proofs.Parse.Phrases
import LetFun.Proofs.Parse.Positions
import LetFun.Proofs.Table.Tokens
