import ScriptEngine.Engine.Picture
import ScriptEngine.Proofs.Check.Agreement
import ScriptEngine.Proofs.Engine.Control
import ScriptEngine.Proofs.Engine.Faults
import ScriptEngine.Proofs.Engine.Heap
import ScriptEngine.Proofs.Engine.Conflicts
import ScriptEngine.Proofs.Engine.History
import ScriptEngine.Proofs.Engine.Hoisted
import ScriptEngine.Proofs.Engine.Redeclaration
import ScriptEngine.Proofs.Grammar.Reading
import ScriptEngine.Proofs.Grammar.First
import ScriptEngine.Proofs.Grammar.Lexemes
import ScriptEngine.Proofs.Grammar.Brackets
import ScriptEngine.Proofs.Grammar.Nesting
import ScriptEngine.Proofs.Grammar.Derivation
import ScriptEngine.Proofs.Grammar.SoleLiteral
import ScriptEngine.Proofs.Tree.StringLiterals
import ScriptEngine.Proofs.Tree.Directives
import ScriptEngine.Proofs.Tree.Marked
import ScriptEngine.Proofs.Tree.Strictness
import ScriptEngine.Proofs.Engine.StrictMode
import ScriptEngine.Proofs.Engine.Chains
import ScriptEngine.Proofs.Engine.Lasting
import ScriptEngine.Proofs.Engine.StrictWrites
import ScriptEngine.Proofs.Engine.Termination
import ScriptEngine.Proofs.Tree.Precedence
import ScriptEngine.Proofs.Tree.RoundTrip
import ScriptEngine.Proofs.Store.Validation
import ScriptEngine.Proofs.Store.Written
import ScriptEngine.Proofs.Engine.ReadBack
import ScriptEngine.Proofs.Evaluation.KeyLoops
import ScriptEngine.Proofs.Evaluation.Lists
import ScriptEngine.Proofs.Evaluation.LoopForms
import ScriptEngine.Proofs.Evaluation.Jumps
import ScriptEngine.Proofs.Evaluation.LetLoops
import ScriptEngine.Proofs.Engine.LetLoops
import ScriptEngine.Proofs.Engine.Propagation
import ScriptEngine.Proofs.Engine.AtOnce
import ScriptEngine.Proofs.Grammar.Spelling
import ScriptEngine.Proofs.Tree.Fit
import ScriptEngine.Proofs.Evaluation.CompoundAssignment
import ScriptEngine.Proofs.Engine.StringObjects
import ScriptEngine.Proofs.Tree.NumericLiterals
import ScriptEngine.Proofs.Engine.ObjectLiterals
import ScriptEngine.Proofs.Tree.Escapes
import ScriptEngine.Proofs.Grammar.Keywords
import ScriptEngine.Proofs.Library.Joining
import ScriptEngine.Proofs.Check.Ordered
import ScriptEngine.Proofs.Grammar.StatementEnds
import ScriptEngine.Proofs.Evaluation.LooseEquality
import ScriptEngine.Proofs.Library.Forwarding
import ScriptEngine.Proofs.Library.Pushing
import ScriptEngine.Proofs.Engine.Errors
import ScriptEngine.Proofs.Evaluation.StringOrder
import ScriptEngine.Proofs.Grammar.Identifiers
