import ScriptLang.Main
import ScriptLang.Token.Cursor
import ScriptLang.Value.Equality
import ScriptLang.Proofs.Parser.Invariants
import ScriptLang.Proofs.Grammar.Basic
import ScriptLang.Proofs.Parser.Allowance
import ScriptLang.Proofs.Parser.Cases
import ScriptLang.Proofs.Parser.Soundness
import ScriptLang.Proofs.Parser.Completeness
import ScriptLang.Proofs.Parser.Exactness
import ScriptLang.Proofs.Evaluation.Invariants
import ScriptLang.Proofs.Evaluation.Signals
import ScriptLang.Proofs.Printer.Tokens
import ScriptLang.Proofs.Printer.Rereading
import ScriptLang.Proofs.Parser.Braces
import ScriptLang.Proofs.Parser.Recovery
import ScriptLang.Proofs.Parser.Accounting
import ScriptLang.Proofs.Evaluation.Writes
import ScriptLang.Proofs.Evaluation.Scoping
import ScriptLang.Proofs.Parser.Confinement
import ScriptLang.Proofs.Parser.Separation
import ScriptLang.Proofs.Evaluation.Contexts
import ScriptLang.Proofs.Evaluation.Lockstep
import ScriptLang.Proofs.Evaluation.Depth
import ScriptLang.Proofs.Token.Joining
import ScriptLang.Proofs.Grammar.Extension
import ScriptLang.Proofs.Session.Splitting
import ScriptLang.Proofs.Value.Names
import ScriptLang.Proofs.Evaluation.Unmentioned
import ScriptLang.Proofs.Printer.Lists
import ScriptLang.Proofs.Printer.Spelling
import ScriptLang.Proofs.Token.Lexemes
import ScriptLang.Proofs.Token.Gaps
import ScriptLang.Proofs.Session.Failures
import ScriptLang.Proofs.Store.Chains
import ScriptLang.Proofs.Programs.Reduction
import ScriptLang.Proofs.Evaluation.Lasting
import ScriptLang.Proofs.Token.Cursors
import ScriptLang.Proofs.Evaluation.Filing
import ScriptLang.Proofs.Store.Ancestry
import ScriptLang.Proofs.Console.Lines
import ScriptLang.Proofs.Console.Modes
import ScriptLang.Proofs.Store.Log
import ScriptLang.Proofs.Value.Slots
import ScriptLang.Proofs.Value.Sameness
import ScriptLang.Proofs.Value.InsertionOrder
import ScriptLang.Proofs.Evaluation.Literals
import ScriptLang.Proofs.Evaluation.Arithmetic
import ScriptLang.Proofs.Session.Numerals
import ScriptLang.Proofs.Parser.Progress
import ScriptLang.Proofs.Value.Outlines
import ScriptLang.Proofs.Evaluation.Functions
import ScriptLang.Proofs.Console.Listings
import ScriptLang.Proofs.Parser.Concatenation
import ScriptLang.Proofs.Store.Founded
import ScriptLang.Proofs.Evaluation.Settling
import ScriptLang.Proofs.Printer.Unambiguity
import ScriptLang.Proofs.Parser.Counters
import ScriptLang.Proofs.Parser.Leaves
