import ExprLang.FileTree
import ExprLang.Main
import ExprLang.Proofs.Accounts
import ExprLang.Proofs.EarliestReport
import ExprLang.Proofs.LexicalFailure
import ExprLang.Proofs.Lossless
import ExprLang.Proofs.OnDemand
import ExprLang.Proofs.Precedence
import ExprLang.Proofs.Writing
import ExprLang.Proofs.WholeReading
import ExprLang.Proofs.Truncation
import ExprLang.Proofs.Correspondence
import ExprLang.Proofs.Shift
import ExprLang.Proofs.TokenClasses
import ExprLang.Proofs.Concatenation
import ExprLang.Proofs.Resumption
import ExprLang.Proofs.Separators
import ExprLang.Proofs.LogLines
import ExprLang.Proofs.Prompt
import ExprLang.Proofs.WholeFile
import ExprLang.Proofs.OpenConstructs
import ExprLang.Proofs.Slices
import ExprLang.Proofs.LineOfOffset
import ExprLang.Proofs.Carets
import ExprLang.Proofs.OutlineRows
import ExprLang.Proofs.UniqueReadability
import ExprLang.Proofs.Numerals
import ExprLang.Proofs.Recursion
