import Graft.Grammar.Session
import Graft.Outcome.Report
import Graft.Proofs.Draft.Admission
import Graft.Proofs.Draft.Nested
import Graft.Proofs.Grammar.Shared
import Graft.Proofs.Locator.Interior
import Graft.Proofs.Revision
import Graft.Proofs.Rule.Local
import Graft.Template
import Graft.Proofs.Revision.Nested
import Graft.Proofs.Recognizer.Flush
import Graft.Proofs.Rule.Flush
import Graft.Proofs.Locator.Start
import Graft.Proofs.Rule.Depth
import Graft.Proofs.Grammar.Ownership
import Graft.Proofs.Grammar.Tidy
import Graft.Proofs.Grammar.Build
import Graft.Proofs.Grammar.Step
import Graft.Proofs.Grammar.Alive
import Graft.Proofs.Grammar.Forward
import Graft.Proofs.Text.LineAt
import Graft.Proofs.Locator.ClosingLine
import Graft.Proofs.Locator.Terminator
import Graft.Proofs.Locator.Limit
import Graft.Proofs.TypeName.Depth
import Graft.Proofs.Locator.Tried
import Graft.Proofs.Recognizer.SpelledOut
import Graft.Proofs.Grammar.SpelledOut
import Graft.Proofs.Grammar.ListPolicies
import Graft.Proofs.Regex.Spells
import Graft.Proofs.Recognizer.Spelling
import Graft.Proofs.TypeName.Print
import Graft.Proofs.Grammar.Bracketed
import Graft.Proofs.Grammar.Optionals
import Graft.Proofs.Draft.Reordered
import Graft.Proofs.Text.LineIndex
import Graft.Proofs.Draft.Checked
import Graft.Proofs.Text.Excerpt
import Graft.Proofs.Text.Bytes
import Graft.Proofs.Recognizer.QuotedLiteral
import Graft.Proofs.Recognizer.Longest
import Graft.Proofs.Recognizer.Numeral
import Graft.Proofs.Grammar.SeparatedWords
import Graft.Proofs.Element.Range
import Graft.Proofs.Locator.Offsets
import Graft.Proofs.Regex.Pattern.Behind
import Graft.Proofs.Regex.Pattern.Members
import Graft.Proofs.Rule.Names
import Graft.Proofs.Regex.Pattern.Step
import Graft.Proofs.Regex.Pattern.Runs
import Graft.Proofs.Regex.Place
import Graft.Proofs.Regex.Anchored
import Graft.Proofs.Grammar.UserPatterns
