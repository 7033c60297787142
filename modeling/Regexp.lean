import Regexp.Automaton.Path
import Regexp.Fuzz
import Regexp.Main
import Regexp.Pattern.Canonical
import Regexp.Pattern.Matches
import Regexp.RangeList.Lemmas
import Regexp.Proofs.BitSet
import Regexp.Proofs.Automaton.Search
import Regexp.Proofs.Automaton.Fragment
import Regexp.Proofs.Automaton.Meaning
import Regexp.Proofs.Pattern.Escape
import Regexp.Proofs.RangeList.NormalForm
import Regexp.Proofs.CharClass.OfList
import Regexp.Proofs.Pattern.Canonical
import Regexp.Proofs.Pattern.Literal
import Regexp.Proofs.Regex.Views
import Regexp.Proofs.Regex.Literal
import Regexp.RangeList.Passes
import Regexp.Proofs.RangeList.Passes
import Regexp.Expression
import Regexp.Proofs.Automaton.Assembly
import Regexp.Proofs.Regex.Expression
import Regexp.Pattern.ClassSyntax
import Regexp.Proofs.Pattern.ClassReading
import Regexp.Proofs.Pattern.ClassText
import Regexp.Proofs.Pattern.Bracket
import Regexp.Proofs.Pattern.ClassMembers
import Regexp.Proofs.CharClass.Polarity
import Regexp.Proofs.Pattern.ClassPolarity
import Regexp.Proofs.Pattern.Completion
import Regexp.Proofs.Pattern.Unexpected
import Regexp.Proofs.Sampling.Draws
import Regexp.Proofs.Sampling.InputText
import Regexp.Proofs.Pattern.Groups
import Regexp.Proofs.Sampling.PatternText
import Regexp.Proofs.CharClass.Built
import Regexp.Proofs.Pattern.WellFormed
import Regexp.Proofs.CharClass.Complement
import Regexp.Proofs.Regex.Size
import Regexp.Proofs.Pattern.Parentheses
import Regexp.Proofs.Pattern.Shape
import Regexp.Proofs.CharClass.Lattice
import Regexp.Proofs.CharClass.Negation
import Regexp.Proofs.CharClass.Plain
import Regexp.Proofs.Report.MarkerLine
import Regexp.Automaton.Call
import Regexp.Proofs.Automaton.Call
import Regexp.Proofs.CodeRange.Arithmetic
import Regexp.Proofs.Pattern.ClassDisplay
import Regexp.Proofs.Report.Quoted
