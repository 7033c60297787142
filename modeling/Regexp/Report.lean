import Regexp.Regex
import Regexp.Visible

/-! Lines of text that show how patterns match. -/
namespace Regexp.Report

/-- What follows the backslash for a character that has an escape of its own. -/
def escapeLetter? (c : Char) : Option Char :=
  match c with
  | '"' => some '"'
  | '\\' => some '\\'
  | '\x00' => some '0'
  | '\t' => some 't'
  | '\n' => some 'n'
  | '\r' => some 'r'
  | _ => none

def quotedChar (c : Char) : List Char :=
  match escapeLetter? c with
  | some letter => ['\\', letter]
  | none => if isVisible c then [c] else '\\' :: 'u' :: '{' :: Nat.toDigits 16 c.toNat ++ ['}']

def quoted (text : List Char) : List Char := '"' :: text.flatMap quotedChar ++ ['"']

/-- A line of input without its end, a line feed with or without a carriage return before it. -/
def lineText (line : List Char) : List Char :=
  match line.reverse with
  | '\n' :: '\r' :: rest => rest.reverse
  | '\n' :: rest => rest.reverse
  | _ => line

/-- A caret under every offset at which a match begins, and no blanks after the last. -/
def markerLine (rx : Regex) (input : List Char) : List Char :=
  let starts := rx.matchStarts input
  let line := (List.range (input.length + 1)).map fun i => if i ∈ starts then '^' else ' '
  (line.reverse.dropWhile (· = ' ')).reverse

def yesNo (b : Bool) : List Char := (toString b).toList

def matchLines (rx : Regex) (input : List Char) : List (List Char) :=
  [quoted input ++ "\twhole string: ".toList ++ yesNo (rx.matchesWhole input) ++
      "\tanywhere: ".toList ++ yesNo (rx.matchesAnywhere input),
    ' ' :: input,
    ' ' :: markerLine rx input]

def titleLine (text : List Char) : List Char := "PATTERN : ".toList ++ text

def regexLines (rx : Regex) (inputs : List (List Char)) : List (List Char) :=
  titleLine rx.text :: inputs.flatMap (matchLines rx)

def handMade : Automaton :=
  let either := (Automaton.literal "foo".toList).alternation (.literal "bar".toList)
  either.zeroOrMore.sequence (.literal [])

def alternationLines : List (List Char) :=
  let inputs :=
    ["foo", "bar", "foobar", "farboo", "boofar", "barfoo", "foofoobarfoo1", "foofoobarfoo"]
  titleLine "(foo|bar)*".toList :: (inputs.map String.toList).map fun input =>
    input ++ "\t:\t".toList ++ yesNo (handMade.matchesFrom input.toArray 0 true)

/-- Two columns, the first of at least twenty characters. -/
def columns (left right : List Char) : List Char :=
  left ++ List.replicate (20 - left.length) ' ' ++ right

def consonantLines : Except PatternError (List (List Char)) := do
  let patterns := ["[a-z-[aeiou]]", "[a-z&&[^aeiou]]", "[b-df-hj-np-tv-z]"]
  let regexes ← patterns.mapM fun p => Regex.ofText p.toList
  return [] :: columns "PATTERN".toList "ACCEPTS".toList ::
    regexes.map fun rx => columns rx.text (rx.accepted 'a' 'z')

def showcase : Except PatternError (List (List Char)) := do
  return alternationLines ++ (← consonantLines)

end Regexp.Report
