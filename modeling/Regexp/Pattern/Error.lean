/-! Why a text is no pattern. -/
namespace Regexp

inductive EscapeError where
  | unknown (c : Char)
  | tooLong
  | noDigits
  | notScalar (digits : List Char)
  | endsRange
deriving DecidableEq, Repr

inductive Fault where
  | unexpected
  | escape (e : EscapeError)
deriving DecidableEq, Repr

/-- An unexpected character is reported with the pattern and its offset there. The offset is the
length of the pattern if that ends too early. -/
inductive PatternError where
  | unexpected (pattern : List Char) (offset : Nat)
  | invalidEscape (e : EscapeError)
deriving DecidableEq, Repr

namespace EscapeError

def message : EscapeError → String
  | unknown c => "unexpected escape sequence \\" ++ c.toString
  | tooLong => "Unicode escape sequence too long"
  | noDigits => "empty Unicode escape sequence"
  | notScalar digits => "\\u\x7b" ++ String.ofList digits ++ "\x7d is not a valid code point"
  | endsRange => "unexpected ending escape sequence for character class"

end EscapeError

namespace PatternError

def ofFault (pattern : List Char) (offset : Nat) : Fault → PatternError
  | .unexpected => unexpected pattern offset
  | .escape e => invalidEscape e

def message : PatternError → String
  | unexpected pattern offset =>
    "unexpected character at offset " ++ toString offset ++ " in pattern `" ++
      String.ofList pattern ++ "`"
  | invalidEscape e => e.message

end PatternError

end Regexp
