import Netlist.Pattern.Build
import Netlist.Pattern.Search

/-!
The patterns of netlists. Sets of letters are written in lower case; rules that ignore case close
them. `withoutContinuations` replaces every continuation marker, with its line break and the
blanks around it, by one space.
-/
namespace Netlist.Spice

open Pattern

def lineBreak : Pattern := oneOfThese [literally "\r\n", literally "\n", literally "\r"]

def blanks : Pattern := many (anyOf " \t")

def someBlanks : Pattern := oneOrMore (anyOf " \t")

def decimalDigit : Pattern := oneOf [('0', '9')]

/-- The digits of a number, with or without a point. -/
def mantissa : Pattern :=
  .alt (.seq (oneOrMore decimalDigit) (optional (.seq (literally ".") (many decimalDigit))))
    (.seq (literally ".") (oneOrMore decimalDigit))

def exponent : Pattern := inOrder [anyOf "eE", optional (anyOf "+-"), oneOrMore decimalDigit]

def scaleSuffix : Pattern := oneOfThese [literally "meg", literally "mil", anyOf "tgkmunpf"]

def number : Pattern :=
  inOrder [optional (anyOf "+-"), mantissa, optional exponent, optional scaleSuffix, many (oneOf [('a', 'z')])]

def plainName : Pattern :=
  .seq (oneOf [('a', 'z'), ('_', '_')]) (many (oneOf [('a', 'z'), ('0', '9'), ('_', '_')]))

def restOfLine : Pattern := many (noneOf "\r\n")

/-- A word of the language that no word character follows. -/
def keyword (s : String) : Pattern := .seq (literally s) (.assertion .wordBoundary)

/-- A marker in front of the line that goes on, with the line break before it. -/
def nextLineMarker : Pattern := inOrder [lineBreak, blanks, literally "+"]

/-- A marker behind the line that goes on, with its line break. -/
def currentLineMarker : Pattern := inOrder [literally "\\", blanks, lineBreak]

/-- A string in double quotes, in which a backslash escapes any character but a line feed. -/
def doubleQuoted : Pattern :=
  inOrder [literally "\"", many (.alt (noneOf "\"\\\r\n") (.seq (literally "\\") (noneOf "\n"))), literally "\""]

/-- A single-quoted expression, which may go on over continuation lines. -/
def singleQuoted : Pattern :=
  inOrder [literally "'", many (oneOfThese [noneOf "'\\\r\n", currentLineMarker, nextLineMarker]), literally "'"]

def reference : Pattern :=
  inOrder [literally "@", plainName, many (.seq (anyOf ".:") plainName),
    optional (inOrder [literally "[", plainName, literally "]"])]

def identifier : Pattern :=
  .seq (oneOf [('A', 'Z'), ('a', 'z'), ('0', '9'), ('_', '_')])
    (many (.set (.union (.ofRanges [('A', 'Z'), ('a', 'z'), ('0', '9')]) (.ofList (chars "_.:!#$[]/")))))

def busRange : Pattern :=
  .seq (oneOrMore decimalDigit) (optional (.seq (literally ":") (oneOrMore decimalDigit)))

def busSuffix : Pattern :=
  inOrder [literally "<", busRange, many (.seq (literally ",") busRange), literally ">"]

def busPrefix : Pattern := inOrder [literally "<*", oneOrMore decimalDigit, literally ">"]

/-- Text of a block comment up to a character that might start its end, or that character. -/
def blockContent : Pattern := .alt (oneOrMore (noneOf "\r\n#")) (literally "#")

def continuationMarker : Pattern :=
  .alt (inOrder [blanks, literally "\\", blanks, lineBreak, blanks])
    (inOrder [blanks, lineBreak, blanks, literally "+", blanks])

/-- A text with every continuation marker replaced by one space. -/
def withoutContinuations (t : Text) : Text := continuationMarker.replaceAll [' '] t

end Netlist.Spice
