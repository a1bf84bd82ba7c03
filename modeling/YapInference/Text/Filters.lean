import YapInference.Lib.Regex
import YapInference.Lib.Text

/-!
# The patterns of the sanitizer

The text sanitization patterns of `src/config/filters.py`, in its order, and the character data
they ask for.
-/

namespace YapInference

open Py Regex

/-- What the Unicode character database says about characters outside a pattern's own lists. -/
structure CharData where
  /-- `\d`. -/
  isDecimal : Char → Bool
  /-- `\w`. -/
  isWord : Char → Bool
  /-- `str.isalpha`. -/
  isAlpha : Char → Bool
  /-- `str.islower`. -/
  isLower : Char → Bool
  /-- `str.isdigit`. -/
  isDigit : Char → Bool
  /-- `str.upper` of one character. -/
  upper : Char → Text

/-- The character data of ASCII. -/
def asciiData : CharData where
  isDecimal := digit
  isWord := fun c => letter c || digit c || c == '_'
  isAlpha := letter
  isLower := Char.isLower
  isDigit := digit
  upper := fun c => [c.toUpper]

/-- `\s`. -/
def space : Pattern := .set isSpace

def htmlTagPattern : Pattern := all [lit "<", plus (.set (· != '>')), lit ">"]

def emojiPattern : Pattern :=
  .set (within [(0x1F1E6, 0x1F1FF), (0x1F300, 0x1F5FF), (0x1F600, 0x1F64F), (0x1F680, 0x1F6FF),
    (0x1F700, 0x1F77F), (0x1F780, 0x1F7FF), (0x1F800, 0x1F8FF), (0x1F900, 0x1F9FF),
    (0x1FA00, 0x1FA6F), (0x1FA70, 0x1FAFF), (0x2600, 0x26FF), (0x2700, 0x27BF)])

def emoticonPattern (cd : CharData) : Pattern :=
  all [.behind false (icase fun c => letter c || digit c), any [
    all [.set (among ":=;8"), opt (.set (among "-^")), .set (icase (among ")dp(/\\o"))],
    lit ":'(",
    lit "<3",
    all [lit ":", opt (lit "-"), lit "|"],
    all [lit ":", opt (lit "-"), lit "/"],
    all [lit ":3", .ahead false (.set cd.isDecimal)],
    all [lit ";", opt (lit "-"), .set (icase (among ")pd"))],
    lit "^_^",
    ilit "t_t",
    all [ilit "xd", .ahead false (.set (icase letter))],
    all [opt (lit "("), lit "╯°□°", opt (lit ")"), lit "╯︵", star space, lit "┻━┻"]]]

def actionEmotePattern : Pattern :=
  all [lit "*", any (["smirk", "wink", "laugh", "smile", "frown", "giggle"].map fun word =>
    all [ilit word, opt (ilit "s")]), lit "*"]

def freestylePrefixPattern : Pattern :=
  all [.start, star space,
    any [all [ilit "freestyle mode", opt (lit ".")], ilit "on the screen now:"], star space]

def ellipsisPattern : Pattern := all [lit "…", star (.set (among " \t"))]

/-- `(?:\\n|/n|\r?\n)+`. -/
def newlineTokens : Pattern := plus (any [lit "\\n", lit "/n", all [opt (lit "\r"), lit "\n"]])

def newlineTokenPattern : Pattern := all [star space, newlineTokens, star space]

def trailingStreamUnstableChars : Char → Bool := among " \t\r\n/\\"

def escapedQuotePattern : Pattern := all [plus (lit "\\"), .group 1 (.set (among "\"'"))]

/-- `_strip_escaped_quotes` of `src/text/common.py`. -/
def stripEscapedQuotes (text : Text) : Text := subBy escapedQuotePattern "" text

def doubleDotSpacePattern : Pattern := all [lit "..", star space]

def exaggeratedOhPattern (cd : CharData) : Pattern :=
  all [.boundary cd.isWord, .set (among "oO"), plus (.set (among "oOhH")), .boundary cd.isWord]

def ellipsisTrailingDotPattern : Pattern := all [lit "...", star space, lit "."]

def dotRunPattern : Pattern := .rep 4 none (lit ".")

def spacedDotRunPattern : Pattern := all [plus (all [lit ".", plus space]), lit "."]

def spaceBeforePunctPattern : Pattern := all [plus space, .group 1 (.set (among ",?!"))]

def leadingNewlineTokensPattern : Pattern := all [.start, star space, newlineTokens, star space]

def collapseSpacesPattern : Pattern := .rep 2 none (.set (among " \t"))

def ellipsisTrailingSpacePattern : Pattern := all [lit "...", plus space]

def emdashPattern : Pattern := any [all [lit "-", plus (lit "-")], lit "—", lit "–"]

def subtractionPattern (cd : CharData) : Pattern :=
  all [.group 1 (.set cd.isDecimal), plus space, lit "-", plus space, .group 2 (.set cd.isDecimal)]

def negativeNumberPattern (cd : CharData) : Pattern :=
  all [.behind false cd.isWord, lit "-", .group 1 (.set cd.isDecimal)]

def singleLetterSuffixPattern (cd : CharData) : Pattern :=
  all [.group 1 (.set cd.isWord), lit "-", .group 2 (.set letter), .ahead false (.set letter)]

def wordHyphenPattern : Pattern := all [.group 1 (.set letter), lit "-", .group 2 (.set letter)]

/-- `°\s*U\b` for a unit `U`, ignoring case. -/
def tempPattern (cd : CharData) (unit : String) : Pattern :=
  all [lit "°", star space, ilit unit, .boundary cd.isWord]

def tempFahrenheitPattern (cd : CharData) : Pattern := tempPattern cd "f"

def tempCelsiusPattern (cd : CharData) : Pattern := tempPattern cd "c"

def tempKelvinPattern (cd : CharData) : Pattern := tempPattern cd "k"

def degreeSymbolPattern : Pattern :=
  all [lit "°", .ahead false (all [star space, .set (icase (among "fck"))])]

def percentPattern : Pattern := lit "%"

def emailPattern : Pattern :=
  all [plus (.set (icase fun c => letter c || digit c || among "._%+-" c)), lit "@",
    plus (.set (icase fun c => letter c || digit c || among ".-" c)), lit ".",
    .rep 2 none (.set (icase letter))]

end YapInference
