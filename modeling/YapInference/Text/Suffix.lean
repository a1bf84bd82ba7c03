import YapInference.Text.Filters

/-!
# The suffix that may still change

`src/text/suffix.py`: how much of the end of a text is held back because what follows may complete
a pattern. Two of the guards look at the sanitized text and four at the raw one, but all six count
characters of the sanitized text.
-/

namespace YapInference

open Py Regex

/-- `unstable_suffix_len`. -/
def unstableSuffixLen (text : Text) : Nat :=
  text.length - ((text.rdropWhile trailingStreamUnstableChars).rdropWhile (· == '.')).length

/-- The length of the suffix a pattern matches, or 0. -/
def suffixLen (r : Pattern) (text : Text) : Nat :=
  match search r text with
  | none => 0
  | some start => text.length - start

/-- `html_entity_suffix_len`. -/
def htmlEntitySuffixLen (text : Text) : Nat :=
  suffixLen (all [lit "&", .rep 0 (some 10) (.set letter), .finish]) text

/-- `str.rfind` of one character. -/
def rfind (c : Char) (text : Text) : Option Nat :=
  (text.reverse.idxOf? c).map fun i => text.length - 1 - i

/-- `html_tag_suffix_len`. -/
def htmlTagSuffixLen (cd : CharData) (rawText : Text) : Nat :=
  match rfind '<' rawText with
  | none => 0
  | some lastLt =>
      if (rfind '>' rawText).any (lastLt < ·) then 0
      -- `<3` is a heart, not a tag
      else if rawText[lastLt + 1]?.any cd.isDigit then 0
      else min (rawText.length - lastLt) 256

/-- `email_suffix_len`. -/
def emailSuffixLen (rawText : Text) : Nat :=
  if (search emailPattern rawText).isSome then min 16 rawText.length
  else
    min (suffixLen (all [plus (.set fun c => letter c || digit c || among "._%+-" c), opt (lit "@"),
      star (.set fun c => letter c || digit c || among ".-" c), .finish]) rawText) 256

/-- `phone_suffix_len`. -/
def phoneSuffixLen (cd : CharData) (rawText : Text) : Nat :=
  min (suffixLen (all [.set fun c => c == '+' || cd.isDecimal c,
    star (.set fun c => cd.isDecimal c || among " -()" c), .finish]) rawText) 64

/-- `emoticon_suffix_len`. -/
def emoticonSuffixLen (text : Text) : Nat :=
  suffixLen (all [any [
    all [.set (among ":=;8"), opt (.set (among "-^"))],
    lit "<",
    all [.set (among "xX"), .ahead false (.set letter)],
    all [lit "^", opt (lit "_")],
    all [.set (among "tT"), opt (lit "_")]], .finish]) text

/-- `compute_stable_and_tail_lengths`. -/
def computeStableAndTailLengths (cd : CharData) (rawTail sanitized : Text) (maxTail : Nat) :
    Nat × Nat :=
  if sanitized.isEmpty then (0, 0)
  else
    let guards := [unstableSuffixLen sanitized, htmlEntitySuffixLen sanitized,
      htmlTagSuffixLen cd rawTail, emailSuffixLen rawTail, phoneSuffixLen cd rawTail,
      emoticonSuffixLen rawTail]
    let tailLen := min sanitized.length (guards.foldl max 0)
    if maxTail < tailLen then (sanitized.length - maxTail, maxTail)
    else (sanitized.length - tailLen, tailLen)

end YapInference
