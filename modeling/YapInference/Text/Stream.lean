import YapInference.Execution.Controller
import YapInference.Lib.Emission
import YapInference.Lib.Html
import YapInference.Text.Suffix
import YapInference.Text.Verbalize

/-!
# The streaming sanitizer

`src/text/stream.py`. The pipeline runs over the whole raw text at every push, since nothing ever
drops the start of it; what has been emitted is compared with what is stable now, and the rest is
emitted.
-/

namespace YapInference

open Py Regex

/-- What the sanitizer takes from outside: character data, the phone number matcher, and the named
character references. -/
structure TextEnv where
  chars : CharData
  matchPhones : Text → List PhoneMatch
  html5 : Text → Option Text

/-- ASCII, without phone numbers and named references. -/
def plainTextEnv : TextEnv where
  chars := asciiData
  matchPhones := fun _ => []
  html5 := fun _ => none

/-! ## The pipeline -/

/-- `_strip_leading_newline_tokens`. -/
def stripLeadingNewlineTokens (text : Text) : Text := subBy leadingNewlineTokensPattern "" text

/-- `_collapse_spaces`. -/
def collapseSpaces (text : Text) : Text := subBy collapseSpacesPattern " " text

/-- `_strip_asterisks`. -/
def stripAsterisks (text : Text) : Text := replaceChar '*' " " text

/-- `_strip_emoji_like_tokens`. -/
def stripEmojiLikeTokens (cd : CharData) (text : Text) : Text :=
  collapseSpaces (subBy (emoticonPattern cd) " " (subBy emojiPattern " " text))

/-- `_normalize_exaggerated_oh`. -/
def normalizeExaggeratedOh (text : Text) : Text :=
  let oCount := text.countP (among "oO")
  let hCount := text.countP (among "hH")
  if oCount ≤ 2 ∧ hCount ≤ 1 then text
  else if text.head?.any Char.isUpper then "Ooh".toList
  else "ooh".toList

/-- `_ensure_leading_capital_stream`. -/
def ensureLeadingCapitalStream (cd : CharData) (text : Text) (capitalPending : Bool) :
    Text × Bool :=
  if !capitalPending then (text, false)
  else
    match text.span (fun c => !cd.isAlpha c) with
    | (_, []) => (text, true)
    | (before, c :: rest) =>
        if cd.isLower c then (before ++ cd.upper c ++ rest, false) else (text, false)

/-- `(?<!\.)\.(?!\.)(?=[A-Za-z0-9])`. -/
def standalonePeriod : Pattern :=
  all [.behind false (· == '.'), lit ".", .ahead false (lit "."),
    .ahead true (.set fun c => letter c || digit c)]

/-- `_sanitize_stream_chunk`. -/
def sanitizeStreamChunk (env : TextEnv) (text : Text)
    (prefixPending capitalPending stripLeadingWs : Bool) : Text × Bool × Bool :=
  if text.isEmpty then ([], prefixPending, capitalPending)
  else
    let cd := env.chars
    let cleaned := text
    let (cleaned, prefixPending) :=
      if prefixPending then
        let cleaned := subCount 1 freestylePrefixPattern (fun _ => []) cleaned
        let cleaned := if cleaned ≠ text then lstrip cleaned else cleaned
        (stripLeadingNewlineTokens cleaned, false)
      else (cleaned, prefixPending)
    let cleaned := verbalizeEmails cleaned
    let cleaned := verbalizePhoneNumbers env.matchPhones cleaned
    let cleaned := subBy actionEmotePattern "" cleaned
    let cleaned := stripAsterisks cleaned
    let cleaned := subBy ellipsisPattern "..." cleaned
    let cleaned := subBy newlineTokenPattern " " cleaned
    let cleaned := subBy doubleDotSpacePattern "..." cleaned
    let cleaned := subBy ellipsisTrailingDotPattern "..." cleaned
    let cleaned := subBy ellipsisTrailingSpacePattern "..." cleaned
    let cleaned := subBy dotRunPattern "..." cleaned
    let cleaned := subBy spacedDotRunPattern "." cleaned
    let cleaned := subBy standalonePeriod ". " cleaned
    let cleaned := subBy (tempFahrenheitPattern cd) " degrees Fahrenheit" cleaned
    let cleaned := subBy (tempCelsiusPattern cd) " degrees Celsius" cleaned
    let cleaned := subBy (tempKelvinPattern cd) " degrees Kelvin" cleaned
    let cleaned := subBy degreeSymbolPattern " degrees" cleaned
    let cleaned := subBy percentPattern " percent" cleaned
    let cleaned := sub (subtractionPattern cd)
      (fun m => m.get 1 ++ " minus ".toList ++ m.get 2) cleaned
    let cleaned := sub (negativeNumberPattern cd) (fun m => " minus ".toList ++ m.get 1) cleaned
    let cleaned := sub (singleLetterSuffixPattern cd) (fun m => m.get 1 ++ m.get 2) cleaned
    let cleaned := sub wordHyphenPattern (fun m => m.get 1 ++ [' '] ++ m.get 2) cleaned
    let cleaned := subBy emdashPattern " " cleaned
    -- in the source both sides of this replacement are the same apostrophe
    let cleaned := replaceChar (Char.ofNat 39) "'" cleaned
    let cleaned := sub spaceBeforePunctPattern (fun m => m.get 1) cleaned
    let cleaned := stripEscapedQuotes cleaned
    let cleaned := sub (exaggeratedOhPattern cd) (fun m => normalizeExaggeratedOh m.text) cleaned
    let cleaned := stripEmojiLikeTokens cd cleaned
    let cleaned := subBy htmlTagPattern "" cleaned
    let cleaned := Html.unescape env.html5 cleaned
    let cleaned := collapseSpaces cleaned
    let (cleaned, capitalPending) := ensureLeadingCapitalStream cd cleaned capitalPending
    (if stripLeadingWs then lstrip cleaned else cleaned, prefixPending, capitalPending)

/-- `_common_prefix_len`. -/
def commonPrefixLen (a b : Text) : Nat := Emission.common a b

/-! ## The sanitizer -/

/-- `StreamingSanitizer`. -/
structure StreamingSanitizer where
  rawTail : Text
  sanitizedTail : Text
  emittedParts : List Text
  prefixPending : Bool
  capitalPending : Bool
  trimmedStreamStart : Bool

namespace StreamingSanitizer

/-- `_MAX_TAIL`. -/
def maxTail : Nat := 64

/-- `__init__`. -/
def init : StreamingSanitizer where
  rawTail := []
  sanitizedTail := []
  emittedParts := []
  prefixPending := true
  capitalPending := true
  trimmedStreamStart := false

/-- The pipeline over the raw tail, as both methods call it. -/
def sanitizeRawTail (env : TextEnv) (s : StreamingSanitizer) : StreamingSanitizer × Text :=
  let prefixCtx := s.prefixPending || !s.trimmedStreamStart
  let capitalCtx := s.capitalPending || !s.trimmedStreamStart
  let (sanitized, prefixState, capitalState) :=
    sanitizeStreamChunk env s.rawTail prefixCtx capitalCtx prefixCtx
  ({ s with prefixPending := prefixState, capitalPending := capitalState }, sanitized)

/-- What both methods do with the text emitted so far when it turns out not to start the new
text: the parts are cut back to the common prefix. Its length is returned. -/
def cutBack (s : StreamingSanitizer) (target : Text) : StreamingSanitizer × Nat :=
  let emittedText := s.emittedParts.flatten
  let lcp := commonPrefixLen emittedText target
  if lcp < emittedText.length then
    let emittedText := emittedText.take lcp
    ({ s with emittedParts := if emittedText.isEmpty then [] else [emittedText] }, lcp)
  else (s, lcp)

/-- `push`. -/
def push (env : TextEnv) (s : StreamingSanitizer) (chunk : Text) : StreamingSanitizer × Text :=
  if chunk.isEmpty then (s, [])
  else
    let s := { s with rawTail := s.rawTail ++ chunk }
    let (s, sanitized) := s.sanitizeRawTail env
    let (stableLen, tailLen) := computeStableAndTailLengths env.chars s.rawTail sanitized maxTail
    let (s, delta) :=
      if 0 < stableLen then
        let stable := sanitized.take stableLen
        let (s, lcp) := s.cutBack stable
        let delta := stable.drop lcp
        (if delta.isEmpty then s else { s with emittedParts := s.emittedParts ++ [delta] }, delta)
      else (s, [])
    ({ s with sanitizedTail := (sanitized.drop stableLen).take tailLen }, delta)

/-- `flush`. -/
def flush (env : TextEnv) (s : StreamingSanitizer) : StreamingSanitizer × Text :=
  if s.rawTail.isEmpty && s.sanitizedTail.isEmpty then (s, [])
  else
    let (s, sanitized) := s.sanitizeRawTail env
    let (s, lcp) := s.cutBack sanitized
    let tail := rstrip (sanitized.drop lcp)
    let s := if tail.isEmpty then s else { s with emittedParts := s.emittedParts ++ [tail] }
    ({ s with sanitizedTail := [], rawTail := [], trimmedStreamStart := false }, tail)

end StreamingSanitizer

/-- The sanitizer the runner puts over a stream. -/
def streamingSanitizer (env : TextEnv) : Sanitizer where
  State := StreamingSanitizer
  init := .init
  push := StreamingSanitizer.push env
  flush := fun s => (s.flush env).2

end YapInference
