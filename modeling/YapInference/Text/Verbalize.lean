import YapInference.Text.Filters

/-!
# Emails and phone numbers in words

`src/text/verbalize.py`. Where the phone numbers are is for `PhoneNumberMatcher` to say, which is
not part of the program.
-/

namespace YapInference

open Py Regex

/-- `str.replace` of one character. -/
def replaceChar (old : Char) (new : String) (text : Text) : Text :=
  text.flatMap fun c => if c = old then new.toList else [c]

/-- `verbalize_email`. -/
def verbalizeEmail (email : Text) : Text :=
  replaceChar '.' " dot " (replaceChar '@' " at " email)

/-- `verbalize_emails`. -/
def verbalizeEmails (text : Text) : Text := sub emailPattern (fun m => verbalizeEmail m.text) text

/-- `DIGIT_WORDS`. -/
def digitWords : List (Char × String) :=
  [('0', "zero"), ('1', "one"), ('2', "two"), ('3', "three"), ('4', "four"), ('5', "five"),
    ('6', "six"), ('7', "seven"), ('8', "eight"), ('9', "nine")]

/-- `verbalize_phone_digit`. -/
def verbalizePhoneDigit (c : Char) : Text :=
  if c = '+' then "plus".toList else ((digitWords.lookup c).getD "").toList

/-- `verbalize_phone_number`. -/
def verbalizePhoneNumber (rawNumber : Text) : Text :=
  join [' '] ((rawNumber.map verbalizePhoneDigit).filter fun word => !word.isEmpty)

/-- A match of `PhoneNumberMatcher`. -/
structure PhoneMatch where
  start : Nat
  stop : Nat
  rawString : Text

/-- `verbalize_phone_numbers`: replaced from the last match to the first, so that positions stay
valid. -/
def verbalizePhoneNumbers (matchPhones : Text → List PhoneMatch) (text : Text) : Text :=
  if text.isEmpty then text
  else
    ((matchPhones text).mergeSort fun a b => b.start ≤ a.start).foldl
      (fun result m =>
        result.take m.start ++ verbalizePhoneNumber m.rawString ++ result.drop m.stop)
      text

end YapInference
