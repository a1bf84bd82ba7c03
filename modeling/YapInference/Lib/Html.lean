import Mathlib.Data.List.DropRight
import YapInference.Lib.Regex

/-!
# Character references

`html.unescape` of Python's standard library. The table of the named references is a parameter;
the numeric ones are as the HTML 5 rules have them.
-/

namespace Html

open Regex

/-- `html._charref`. -/
def charref : Pattern :=
  all [lit "&", .group 1 (any [
    all [lit "#", plus (.set digit), opt (lit ";")],
    all [lit "#", .set (among "xX"),
      plus (.set fun c => digit c || within [(0x41, 0x46), (0x61, 0x66)] c), opt (lit ";")],
    all [.rep 1 (some 32) (.set fun c => !among "\t\n\x0c <&#;" c), opt (lit ";")]])]

/-- `html._invalid_charrefs`. -/
def invalidCharrefs : List (Nat × Nat) :=
  [(0x00, 0xFFFD), (0x0D, 0x0D), (0x80, 0x20AC), (0x81, 0x81), (0x82, 0x201A), (0x83, 0x192),
    (0x84, 0x201E), (0x85, 0x2026), (0x86, 0x2020), (0x87, 0x2021), (0x88, 0x2C6), (0x89, 0x2030),
    (0x8A, 0x160), (0x8B, 0x2039), (0x8C, 0x152), (0x8D, 0x8D), (0x8E, 0x17D), (0x8F, 0x8F),
    (0x90, 0x90), (0x91, 0x2018), (0x92, 0x2019), (0x93, 0x201C), (0x94, 0x201D), (0x95, 0x2022),
    (0x96, 0x2013), (0x97, 0x2014), (0x98, 0x2DC), (0x99, 0x2122), (0x9A, 0x161), (0x9B, 0x203A),
    (0x9C, 0x153), (0x9D, 0x9D), (0x9E, 0x17E), (0x9F, 0x178)]

/-- `html._invalid_codepoints`. -/
def invalidCodepoint (n : Nat) : Bool :=
  (0x1 ≤ n && n ≤ 0x8) || n == 0xB || (0xE ≤ n && n ≤ 0x1F) || (0x7F ≤ n && n ≤ 0x9F)
    || (0xFDD0 ≤ n && n ≤ 0xFDEF) || 0xFFFE ≤ n % 0x10000

/-- A numeric reference. -/
def numericCharref (n : Nat) : List Char :=
  match invalidCharrefs.lookup n with
  | some m => [Char.ofNat m]
  | none =>
      if (0xD800 ≤ n ∧ n ≤ 0xDFFF) ∨ 0x10FFFF < n then [Char.ofNat 0xFFFD]
      else if invalidCodepoint n then []
      else [Char.ofNat n]

/-- The value of a digit, in any base up to 16. -/
def digitValue (c : Char) : Nat :=
  if c.isDigit then c.toNat - 0x30 else c.toLower.toNat - 0x61 + 10

/-- `int(digits, base)`. -/
def parseInt (base : Nat) (digits : List Char) : Nat :=
  digits.foldl (fun n c => n * base + digitValue c) 0

/-- `html._replace_charref`. -/
def replaceCharref (html5 : List Char → Option (List Char)) (s : List Char) : List Char :=
  match s with
  | '#' :: x :: rest =>
      if x = 'x' ∨ x = 'X' then numericCharref (parseInt 16 (rest.rdropWhile (· == ';')))
      else numericCharref (parseInt 10 ((x :: rest).rdropWhile (· == ';')))
  | _ =>
      match html5 s with
      | some t => t
      | none =>
          -- the longest prefix of at least two characters that is a name
          (((List.range s.length).reverse.filter (2 ≤ ·)).findSome? fun x =>
            (html5 (s.take x)).map (· ++ s.drop x)).getD ('&' :: s)

/-- `html.unescape`. -/
def unescape (html5 : List Char → Option (List Char)) (s : List Char) : List Char :=
  if !s.contains '&' then s else sub charref (fun m => replaceCharref html5 (m.get 1)) s

end Html
