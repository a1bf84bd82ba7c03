import Mathlib.Data.List.Basic

/-!
# Backtracking regular expressions

Patterns in the manner of Python's `re`. What such a pattern matches depends on the order in
which its alternatives are tried, so the meaning of a pattern at a place of a text is the list of
the ways it can match there, the preferred one first: `search` and `sub` take the head of it. A
place is a cursor, which keeps what is before it as well, since anchors and lookbehind ask.
-/

namespace Regex

/-- A place in a text: what is before it, nearest first, and what is after it. -/
structure Cursor where
  before : List Char
  after : List Char

/-- A match in progress: where it has got to, and the groups it has captured, latest first. -/
structure Progress where
  cursor : Cursor
  groups : List (Nat × List Char)

/-- A pattern. -/
inductive Pattern where
  | eps
  | set (p : Char → Bool)
  | seq (a b : Pattern)
  | alt (a b : Pattern)
  /-- As often as possible from `least` to `most` times. -/
  | rep (least : Nat) (most : Option Nat) (r : Pattern)
  | group (n : Nat) (r : Pattern)
  /-- `(?=…)`, or `(?!…)` if it is not expected. -/
  | ahead (expected : Bool) (r : Pattern)
  /-- `(?<=…)` or `(?<!…)` of one character. -/
  | behind (expected : Bool) (p : Char → Bool)
  /-- `\b`. -/
  | boundary (word : Char → Bool)
  /-- `^`, the start of the text. -/
  | start
  /-- `$`, the end of the text or the newline it ends with. -/
  | finish

/-! ## Matching -/

/-- The text between two cursors of one text. -/
def Cursor.upTo (c d : Cursor) : List Char := c.after.take (c.after.length - d.after.length)

/-- The character class at a cursor, if the next character is in it. -/
def Cursor.next (c : Cursor) (p : Char → Bool) : Option Cursor :=
  match c.after with
  | [] => none
  | x :: rest => if p x then some { before := x :: c.before, after := rest } else none

/-- Exactly `n` times. -/
def times (step : Progress → List Progress) : Nat → Progress → List Progress
  | 0, m => [m]
  | n + 1, m => (step m).flatMap (times step n)

/-- Up to `n` times, more often preferred. -/
def greedy (step : Progress → List Progress) : Nat → Progress → List Progress
  | 0, m => [m]
  | n + 1, m => (step m).flatMap (greedy step n) ++ [m]

/-- The ways a pattern can match, the preferred one first. -/
def ways : Pattern → Progress → List Progress
  | .eps, m => [m]
  | .set p, m => (m.cursor.next p).toList.map fun c => { m with cursor := c }
  | .seq a b, m => (ways a m).flatMap (ways b)
  | .alt a b, m => ways a m ++ ways b m
  | .rep least most r, m =>
      (times (ways r) least m).flatMap fun m =>
        greedy (ways r) (match most with
          | some most => most - least
          -- a repetition that matches nothing would go on for ever; the text bounds the others
          | none => m.cursor.after.length) m
  | .group n r, m =>
      (ways r m).map fun m' => { m' with groups := (n, m.cursor.upTo m'.cursor) :: m'.groups }
  | .ahead expected r, m => if (ways r m).isEmpty = !expected then [m] else []
  | .behind expected p, m => if m.cursor.before.head?.any p = expected then [m] else []
  | .boundary word, m =>
      if m.cursor.before.head?.any word = m.cursor.after.head?.any word then [] else [m]
  | .start, m => if m.cursor.before.isEmpty then [m] else []
  | .finish, m => if m.cursor.after = [] ∨ m.cursor.after = ['\n'] then [m] else []

/-- The match at a cursor. -/
def matchAt (r : Pattern) (c : Cursor) : Option Progress := (ways r { cursor := c, groups := [] }).head?

/-- `re.search`, from a cursor on: where the first match starts. -/
def searchFrom (r : Pattern) (before : List Char) : List Char → Option Nat
  | [] => (matchAt r { before := before, after := [] }).map fun _ => before.length
  | x :: rest =>
      if (matchAt r { before := before, after := x :: rest }).isSome then some before.length
      else searchFrom r (x :: before) rest

/-- `re.search`: where the first match starts. -/
def search (r : Pattern) (text : List Char) : Option Nat := searchFrom r [] text

/-- What a replacement can refer to. -/
structure Match where
  text : List Char
  groups : List (Nat × List Char)

/-- A group of a match; empty if it took no part. -/
def Match.get (m : Match) (n : Nat) : List Char := (m.groups.lookup n).getD []

/-- Replace at most `count` matches from a cursor on. Matches of nothing are left alone. -/
def subFrom (r : Pattern) (replacement : Match → List Char) :
    (fuel count : Nat) → Cursor → List Char
  | 0, _, c => c.after
  | _, 0, c => c.after
  | fuel + 1, count + 1, c =>
      match c.after with
      | [] => []
      | x :: rest =>
          let skip := fun (_ : Unit) =>
            x :: subFrom r replacement fuel (count + 1) { before := x :: c.before, after := rest }
          match matchAt r c with
          | none => skip ()
          | some m =>
              if m.cursor.after.length < c.after.length then
                replacement { text := c.upTo m.cursor, groups := m.groups }
                  ++ subFrom r replacement fuel count m.cursor
              else skip ()

/-- `re.sub` with a limit on the number of replacements. -/
def subCount (count : Nat) (r : Pattern) (replacement : Match → List Char) (text : List Char) :
    List Char :=
  subFrom r replacement text.length count { before := [], after := text }

/-- `re.sub`. -/
def sub (r : Pattern) (replacement : Match → List Char) (text : List Char) : List Char :=
  subCount text.length r replacement text

/-- `re.sub` by a fixed text. -/
def subBy (r : Pattern) (replacement : String) (text : List Char) : List Char :=
  sub r (fun _ => replacement.toList) text

/-! ## Writing patterns -/

/-- One pattern after the other. -/
def all : List Pattern → Pattern
  | [] => .eps
  | [r] => r
  | r :: rs => .seq r (all rs)

/-- One of the patterns, earlier ones preferred. -/
def any : List Pattern → Pattern
  | [] => .set fun _ => false
  | [r] => r
  | r :: rs => .alt r (any rs)

def star (r : Pattern) : Pattern := .rep 0 none r

def plus (r : Pattern) : Pattern := .rep 1 none r

def opt (r : Pattern) : Pattern := .rep 0 (some 1) r

/-- A literal text. -/
def lit (s : String) : Pattern := all (s.toList.map fun x => .set (· == x))

/-- A class of single characters. -/
def among (s : String) (c : Char) : Bool := s.toList.contains c

/-- A class of ranges of code points. -/
def within (ranges : List (Nat × Nat)) (c : Char) : Bool :=
  ranges.any fun r => r.1 ≤ c.toNat && c.toNat ≤ r.2

/-- `a-z`, `A-Z`. -/
def letter (c : Char) : Bool := c.isLower || c.isUpper

/-- `0-9`. -/
def digit (c : Char) : Bool := c.isDigit

/-- What `IGNORECASE` takes a character for, where a pattern has ASCII letters: four others fold
to one of those. -/
def foldCase (c : Char) : Char :=
  if c.isUpper then c.toLower
  else if c.toNat = 0x130 ∨ c.toNat = 0x131 then 'i'
  else if c.toNat = 0x17F then 's'
  else if c.toNat = 0x212A then 'k'
  else c

/-- A literal text in lower case, ignoring case. -/
def ilit (s : String) : Pattern := all (s.toList.map fun x => .set (foldCase · == x))

/-- A class given for lower case, ignoring case. -/
def icase (p : Char → Bool) (c : Char) : Bool := p (foldCase c)

end Regex
