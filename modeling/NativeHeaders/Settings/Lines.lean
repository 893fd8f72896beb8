import NativeHeaders.Text.Split

/-!
# Logical lines

A line of a TOML document ends at a line break, except that a string in triple quotes may hold
line breaks. `logicalLines` walks through a document and notes only where it stands: in a comment,
in a string of some kind, or in none of them.
-/

set_option autoImplicit false

namespace NativeHeaders.Toml

/-- Writes each line break as one character. -/
def unifyBreaks : List Char → List Char
  | '\r' :: '\n' :: cs => '\n' :: unifyBreaks cs
  | c :: cs => c :: unifyBreaks cs
  | [] => []

/-! ## Places -/

/-- Where a character of a document stands. -/
inductive Place where
  | plain
  | comment
  /-- Behind a quote that opens a string. -/
  | opened (quote : Char)
  /-- Behind two quotes, which are an empty string unless a third follows. -/
  | doubled (quote : Char)
  | inString (quote : Char)
  /-- Behind a backslash in a string. -/
  | escaped (quote : Char)
  /-- In a string in triple quotes, of which some were just met. -/
  | inLong (quote : Char) (met : Nat)
  /-- Behind a backslash in a string in triple quotes. -/
  | escapedLong (quote : Char)
deriving DecidableEq

namespace Place

/-- Whether a line break ends the line. -/
def endsAtBreak : Place → Bool
  | inLong _ _ => false
  | escapedLong _ => false
  | _ => true

/-- Whether a backslash makes the next character lose its meaning. -/
def escapes (quote c : Char) : Bool := quote == '"' && c == '\\'

/-- Where the character after `c` stands, if `c` stands in no comment and no string. -/
def afterPlain (c : Char) : Place :=
  if c = '#' then comment
  else if c = '"' ∨ c = '\'' then opened c
  else plain

/-- Where the character after `c` stands, if `c` stands in a string. -/
def afterInString (quote c : Char) : Place :=
  if c = quote then plain
  else if escapes quote c then escaped quote
  else inString quote

/-- Where the character after `c` stands. -/
def after (place : Place) (c : Char) : Place :=
  match place with
  | plain => afterPlain c
  | comment => comment
  | opened quote => if c = quote then doubled quote else afterInString quote c
  | doubled quote => if c = quote then inLong quote 0 else afterPlain c
  | inString quote => afterInString quote c
  | escaped quote => inString quote
  | inLong quote met =>
    if c = quote then if met = 2 then plain else inLong quote (met + 1)
    else if escapes quote c then escapedLong quote
    else inLong quote 0
  | escapedLong quote => inLong quote 0

end Place

/-! ## Lines -/

/-- Puts a character in front of the first of some lines. -/
def extend (c : Char) : List (List Char) → List (List Char)
  | [] => [[c]]
  | line :: lines => (c :: line) :: lines

/-- The lines of a document, of which the first starts at a place. -/
def logicalLines (place : Place) : List Char → List (List Char)
  | [] => [[]]
  | c :: cs =>
    if c = '\n' ∧ place.endsAtBreak then [] :: logicalLines .plain cs
    else extend c (logicalLines (place.after c) cs)

end NativeHeaders.Toml
