import NativeHeaders.Settings.Entries
import NativeHeaders.Settings.Lines

/-!
# Settings files

The settings files read here are flat TOML documents. Each logical line is blank, a comment, or a
key, `=` and a value: a truth value, an integer, a string in single or triple quotes of either kind,
or a name as the one key of an inline table whose value is empty, which is the long way to write a
choice. No setting takes a value of another type, so arrays, dates and fractions are refused. Keys
with dots and tables with a header of their own are refused as well, where TOML has them.
-/

set_option autoImplicit false

namespace NativeHeaders.Toml

/-! ## Characters -/

/-- Blank space inside a line. -/
def isBlank (c : Char) : Bool := c == ' ' || c == '\t'

/-- A character that may not stand in a string or comment. -/
def isControl (c : Char) : Bool := (c.toNat < 0x20 && c != '\t') || c.toNat == 0x7f

/-- A character of a key without quotes. -/
def isBareKey (c : Char) : Bool := c.isAlphanum || c == '_' || c == '-'

/-- The value of a digit. -/
def digitValue? (c : Char) : Option Nat :=
  if c.isDigit then some (c.toNat - 0x30)
  else if 'a' ≤ c ∧ c ≤ 'f' then some (c.toNat - 0x57)
  else if 'A' ≤ c ∧ c ≤ 'F' then some (c.toNat - 0x37)
  else none

/-- The number that digits of a radix spell. -/
def digits? (radix : Nat) (cs : List Char) : Option Nat :=
  if cs.isEmpty then none
  else
    cs.foldl (fun n? c => do
      let n ← n?
      let d ← digitValue? c
      if d < radix then some (n * radix + d) else none) (some 0)

/-! ## Strings -/

/-- The character of a numeric escape. -/
def escaped? (cs : List Char) : Option Char := do
  let n ← digits? 16 cs
  if n.isValidChar then some (Char.ofNat n) else none

/-- The character of an escape by a letter or sign. -/
def escapes : List (Char × Char) :=
  [('b', '\x08'), ('t', '\t'), ('n', '\n'), ('f', '\x0c'), ('r', '\r'), ('"', '"'), ('\\', '\\')]

/-- The rest of a string in double quotes, and what follows it. -/
def basicString : List Char → Option (List Char × List Char)
  | '"' :: rest => some ([], rest)
  | '\\' :: 'u' :: a :: b :: c :: d :: rest => do
    let x ← escaped? [a, b, c, d]
    let (cs, rest) ← basicString rest
    return (x :: cs, rest)
  | '\\' :: 'U' :: a :: b :: c :: d :: e :: f :: g :: h :: rest => do
    let x ← escaped? [a, b, c, d, e, f, g, h]
    let (cs, rest) ← basicString rest
    return (x :: cs, rest)
  | '\\' :: c :: rest => do
    let x ← escapes.lookup c
    let (cs, rest) ← basicString rest
    return (x :: cs, rest)
  | c :: rest =>
    if isControl c || c == '\\' then none
    else do
      let (cs, rest) ← basicString rest
      return (c :: cs, rest)
  | [] => none

/-- The rest of a string in single quotes, and what follows it. -/
def literalString (cs : List Char) : Option (List Char × List Char) :=
  match cs.dropWhile (· != '\'') with
  | [] => none
  | _ :: rest =>
    let text := cs.takeWhile (· != '\'')
    if text.any isControl then none else some (text, rest)

/-- A string in single quotes of either kind, and what follows it. -/
def quoted : List Char → Option (List Char × List Char)
  | '"' :: rest => basicString rest
  | '\'' :: rest => literalString rest
  | _ => none

/-! ## Strings in triple quotes -/

/-- The quotes at the end of a string in triple quotes, of which up to two are its own. -/
def closing? (quote : Char) (cs : List Char) : Option (List Char × List Char) :=
  match (cs.takeWhile (· == quote)).length with
  | 3 => some ([], cs.drop 3)
  | 4 => some ([quote], cs.drop 4)
  | 5 => some ([quote, quote], cs.drop 5)
  | _ => none

/-- What follows blank space and line breaks. -/
def skipGap (cs : List Char) : List Char := cs.dropWhile fun c => isBlank c || c == '\n'

theorem length_skipGap_le (cs : List Char) : (skipGap cs).length ≤ cs.length :=
  (List.dropWhile_sublist _).length_le

/-- The text of a string in three double quotes, and what follows it. A backslash at the end of a
line hides the line break and all blank space behind it. -/
def longBasicString (cs : List Char) : Option (List Char × List Char) :=
  match closing? '"' cs with
  | some found => some found
  | none =>
    match cs with
    | '\\' :: 'u' :: a :: b :: c :: d :: rest => do
      let x ← escaped? [a, b, c, d]
      let (cs, rest) ← longBasicString rest
      return (x :: cs, rest)
    | '\\' :: 'U' :: a :: b :: c :: d :: e :: f :: g :: h :: rest => do
      let x ← escaped? [a, b, c, d, e, f, g, h]
      let (cs, rest) ← longBasicString rest
      return (x :: cs, rest)
    | '\\' :: c :: rest =>
      match escapes.lookup c with
      | some x => do
        let (cs, rest) ← longBasicString rest
        return (x :: cs, rest)
      | none =>
        -- at the end of a line
        if ((c :: rest).dropWhile isBlank).head? = some '\n' then
          longBasicString (skipGap (c :: rest))
        else none
    | c :: rest =>
      if (isControl c && c != '\n') || c == '\\' then none
      else do
        let (cs, rest) ← longBasicString rest
        return (c :: cs, rest)
    | [] => none
termination_by cs.length
decreasing_by
  all_goals simp_wf
  all_goals first
    | omega
    | (have hgap := length_skipGap_le (c :: rest)
       simp only [List.length_cons] at hgap
       omega)

/-- The text of a string in three single quotes, and what follows it. -/
def longLiteralString (cs : List Char) : Option (List Char × List Char) :=
  match closing? '\'' cs with
  | some found => some found
  | none =>
    match cs with
    | c :: rest =>
      if isControl c && c != '\n' then none
      else do
        let (cs, rest) ← longLiteralString rest
        return (c :: cs, rest)
    | [] => none

/-- Text without a line break at its start. -/
def trimBreak : List Char → List Char
  | '\n' :: cs => cs
  | cs => cs

/-- A string as a value, and what follows it. -/
def stringValue : List Char → Option (List Char × List Char)
  | '"' :: '"' :: '"' :: rest => longBasicString (trimBreak rest)
  | '\'' :: '\'' :: '\'' :: rest => longLiteralString (trimBreak rest)
  | cs => quoted cs

/-! ## Integers -/

/-- The number that digits of a radix spell, with single underscores between digits. -/
def grouped? (radix : Nat) (cs : List Char) : Option Nat :=
  if (Text.splitOn '_' cs).any List.isEmpty then none else digits? radix (cs.filter (· != '_'))

/-- A decimal number without a leading zero. -/
def decimal? (cs : List Char) : Option Nat :=
  match cs with
  | '0' :: _ :: _ => none
  | _ => grouped? 10 cs

/-- The integer that a token spells. -/
def integer? (cs : List Char) : Option Int := do
  let n ← match cs with
    | '0' :: 'x' :: rest => Int.ofNat <$> grouped? 16 rest
    | '0' :: 'o' :: rest => Int.ofNat <$> grouped? 8 rest
    | '0' :: 'b' :: rest => Int.ofNat <$> grouped? 2 rest
    | '+' :: rest => Int.ofNat <$> decimal? rest
    | '-' :: rest => (fun n => -(Int.ofNat n)) <$> decimal? rest
    | _ => Int.ofNat <$> decimal? cs
  if Int64.minValue.toInt ≤ n ∧ n ≤ Int64.maxValue.toInt then some n else none

/-! ## Lines -/

/-- A key, and what follows it. -/
def key (cs : List Char) : Option (List Char × List Char) :=
  match quoted cs with
  | some found => some found
  | none =>
    let bare := cs.takeWhile isBareKey
    if bare.isEmpty then none else some (bare, cs.drop bare.length)

/-- Whether nothing but blanks and a comment is left of a line. -/
def isRest (cs : List Char) : Bool :=
  match cs.dropWhile isBlank with
  | [] => true
  | '#' :: comment => !comment.any isControl
  | _ => false

/-- What follows a sign with blanks on both sides of it. -/
def expect? (sign : Char) (cs : List Char) : Option (List Char) :=
  match cs.dropWhile isBlank with
  | [] => none
  | c :: rest => if c = sign then some (rest.dropWhile isBlank) else none

/-- What follows an empty table or an empty array. -/
def emptyValue? (cs : List Char) : Option (List Char) :=
  (expect? '\x7b' cs >>= expect? '\x7d') <|> (expect? '[' cs >>= expect? ']')

/-- The name in a table that holds nothing but an empty value by that name, and what follows the
table. -/
def choice (cs : List Char) : Option (List Char × List Char) := do
  let (name, rest) ← key (← expect? '\x7b' cs)
  let rest ← emptyValue? (← expect? '=' rest)
  return (name, ← expect? '\x7d' rest)

/-- A value, and what follows it. -/
def value (cs : List Char) : Option (SettingValue × List Char) :=
  match stringValue cs <|> choice cs with
  | some (text, rest) => some (.text (String.ofList text), rest)
  | none =>
    let token := cs.takeWhile fun c => !isBlank c && c != '#'
    let rest := cs.drop token.length
    if token = "true".toList then some (.flag true, rest)
    else if token = "false".toList then some (.flag false, rest)
    else (integer? token).map fun n => (.integer n, rest)

/-- The entry of a line, none for a line without one; or nothing for a line that is malformed. -/
def line (cs : List Char) : Option (Option (String × SettingValue)) :=
  if isRest cs then some none
  else do
    let (name, rest) ← key (cs.dropWhile isBlank)
    let (found, rest) ← value (← expect? '=' rest)
    if isRest rest then some (some (String.ofList name, found)) else none

/-- The entries of some lines, of which the first has a number; `seen` holds earlier keys. -/
def entries (number : Nat) (seen : List String) :
    List (List Char) → Except SettingsError (List (String × SettingValue))
  | [] => .ok []
  | cs :: lines =>
    match line cs with
    | none => .error (.syntaxError number)
    | some none => entries (number + 1) seen lines
    | some (some (name, found)) =>
      if name ∈ seen then .error (.repeatedKey name)
      else do
        let others ← entries (number + 1 + cs.count '\n') (name :: seen) lines
        return (name, found) :: others

end NativeHeaders.Toml

namespace NativeHeaders

/-- The settings in the text of a settings file, which may start with a byte order mark. -/
def Settings.ofToml (text : String) : Except SettingsError Settings := do
  let document := match text.toList with
    | '\uFEFF' :: cs => cs
    | cs => cs
  let entries ← Toml.entries 1 [] (Toml.logicalLines .plain (Toml.unifyBreaks document))
  ofEntries entries

end NativeHeaders
