/-!
# JSON

**Values** (`Json`) keep what the text says: members in order and with repetitions, numbers by
their digits. A string whose escapes name half a surrogate pair is kept as no string at all, so
that it can stand where its value does not matter.

**Reading** follows the grammar exactly: no leading zeros, no control characters inside strings,
nothing after the value.

**Writing** is compact, or indented by two spaces a level.
-/

namespace Wager

inductive Json
  | null
  | bool (value : Bool)
  | number (digits : List Char)
  | string (value : Option String)
  | array (items : List Json)
  | object (members : List (Option String × Json))

namespace Json

/-! ## Reading -/

def isBlank (c : Char) : Bool := c = ' ' || c = '\n' || c = '\t' || c = '\r'

def skipBlank (cs : List Char) : List Char := cs.dropWhile isBlank

def hexValue? (c : Char) : Option Nat :=
  if '0' ≤ c && c ≤ '9' then some (c.toNat - 48)
  else if 'a' ≤ c && c ≤ 'f' then some (c.toNat - 87)
  else if 'A' ≤ c && c ≤ 'F' then some (c.toNat - 55)
  else none

/-- The code unit written by four digits. -/
def unit? (a b c d : Char) : Option Nat := do
  return ((← hexValue? a) * 16 + (← hexValue? b)) * 256 + (← hexValue? c) * 16 + (← hexValue? d)

def letterEscape? : Char → Option Char
  | '"' => some '"'
  | '\\' => some '\\'
  | '/' => some '/'
  | 'b' => some '\x08'
  | 'f' => some '\x0c'
  | 'n' => some '\n'
  | 'r' => some '\r'
  | 't' => some '\t'
  | _ => none

/-- Reads the code units of a string up to its closing quote. -/
def stringUnits? (units : List Nat) : List Char → Option (List Nat × List Char)
  | [] => none
  | '"' :: rest => some (units.reverse, rest)
  | '\\' :: 'u' :: a :: b :: c :: d :: rest =>
    match unit? a b c d with
    | some u => stringUnits? (u :: units) rest
    | none => none
  | '\\' :: c :: rest =>
    match letterEscape? c with
    | some e => stringUnits? (e.toNat :: units) rest
    | none => none
  | c :: rest => if c.toNat < 0x20 then none else stringUnits? (c.toNat :: units) rest

def isHigh (u : Nat) : Bool := 0xd800 ≤ u && u < 0xdc00

def isLow (u : Nat) : Bool := 0xdc00 ≤ u && u < 0xe000

/-- The text of code units, in which surrogates stand in pairs. -/
def ofUnits? : List Nat → Option (List Char)
  | [] => some []
  | [u] => if isHigh u || isLow u then none else some [Char.ofNat u]
  | u :: v :: rest =>
    if isHigh u then
      if isLow v then
        (ofUnits? rest).map (Char.ofNat (0x10000 + (u - 0xd800) * 0x400 + (v - 0xdc00)) :: ·)
      else none
    else if isLow u then none
    else (ofUnits? (v :: rest)).map (Char.ofNat u :: ·)

/-- Reads a string after its opening quote. -/
def string? (cs : List Char) : Option (Option String × List Char) :=
  (stringUnits? [] cs).map fun (units, rest) => ((ofUnits? units).map String.ofList, rest)

/-- One digit or more. -/
def digits? (cs : List Char) : Option (List Char × List Char) :=
  let ds := cs.takeWhile Char.isDigit
  if ds.isEmpty then none else some (ds, cs.dropWhile Char.isDigit)

/-- Digits of which the first is zero only if it is the last. -/
def integer? (cs : List Char) : Option (List Char × List Char) := do
  let (ds, rest) ← digits? cs
  if ds.length = 1 ∨ ds.head? ≠ some '0' then some (ds, rest) else none

def fraction? : List Char → Option (List Char × List Char)
  | '.' :: rest => (digits? rest).map fun (ds, rest) => ('.' :: ds, rest)
  | rest => some ([], rest)

def exponent? : List Char → Option (List Char × List Char)
  | c :: rest =>
    if c = 'e' || c = 'E' then
      let (sign, rest) := match rest with
        | '+' :: rest => (['+'], rest)
        | '-' :: rest => (['-'], rest)
        | rest => ([], rest)
      (digits? rest).map fun (ds, rest) => (c :: sign ++ ds, rest)
    else some ([], c :: rest)
  | [] => some ([], [])

def number? (cs : List Char) : Option (List Char × List Char) := do
  let (sign, rest) := match cs with
    | '-' :: rest => (['-'], rest)
    | rest => ([], rest)
  let (whole, rest) ← integer? rest
  let (part, rest) ← fraction? rest
  let (power, rest) ← exponent? rest
  return (sign ++ whole ++ part ++ power, rest)

mutual

/-- Reads a value; `fuel` bounds the nesting and the number of items. -/
def value? : (fuel : Nat) → List Char → Option (Json × List Char)
  | 0, _ => none
  | fuel + 1, cs =>
    match skipBlank cs with
    | 'n' :: 'u' :: 'l' :: 'l' :: rest => some (.null, rest)
    | 't' :: 'r' :: 'u' :: 'e' :: rest => some (.bool true, rest)
    | 'f' :: 'a' :: 'l' :: 's' :: 'e' :: rest => some (.bool false, rest)
    | '"' :: rest => (string? rest).map fun (s, rest) => (.string s, rest)
    | '[' :: rest =>
      match skipBlank rest with
      | ']' :: rest => some (.array [], rest)
      | rest => (items? fuel rest).map fun (items, rest) => (.array items, rest)
    | '\x7b' :: rest =>
      match skipBlank rest with
      | '\x7d' :: rest => some (.object [], rest)
      | rest => (members? fuel rest).map fun (members, rest) => (.object members, rest)
    | rest => (number? rest).map fun (digits, rest) => (.number digits, rest)

/-- Reads the items of an array up to its closing bracket. -/
def items? : (fuel : Nat) → List Char → Option (List Json × List Char)
  | 0, _ => none
  | fuel + 1, cs => do
    let (item, rest) ← value? fuel cs
    match skipBlank rest with
    | ',' :: rest => (items? fuel rest).map fun (items, rest) => (item :: items, rest)
    | ']' :: rest => some ([item], rest)
    | _ => none

/-- Reads the members of an object up to its closing brace. -/
def members? : (fuel : Nat) → List Char → Option (List (Option String × Json) × List Char)
  | 0, _ => none
  | fuel + 1, cs => do
    let rest ← match skipBlank cs with
      | '"' :: rest => some rest
      | _ => none
    let (name, rest) ← string? rest
    let rest ← match skipBlank rest with
      | ':' :: rest => some rest
      | _ => none
    let (value, rest) ← value? fuel rest
    match skipBlank rest with
    | ',' :: rest =>
      (members? fuel rest).map fun (members, rest) => ((name, value) :: members, rest)
    | '\x7d' :: rest => some ([(name, value)], rest)
    | _ => none

end

/-- The value that a text denotes. -/
def parse? (text : String) : Option Json := do
  let cs := text.toList
  let (value, rest) ← value? (cs.length + 1) cs
  if (skipBlank rest).isEmpty then some value else none

/-! ## Typed access -/

/-- The number below `bound` that stands here. -/
def nat? (bound : Nat) : Json → Option Nat
  | .number digits =>
    let n := digits.foldl (fun n c => 10 * n + (c.toNat - 48)) 0
    if digits.all Char.isDigit && n < bound then some n else none
  | _ => none

def text? : Json → Option String
  | .string value => value
  | _ => none

def items : Json → Option (List Json)
  | .array items => some items
  | _ => none

/-- The members with this name, among members that all have one. -/
def named (name : String) (members : List (Option String × Json)) : List Json :=
  members.filterMap fun (n, value) => if n = some name then some value else none

/-- What a record holds for each of its fields, if anything. A record is written as an object, in
which a field must not be repeated and other names mean nothing, or as an array of the fields in
order, from which the last ones may be missing. -/
def fields? (names : List String) : Json → Option (List (Option Json))
  | .object members =>
    if members.all (·.1.isSome) then
      names.mapM fun name =>
        match named name members with
        | [] => some none
        | [value] => some (some value)
        | _ => none
    else none
  | .array items =>
    if items.length ≤ names.length then
      some (items.map some ++ List.replicate (names.length - items.length) none)
    else none
  | _ => none

/-- The choice that a name stands for, written as a string or as an object of that name and
null. -/
def choice? {α : Type} (choices : List (String × α)) : Json → Option α
  | .string (some name) => choices.lookup name
  | .object [(some name, .null)] => choices.lookup name
  | _ => none

/-! ## Writing -/

def nat (n : Nat) : Json := .number (Nat.toDigits 10 n)

def text (s : String) : Json := .string (some s)

/-- An object without repetitions. -/
def record (members : List (String × Json)) : Json :=
  .object (members.map fun (name, value) => (some name, value))

def escape (c : Char) : List Char :=
  if c = '"' then ['\\', '"']
  else if c = '\\' then ['\\', '\\']
  else if c = '\x08' then ['\\', 'b']
  else if c = '\x0c' then ['\\', 'f']
  else if c = '\n' then ['\\', 'n']
  else if c = '\r' then ['\\', 'r']
  else if c = '\t' then ['\\', 't']
  else if c.toNat < 0x20 then
    ['\\', 'u', '0', '0', Nat.digitChar (c.toNat / 16), Nat.digitChar (c.toNat % 16)]
  else [c]

def quoted (s : String) : List Char := '"' :: s.toList.flatMap escape ++ ['"']

/-- Where line breaks and blanks go. -/
structure Style where
  /-- What stands between items, and inside brackets, at a level. -/
  lineBreak : Nat → List Char
  colon : List Char

def Style.compact : Style := ⟨fun _ => [], [':']⟩

def Style.indented : Style := ⟨fun level => '\n' :: List.replicate (2 * level) ' ', [':', ' ']⟩

/-- Parts between brackets, one to a line and with commas between them. -/
def bracketed (style : Style) (level : Nat) (first last : Char) (parts : List (List Char)) :
    List Char :=
  if parts.isEmpty then [first, last]
  else
    first :: [','].intercalate (parts.map (style.lineBreak (level + 1) ++ ·)) ++
      style.lineBreak level ++ [last]

mutual

/-- Writes a value whose closing bracket stands at `level`. -/
def write (style : Style) (level : Nat) : Json → List Char
  | .null => ['n', 'u', 'l', 'l']
  | .bool true => ['t', 'r', 'u', 'e']
  | .bool false => ['f', 'a', 'l', 's', 'e']
  | .number digits => digits
  | .string s => quoted (s.getD "")
  | .array items => bracketed style level '[' ']' (writeItems style (level + 1) items)
  | .object members =>
    bracketed style level '\x7b' '\x7d' (writeMembers style (level + 1) members)

def writeItems (style : Style) (level : Nat) : List Json → List (List Char)
  | [] => []
  | item :: items => write style level item :: writeItems style level items

def writeMembers (style : Style) (level : Nat) : List (Option String × Json) → List (List Char)
  | [] => []
  | (name, value) :: members =>
    (quoted (name.getD "") ++ style.colon ++ write style level value) ::
      writeMembers style level members

end

/-- The value on one line, without blanks. -/
def compactText (value : Json) : String := String.ofList (value.write .compact 0)

/-- The value over several lines. -/
def indentedText (value : Json) : String := String.ofList (value.write .indented 0)

end Json

end Wager
