import DemandSignal.Json.Value

/-!
# JSON text

`dumps` is the compact rendering with ASCII escapes, `loads` the reader. Reading back what was
rendered gives the value, so the rendering identifies it.
-/

namespace DemandSignal.Json

/-! ### Rendering -/

def hexDigit (n : Nat) : Char := "0123456789abcdef".toList.getD n '0'

def hexDigits (n : Nat) : List Char :=
  [hexDigit (n / 4096 % 16), hexDigit (n / 256 % 16), hexDigit (n / 16 % 16), hexDigit (n % 16)]

def escapeUnit (n : Nat) : List Char := '\\' :: 'u' :: hexDigits n

/-- One character of a string. Characters past the basic plane take a surrogate pair. -/
def escapeChar (c : Char) : List Char :=
  if c = '"' then ['\\', '"']
  else if c = '\\' then ['\\', '\\']
  else if c = '\n' then ['\\', 'n']
  else if c = '\r' then ['\\', 'r']
  else if c = '\t' then ['\\', 't']
  else if c.toNat = 8 then ['\\', 'b']
  else if c.toNat = 12 then ['\\', 'f']
  else if 32 ≤ c.toNat ∧ c.toNat ≤ 126 then [c]
  else if c.toNat < 0x10000 then escapeUnit c.toNat
  else escapeUnit (0xd800 + (c.toNat - 0x10000) / 0x400) ++
    escapeUnit (0xdc00 + (c.toNat - 0x10000) % 0x400)

def quote (s : String) : List Char := '"' :: (s.toList.flatMap escapeChar ++ ['"'])

mutual

def dumps : Json → List Char
  | .null => "null".toList
  | .bool true => "true".toList
  | .bool false => "false".toList
  | .num n => n.text
  | .str s => quote s
  | .arr [] => ['[', ']']
  | .arr (x :: xs) => '[' :: (dumps x ++ dumpsList xs ++ [']'])
  | .obj [] => ['{', '}']
  | .obj ((k, v) :: rest) => '{' :: (quote k ++ ':' :: dumps v ++ dumpsFields rest ++ ['}'])

/-- The elements after the first. -/
def dumpsList : List Json → List Char
  | [] => []
  | x :: xs => ',' :: (dumps x ++ dumpsList xs)

/-- The fields after the first. -/
def dumpsFields : Fields → List Char
  | [] => []
  | (k, v) :: rest => ',' :: (quote k ++ ':' :: dumps v ++ dumpsFields rest)

end

/-! ### Reading -/

def isSpace (c : Char) : Bool := c == ' ' || c == '\t' || c == '\n' || c == '\r'

def skipSpace (cs : List Char) : List Char := cs.dropWhile isSpace

def hexVal (c : Char) : Option Nat :=
  if '0' ≤ c ∧ c ≤ '9' then some (c.toNat - 48)
  else if 'a' ≤ c ∧ c ≤ 'f' then some (c.toNat - 87)
  else if 'A' ≤ c ∧ c ≤ 'F' then some (c.toNat - 55)
  else none

def readUnit : List Char → Option (Nat × List Char)
  | a :: b :: c :: d :: rest =>
      match hexVal a, hexVal b, hexVal c, hexVal d with
      | some a, some b, some c, some d => some (4096 * a + 256 * b + 16 * c + d, rest)
      | _, _, _, _ => none
  | _ => none

/-- What follows a backslash and a `u`. A lone surrogate, which is no `Char`, reads as `U+0000`:
neither can be stored. -/
def readUnicode (cs : List Char) : Option (Char × List Char) :=
  match readUnit cs with
  | none => none
  | some (n, rest) =>
    if 0xd800 ≤ n ∧ n < 0xdc00 then
      match rest with
      | '\\' :: 'u' :: rest' =>
          match readUnit rest' with
          | some (m, rest'') =>
              if 0xdc00 ≤ m ∧ m < 0xe000 then
                some (Char.ofNat (0x10000 + (n - 0xd800) * 0x400 + (m - 0xdc00)), rest'')
              else some (Char.ofNat n, rest)
          | none => none
      | _ => some (Char.ofNat n, rest)
    else some (Char.ofNat n, rest)

/-- What follows a backslash. -/
def readEscape : List Char → Option (Char × List Char)
  | '"' :: rest => some ('"', rest)
  | '\\' :: rest => some ('\\', rest)
  | '/' :: rest => some ('/', rest)
  | 'b' :: rest => some (Char.ofNat 8, rest)
  | 'f' :: rest => some (Char.ofNat 12, rest)
  | 'n' :: rest => some ('\n', rest)
  | 'r' :: rest => some ('\r', rest)
  | 't' :: rest => some ('\t', rest)
  | 'u' :: rest => readUnicode rest
  | _ => none

/-- The characters of a string up to its closing quote. -/
def readChars : Nat → List Char → Option (List Char × List Char)
  | 0, _ => none
  | _ + 1, [] => none
  | fuel + 1, c :: rest =>
      if c = '"' then some ([], rest)
      else if c = '\\' then
        match readEscape rest with
        | none => none
        | some (c, rest) => (readChars fuel rest).map fun (cs, rest) => (c :: cs, rest)
      else if c.toNat < 32 then none
      else (readChars fuel rest).map fun (cs, rest) => (c :: cs, rest)

def readString (cs : List Char) : Option (String × List Char) :=
  (readChars (cs.length + 1) cs).map fun (cs, rest) => (String.ofList cs, rest)

def isNumeralChar (c : Char) : Bool := c.isDigit || "+-.eENaInfity".toList.contains c

variable (number : List Char → Numeral)

def readNumeral (cs : List Char) : Option (Json × List Char) :=
  if isNumeral (cs.takeWhile isNumeralChar) then
    some (.num (number (cs.takeWhile isNumeralChar)), cs.dropWhile isNumeralChar)
  else none

/-- One more pair of a `dict` under construction: the last value of a key wins. -/
def setField (fields : Fields) (pair : String × Json) : Fields :=
  if pair.1 ∈ fields.map Prod.fst then
    fields.map fun p => if p.1 = pair.1 then (p.1, pair.2) else p
  else fields ++ [pair]

def dict (pairs : Fields) : Fields := pairs.foldl setField []

mutual

def readValue : Nat → List Char → Option (Json × List Char)
  | 0, _ => none
  | fuel + 1, cs =>
      match skipSpace cs with
      | '"' :: rest => (readString rest).map fun (s, rest) => (.str s, rest)
      | '[' :: rest =>
          match skipSpace rest with
          | ']' :: rest => some (.arr [], rest)
          | rest => (readElements fuel rest).map fun (xs, rest) => (.arr xs, rest)
      | '{' :: rest =>
          match skipSpace rest with
          | '}' :: rest => some (.obj [], rest)
          | rest => (readMembers fuel rest).map fun (ps, rest) => (.obj (dict ps), rest)
      | 't' :: 'r' :: 'u' :: 'e' :: rest => some (.bool true, rest)
      | 'f' :: 'a' :: 'l' :: 's' :: 'e' :: rest => some (.bool false, rest)
      | 'n' :: 'u' :: 'l' :: 'l' :: rest => some (.null, rest)
      | rest => readNumeral number rest

/-- The elements of an array up to its closing bracket. -/
def readElements : Nat → List Char → Option (List Json × List Char)
  | 0, _ => none
  | fuel + 1, cs =>
      match readValue fuel cs with
      | none => none
      | some (x, rest) =>
          match skipSpace rest with
          | ',' :: rest => (readElements fuel rest).map fun (xs, rest) => (x :: xs, rest)
          | ']' :: rest => some ([x], rest)
          | _ => none

/-- The members of an object up to its closing brace. -/
def readMembers : Nat → List Char → Option (Fields × List Char)
  | 0, _ => none
  | fuel + 1, cs =>
      match skipSpace cs with
      | '"' :: rest =>
          match readString rest with
          | none => none
          | some (k, rest) =>
              match skipSpace rest with
              | ':' :: rest =>
                  match readValue fuel rest with
                  | none => none
                  | some (v, rest) =>
                      match skipSpace rest with
                      | ',' :: rest =>
                          (readMembers fuel rest).map fun (ps, rest) => ((k, v) :: ps, rest)
                      | '}' :: rest => some ([(k, v)], rest)
                      | _ => none
              | _ => none
      | _ => none

end

/-- `json.loads`; `none` stands for a `JSONDecodeError`. -/
def loads (cs : List Char) : Option Json :=
  match readValue number (cs.length + 1) cs with
  | some (j, rest) => if skipSpace rest = [] then some j else none
  | none => none

end DemandSignal.Json
