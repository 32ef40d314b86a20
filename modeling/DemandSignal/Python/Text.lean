import DemandSignal.Json.Value

/-!
# Python text and truth

The string operations the services use, and the truth value and `str` of a JSON value.
-/

namespace DemandSignal.Python

/-- `str.isspace` of a character, which `strip`, `split` and the pattern `\s` share. -/
def isSpace (c : Char) : Bool :=
  let n := c.toNat
  (9 ≤ n && n ≤ 13) || (28 ≤ n && n ≤ 32) || n == 0x85 || n == 0xa0 || n == 0x1680 ||
    (0x2000 ≤ n && n ≤ 0x200a) || n == 0x2028 || n == 0x2029 || n == 0x202f || n == 0x205f ||
    n == 0x3000

def stripChars (cs : List Char) : List Char :=
  ((cs.dropWhile isSpace).reverse.dropWhile isSpace).reverse

def strip (s : String) : String := String.ofList (stripChars s.toList)

/-- `str.split()`: the runs of characters between spaces. -/
def splitChars : List Char → List (List Char)
  | [] => []
  | c :: cs =>
      if isSpace c then splitChars cs
      else
        match cs, splitChars cs with
        | d :: _, word :: words => if isSpace d then [c] :: word :: words else (c :: word) :: words
        | _, words => [c] :: words

def split (s : String) : List String := (splitChars s.toList).map String.ofList

/-- `s[:n]`. -/
def take (n : Nat) (s : String) : String := String.ofList (s.toList.take n)

/-- An f-string: the parts in a row. -/
def concat (parts : List String) : String := String.ofList (parts.flatMap String.toList)

/-- The database stores no text with `U+0000` in it. -/
def storable (s : String) : Bool := !s.toList.contains (Char.ofNat 0)

/-- `s or default`, on a string that may be missing. -/
def orElse (s : Option String) (default : String) : String :=
  match s with
  | some s => if s = "" then default else s
  | none => default

/-- `s or None`. -/
def orNone (s : String) : Option String := if s = "" then none else some s

/-- `s.replace("Z", "+00:00")`. -/
def replaceZ (s : String) : String :=
  String.ofList (s.toList.flatMap fun c => if c = 'Z' then "+00:00".toList else [c])

end DemandSignal.Python

namespace DemandSignal.Json

/-- The mantissa digits of a literal. -/
def mantissa (cs : List Char) : List Char := cs.takeWhile fun c => c != 'e' && c != 'E'

def text? : Json → Option String
  | .str s => some s
  | _ => none

/-- `bool(value)`. -/
def truthy : Json → Bool
  | .null => false
  | .bool b => b
  | .num n => isSpecial n.text || (mantissa n.text).any fun c => c.isDigit && c != '0'
  | .str s => s ≠ ""
  | .arr xs => !xs.isEmpty
  | .obj fields => !fields.isEmpty

/-- `str` of a number: its literal, except for the values JSON has no name for. -/
def Numeral.str (n : Numeral) : String :=
  if n.text = "NaN".toList then "nan"
  else if n.text = "Infinity".toList then "inf"
  else if n.text = "-Infinity".toList then "-inf"
  else String.ofList n.text

/-- `str(value)`; `container` renders lists and dicts. -/
def pyStr (container : Json → String) : Json → String
  | .null => "None"
  | .bool true => "True"
  | .bool false => "False"
  | .num n => Numeral.str n
  | .str s => s
  | j => container j

mutual

/-- The database stores the value: no `U+0000` in a string or a key, no `NaN` and no infinity. -/
def storable : Json → Bool
  | .null => true
  | .bool _ => true
  | .num n => !isSpecial n.text
  | .str s => Python.storable s
  | .arr xs => storableList xs
  | .obj fields => storableFields fields

def storableList : List Json → Bool
  | [] => true
  | x :: xs => storable x && storableList xs

def storableFields : Fields → Bool
  | [] => true
  | (k, v) :: rest => Python.storable k && storable v && storableFields rest

end

end DemandSignal.Json
