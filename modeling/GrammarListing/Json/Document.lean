import GrammarListing.Decimal
import GrammarListing.Text.Basic
namespace GrammarListing.Json

inductive Value where
  | null
  | boolean (value : Bool)
  | integer (value : Int)
  | float (value : Binary64)
  | string (text : Text)
  | array (items : List Value)
  | object (members : List (Text × Value))

/-- The value of a member; of several with one name the last counts. -/
def Value.member? (value : Value) (name : Text) : Option Value :=
  match value with
  | .object members => members.reverse.lookup name
  | _ => none

/-! Numbers.  One written without point and exponent is a whole number if it fits 64 bits.  Any
other is approximated: the leading digits that fit 64 bits are rounded, and the result is
multiplied by a power of ten, which rounds again. -/

def significandLimit : Nat := Nat.pow 2 64

/-- Appends digits to a significand while it stays below the limit; how many are left over. -/
def gather (significand : Nat) (digits : List Char) : Nat × Nat :=
  match digits with
  | [] => (significand, 0)
  | digit :: rest =>
      let next := significand * 10 + Text.digitValue digit
      if next < significandLimit then gather next rest
      else (significand, rest.length + 1)

def greatestPower : Nat := 308

def powerOfTen (power : Nat) : Binary64 :=
  .ofRatio false (Nat.pow 10 power) 1

def scale? (value : Binary64) (power : Int) : Option Binary64 :=
  if value.isZero then some value
  else if power > greatestPower then none
  else if 0 ≤ power then
    match value.times (powerOfTen power.toNat) with
    | .infinite _ => none
    | product => some product
  else if -power ≤ greatestPower then some (value.dividedBy (powerOfTen (-power).toNat))
  else scale? (value.dividedBy (powerOfTen greatestPower)) (power + greatestPower)
termination_by (-power).toNat
decreasing_by
  simp only [greatestPower] at *
  omega

def exponentDigits? (text : Text) : Option (Int × Text) :=
  let (negative, text) :=
    match text with
    | '-' :: rest => (true, rest)
    | '+' :: rest => (false, rest)
    | _ => (false, text)
  match text.takeWhile Char.isDigit with
  | [] => none
  | digits =>
      let value : Int := Text.valueOfDigits 10 digits
      some (if negative then -value else value, text.dropWhile Char.isDigit)

def exponent? (text : Text) : Option (Int × Text) :=
  match text with
  | c :: rest => if c = 'e' ∨ c = 'E' then exponentDigits? rest else some (0, text)
  | [] => some (0, text)

def fraction? (text : Text) : Option (List Char × Text) :=
  match text with
  | '.' :: rest =>
      match rest.takeWhile Char.isDigit with
      | [] => none
      | digits => some (digits, rest.dropWhile Char.isDigit)
  | _ => some ([], text)

def whole? (text : Text) : Option (List Char × Text) :=
  match text.takeWhile Char.isDigit with
  | [] => none
  | '0' :: _ :: _ => none
  | digits => some (digits, text.dropWhile Char.isDigit)

def integer? (negative : Bool) (value : Nat) : Option Value :=
  if negative then
    if 0 < value ∧ value ≤ Nat.pow 2 63 then some (.integer (-value)) else none
  else if value < significandLimit then some (.integer value)
  else none

def float? (negative : Bool) (whole fraction : List Char) (power : Int) : Option Value := do
  let (leading, left) := gather 0 whole
  let (significand, unused) := gather leading fraction
  let power := power + left - (fraction.length - unused)
  let value ← scale? (.ofRatio false significand 1) power
  return .float (if negative then value.negate else value)

def isFloatRest : Text → Bool
  | c :: _ => c == '.' || c == 'e' || c == 'E'
  | [] => false

def unsigned? (negative : Bool) (text : Text) : Option (Value × Text) := do
  let (whole, rest) ← whole? text
  if isFloatRest rest then
    let (fraction, rest) ← fraction? rest
    let (power, rest) ← exponent? rest
    (float? negative whole fraction power).map (·, rest)
  else
    ((integer? negative (Text.valueOfDigits 10 whole)).or (float? negative whole [] 0)).map
      (·, rest)

def number? (text : Text) : Option (Value × Text) :=
  match text with
  | '-' :: rest => unsigned? true rest
  | _ => unsigned? false text

def isBlank (c : Char) : Bool :=
  c == ' ' || c == '\t' || c == '\n' || c == '\r'

def skipBlanks (text : Text) : Text :=
  text.dropWhile isBlank

/-- The character that an escape of four digits stands for, and the escape's length.  A high
surrogate needs a low one right after it. -/
def codeEscape? (text : Text) : Option (Char × Nat) := do
  let (code, rest) ← Text.hexNumber? 4 text
  if 0xD800 ≤ code ∧ code < 0xDC00 then
    match rest with
    | '\\' :: 'u' :: digits =>
        let (low, _) ← Text.hexNumber? 4 digits
        if 0xDC00 ≤ low ∧ low < 0xE000 then
          (Text.charOfCode? (0x10000 + (code - 0xD800) * 0x400 + (low - 0xDC00))).map (·, 11)
        else none
    | _ => none
  else (Text.charOfCode? code).map (·, 5)

def escape? : Text → Option (Char × Nat)
  | '"' :: _ => some ('"', 1)
  | '\\' :: _ => some ('\\', 1)
  | '/' :: _ => some ('/', 1)
  | 'b' :: _ => some ('\x08', 1)
  | 'f' :: _ => some ('\x0c', 1)
  | 'n' :: _ => some ('\n', 1)
  | 'r' :: _ => some ('\r', 1)
  | 't' :: _ => some ('\t', 1)
  | 'u' :: digits => codeEscape? digits
  | _ => none

def stringBody? (skip : Nat) (read text : Text) : Option (Text × Text) :=
  match text with
  | [] => none
  | c :: rest =>
      match skip with
      | skip + 1 => stringBody? skip read rest
      | 0 =>
          if c = '"' then some (read.reverse, rest)
          else if c = '\\' then
            match escape? rest with
            | some (escaped, length) => stringBody? length (escaped :: read) rest
            | none => none
          else if c.toNat < 0x20 then none
          else stringBody? 0 (c :: read) rest

mutual

/-- Reads a value; `bound` counts the calls. -/
def value? (bound : Nat) (text : Text) : Option (Value × Text) :=
  match bound with
  | 0 => none
  | bound + 1 =>
      match skipBlanks text with
      | 'n' :: 'u' :: 'l' :: 'l' :: rest => some (.null, rest)
      | 't' :: 'r' :: 'u' :: 'e' :: rest => some (.boolean true, rest)
      | 'f' :: 'a' :: 'l' :: 's' :: 'e' :: rest => some (.boolean false, rest)
      | '"' :: rest =>
          (stringBody? 0 [] rest).map fun (text, rest) => (.string text, rest)
      | '[' :: rest =>
          match skipBlanks rest with
          | ']' :: rest => some (.array [], rest)
          | _ => items? bound [] rest
      | '\x7b' :: rest =>
          match skipBlanks rest with
          | '\x7d' :: rest => some (.object [], rest)
          | _ => members? bound [] rest
      | text => number? text

def items? (bound : Nat) (read : List Value) (text : Text) : Option (Value × Text) :=
  match bound with
  | 0 => none
  | bound + 1 =>
      match value? bound text with
      | none => none
      | some (item, rest) =>
          match skipBlanks rest with
          | ',' :: rest => items? bound (item :: read) rest
          | ']' :: rest => some (.array (item :: read).reverse, rest)
          | _ => none

def members? (bound : Nat) (read : List (Text × Value)) (text : Text) : Option (Value × Text) :=
  match bound with
  | 0 => none
  | bound + 1 =>
      match skipBlanks text with
      | '"' :: rest =>
          match stringBody? 0 [] rest with
          | none => none
          | some (name, rest) =>
              match skipBlanks rest with
              | ':' :: rest =>
                  match value? bound rest with
                  | none => none
                  | some (value, rest) =>
                      match skipBlanks rest with
                      | ',' :: rest => members? bound ((name, value) :: read) rest
                      | '\x7d' :: rest =>
                          some (.object ((name, value) :: read).reverse, rest)
                      | _ => none
              | _ => none
      | _ => none

end

def parse? (text : Text) : Option Value :=
  match value? (2 * text.length + 2) text with
  | some (value, rest) => if (skipBlanks rest).isEmpty then some value else none
  | none => none

end GrammarListing.Json
