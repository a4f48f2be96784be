namespace GrammarListing

/-! Texts are lists of Unicode scalar values.  White space is the Unicode property
`White_Space`, and trimming removes it from both ends. -/

abbrev Text := List Char

def isWhite (c : Char) : Bool :=
  (9 ≤ c.toNat && c.toNat ≤ 13) || c.toNat == 0x20 || c.toNat == 0x85 ||
    c.toNat == 0xA0 || c.toNat == 0x1680 ||
    (0x2000 ≤ c.toNat && c.toNat ≤ 0x200A) || c.toNat == 0x2028 ||
    c.toNat == 0x2029 || c.toNat == 0x202F || c.toNat == 0x205F ||
    c.toNat == 0x3000

namespace Text

def trimStart (text : Text) : Text :=
  text.dropWhile isWhite

def trimEnd (text : Text) : Text :=
  (text.reverse.dropWhile isWhite).reverse

def trim (text : Text) : Text :=
  text.trimStart.trimEnd

def isHexDigit (c : Char) : Bool :=
  c.isDigit || ('a' ≤ c && c ≤ 'f') || ('A' ≤ c && c ≤ 'F')

def digitValue (c : Char) : Nat :=
  if c.isDigit then c.toNat - '0'.toNat
  else if 'a' ≤ c then c.toNat - 'a'.toNat + 10
  else c.toNat - 'A'.toNat + 10

def valueOfDigits (base : Nat) (digits : List Char) : Nat :=
  digits.foldl (fun value digit => value * base + digitValue digit) 0

def hexNumber? (count : Nat) (text : Text) : Option (Nat × Text) :=
  let digits := text.take count
  if digits.length = count ∧ digits.all isHexDigit then
    some (valueOfDigits 16 digits, text.drop count)
  else none

def charOfCode? (code : Nat) : Option Char :=
  if code.isValidChar then some (Char.ofNat code) else none

end Text

/-! Lines.  A break is CR LF, CR alone or LF alone, and a text is cut at every break with no
pair split in two.  The lines of a text are its pieces once one final break is dropped. -/

inductive Break where
  | crlf
  | cr
  | lf
deriving DecidableEq

def Break.text : Break → Text
  | .crlf => ['\r', '\n']
  | .cr => ['\r']
  | .lf => ['\n']

structure Pieces where
  first : Text
  rest : List (Break × Text)
deriving DecidableEq

namespace Pieces

/-- Puts one character in front.  A CR that meets the break LF makes it CR LF. -/
def cons (c : Char) (pieces : Pieces) : Pieces :=
  if c = '\n' then ⟨[], (.lf, pieces.first) :: pieces.rest⟩
  else if c = '\r' then
    match pieces with
    | ⟨[], (.lf, next) :: rest⟩ => ⟨[], (.crlf, next) :: rest⟩
    | ⟨first, rest⟩ => ⟨[], (.cr, first) :: rest⟩
  else ⟨c :: pieces.first, pieces.rest⟩

def ofText (text : Text) : Pieces :=
  text.foldr cons ⟨[], []⟩

def texts (pieces : Pieces) : List Text :=
  pieces.first :: pieces.rest.map (·.2)

def breaks (pieces : Pieces) : List Break :=
  pieces.rest.map (·.1)

def source (pieces : Pieces) : Text :=
  pieces.first ++ pieces.rest.flatMap fun piece => piece.1.text ++ piece.2

@[simp] theorem ofText_nil : ofText [] = ⟨[], []⟩ := rfl

@[simp] theorem ofText_cons (c : Char) (text : Text) :
    ofText (c :: text) = cons c (ofText text) := rfl

end Pieces

namespace Text

def splitBreaks (text : Text) : List Text :=
  (Pieces.ofText text).texts

def dropFinalBreak (text : Text) : Text :=
  match text.reverse with
  | '\n' :: '\r' :: body => body.reverse
  | '\n' :: body => body.reverse
  | '\r' :: body => body.reverse
  | _ => text

def lines (text : Text) : List Text :=
  match text with
  | [] => []
  | _ => splitBreaks text.dropFinalBreak

@[simp] theorem lines_nil : lines [] = [] := rfl

end Text

def Text.joinLines (lines : List (Text × Break)) : Text :=
  lines.flatMap fun line => line.1 ++ line.2.text

/-! Text and bytes.  A decoder reads one byte at a time and remembers what an unfinished
sequence still owes: how many bytes, and the range the next one must lie in.  Every maximal
run of bytes that cannot become a character is one malformed unit. -/

abbrev Bytes := List UInt8

def Text.encode (text : Text) : Bytes :=
  text.flatMap String.utf8EncodeChar

def Text.byteLength (text : Text) : Nat :=
  text.foldr (fun c length => c.utf8Size + length) 0

@[simp] theorem Text.encode_nil : Text.encode [] = [] := rfl

@[simp] theorem Text.encode_cons (c : Char) (text : Text) :
    Text.encode (c :: text) = String.utf8EncodeChar c ++ Text.encode text := rfl

@[simp] theorem Text.encode_append (first second : Text) :
    Text.encode (first ++ second) = first.encode ++ second.encode := by
  simp [Text.encode]

@[simp] theorem Text.byteLength_nil : Text.byteLength [] = 0 := rfl

@[simp] theorem Text.byteLength_cons (c : Char) (text : Text) :
    Text.byteLength (c :: text) = c.utf8Size + text.byteLength := rfl

/-- What a started sequence still owes: `more` bytes after the next one, which lies between
`low` and `high`, and the bits gathered so far. -/
structure Owed where
  more : Nat
  low : UInt8
  high : UInt8
  bits : Nat

inductive LeadByte where
  | character (c : Char)
  | sequence (owed : Owed)
  | malformed

def LeadByte.ofByte (byte : UInt8) : LeadByte :=
  if byte < 0x80 then .character (Char.ofNat byte.toNat)
  else if byte < 0xC2 then .malformed
  else if byte < 0xE0 then .sequence ⟨0, 0x80, 0xBF, byte.toNat - 0xC0⟩
  else if byte = 0xE0 then .sequence ⟨1, 0xA0, 0xBF, 0⟩
  else if byte = 0xED then .sequence ⟨1, 0x80, 0x9F, 13⟩
  else if byte < 0xF0 then .sequence ⟨1, 0x80, 0xBF, byte.toNat - 0xE0⟩
  else if byte = 0xF0 then .sequence ⟨2, 0x90, 0xBF, 0⟩
  else if byte < 0xF4 then .sequence ⟨2, 0x80, 0xBF, byte.toNat - 0xF0⟩
  else if byte = 0xF4 then .sequence ⟨2, 0x80, 0x8F, 4⟩
  else .malformed

/-- The decoder's units come last first; a malformed one is `none`. -/
structure Decoder where
  owed : Option Owed
  units : List (Option Char)

namespace Decoder

def start : Decoder := ⟨none, []⟩

def lead (units : List (Option Char)) (byte : UInt8) : Decoder :=
  match LeadByte.ofByte byte with
  | .character c => ⟨none, some c :: units⟩
  | .sequence owed => ⟨some owed, units⟩
  | .malformed => ⟨none, none :: units⟩

/-- A byte outside the owed range ends the unfinished sequence and is read again as a start. -/
def push (decoder : Decoder) (byte : UInt8) : Decoder :=
  match decoder.owed with
  | none => lead decoder.units byte
  | some owed =>
      if owed.low ≤ byte ∧ byte ≤ owed.high then
        let bits := owed.bits * 64 + byte.toNat % 64
        match owed.more with
        | 0 => ⟨none, some (Char.ofNat bits) :: decoder.units⟩
        | more + 1 => ⟨some ⟨more, 0x80, 0xBF, bits⟩, decoder.units⟩
      else lead (none :: decoder.units) byte

def finish (decoder : Decoder) : List (Option Char) :=
  match decoder.owed with
  | none => decoder.units.reverse
  | some _ => (none :: decoder.units).reverse

end Decoder

namespace Bytes

def units (bytes : Bytes) : List (Option Char) :=
  (bytes.foldl Decoder.push Decoder.start).finish

def replacement : Char := Char.ofNat 0xFFFD

/-- Reads any bytes, with one replacement character for each malformed unit. -/
def decodeLossy (bytes : Bytes) : Text :=
  bytes.units.map (·.getD replacement)

def decode? (bytes : Bytes) : Option Text :=
  bytes.units.mapM id

end Bytes

end GrammarListing
