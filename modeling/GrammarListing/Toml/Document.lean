import GrammarListing.Decimal
import GrammarListing.Toml.Lexeme
namespace GrammarListing.Toml

/-! The values of a TOML document.  A table remembers what made it, for that decides whether it
may be added to. -/

/-- A table is written in braces, opened by a header, implied by the header of a table inside
it, or made by a dotted key. -/
inductive TableOrigin where
  | inline
  | header
  | implied
  | dotted
deriving DecidableEq

inductive Value where
  | string (text : Text)
  | integer (value : Int)
  | float (value : Binary64)
  | boolean (value : Bool)
  | dateTime
  | array (items : List Value)
  | table (origin : TableOrigin) (entries : List (Text × Value))
  | tables (elements : List (List (Text × Value)))

abbrev Entries := List (Text × Value)

namespace Entries

def contains (entries : Entries) (key : Text) : Bool :=
  entries.any (·.1 == key)

def put (entries : Entries) (key : Text) (value : Value) : Entries :=
  entries.map fun entry => if entry.1 == key then (key, value) else entry

def erase (entries : Entries) (key : Text) : Entries :=
  entries.filter (·.1 != key)

/-- Adds a value under a dotted key.  Tables on the way are made, and may only be ones that
dotted keys made or that a header implied; the last of them is one that dotted keys made. -/
def assign? (path : List Text) (value : Value) (entries : Entries) : Option Entries :=
  match path with
  | [] => none
  | [key] => if entries.contains key then none else some (entries ++ [(key, value)])
  | key :: next :: rest =>
      match entries.lookup key with
      | none => do
          let inner ← assign? (next :: rest) value []
          some (entries ++ [(key, .table .dotted inner)])
      | some (.table .dotted inner) => do
          let inner ← assign? (next :: rest) value inner
          some (entries.put key (.table .dotted inner))
      | some (.table .implied inner) =>
          if rest.isEmpty then none
          else do
            let inner ← assign? (next :: rest) value inner
            some (entries.put key (.table .implied inner))
      | some (.tables elements) =>
          if rest.isEmpty then none
          else do
            let last ← elements.getLast?
            let last ← assign? (next :: rest) value last
            some (entries.put key (.tables (elements.dropLast ++ [last])))
      | some _ => none

/-- Goes down to the table that holds the last key of a header and changes it there.  Tables on
the way are implied by the header if they are not there. -/
def descend? (path : List Text) (change : Text → Entries → Option Entries) (entries : Entries) :
    Option Entries :=
  match path with
  | [] => none
  | [key] => change key entries
  | key :: next :: rest =>
      match entries.lookup key with
      | none => do
          let inner ← descend? (next :: rest) change []
          some (entries ++ [(key, .table .implied inner)])
      | some (.table .inline _) => none
      | some (.table origin inner) => do
          let inner ← descend? (next :: rest) change inner
          some (entries.put key (.table origin inner))
      | some (.tables elements) => do
          let last ← elements.getLast?
          let last ← descend? (next :: rest) change last
          some (entries.put key (.tables (elements.dropLast ++ [last])))
      | some _ => none

def assignAll? (pairs : List (List Text × Value)) (entries : Entries) : Option Entries :=
  pairs.foldlM (fun entries pair => entries.assign? pair.1 pair.2) entries

/-- Opens a table with its pairs.  An implied one is opened once, and moves to the end. -/
def openTable? (pairs : List (List Text × Value)) (key : Text) (entries : Entries) :
    Option Entries :=
  match entries.lookup key with
  | none => do
      let inner ← assignAll? pairs []
      some (entries ++ [(key, .table .header inner)])
  | some (.table .implied inner) => do
      let inner ← assignAll? pairs inner
      some (entries.erase key ++ [(key, .table .header inner)])
  | some _ => none

def addTable? (pairs : List (List Text × Value)) (key : Text) (entries : Entries) :
    Option Entries :=
  match entries.lookup key with
  | none => do
      let element ← assignAll? pairs []
      some (entries ++ [(key, .tables [element])])
  | some (.tables elements) => do
      let element ← assignAll? pairs []
      some (entries.put key (.tables (elements ++ [element])))
  | some _ => none

end Entries

/-! Numbers and dates.  Of a date only its being one is kept. -/

/-- Reads the digits after the first of a run, without the single underscores between them. -/
def digitsFrom? (isMember : Char → Bool) (read : List Char) (text : Text) :
    Option (List Char × Text) :=
  match text with
  | '_' :: c :: rest => if isMember c then digitsFrom? isMember (c :: read) rest else none
  | c :: rest =>
      if isMember c then digitsFrom? isMember (c :: read) rest
      else some (read.reverse, c :: rest)
  | [] => some (read.reverse, [])

def digits? (isMember : Char → Bool) (text : Text) : Option (List Char × Text) :=
  match text with
  | c :: rest => if isMember c then digitsFrom? isMember [c] rest else none
  | [] => none

def sign (text : Text) : Bool × Text :=
  match text with
  | '-' :: rest => (true, rest)
  | '+' :: rest => (false, rest)
  | _ => (false, text)

def wholeDigits? (text : Text) : Option (List Char × Text) :=
  match text with
  | '0' :: rest => some (['0'], rest)
  | _ => digits? Char.isDigit text

def fraction? (text : Text) : Option (List Char × Text) :=
  match text with
  | '.' :: rest => digits? Char.isDigit rest
  | _ => some ([], text)

def exponent? (text : Text) : Option (Int × Text) :=
  match text with
  | c :: rest =>
      if c = 'e' ∨ c = 'E' then do
        let (negative, rest) := sign rest
        let (digits, rest) ← digits? Char.isDigit rest
        let value : Int := Text.valueOfDigits 10 digits
        some (if negative then -value else value, rest)
      else some (0, text)
  | [] => some (0, text)

def integer? (value : Int) : Option Value :=
  if -Nat.pow 2 63 ≤ value ∧ value < Nat.pow 2 63 then some (.integer value) else none

/-- A floating point number that is not above every finite one. -/
def float? (value : Binary64) : Option Value :=
  if value = .infinite false then none else some (.float value)

def isFloatRest : Text → Bool
  | c :: _ => c == '.' || c == 'e' || c == 'E'
  | [] => false

def decimal? (text : Text) : Option (Value × Text) := do
  let (negative, unsigned) := sign text
  let (whole, rest) ← wholeDigits? unsigned
  if isFloatRest rest then
    let (fraction, rest) ← fraction? rest
    let (power, rest) ← exponent? rest
    (float? (.ofDecimal negative (Text.valueOfDigits 10 (whole ++ fraction))
      (power - fraction.length))).map (·, rest)
  else
    let value : Int := Text.valueOfDigits 10 whole
    (integer? (if negative then -value else value)).map (·, rest)

def based? (base : Nat) (isMember : Char → Bool) (text : Text) : Option (Value × Text) := do
  let (digits, rest) ← digits? isMember text
  (integer? (Text.valueOfDigits base digits)).map (·, rest)

def special? (text : Text) : Option (Value × Text) :=
  let (negative, unsigned) := sign text
  match unsigned with
  | 'i' :: 'n' :: 'f' :: rest => some (.float (.infinite negative), rest)
  | 'n' :: 'a' :: 'n' :: rest => some (.float .nan, rest)
  | _ => none

def field? (count low high : Nat) (text : Text) : Option (Nat × Text) :=
  let digits := text.take count
  let value := Text.valueOfDigits 10 digits
  if digits.length = count ∧ digits.all Char.isDigit ∧ low ≤ value ∧ value ≤ high then
    some (value, text.drop count)
  else none

def daysIn (year month : Nat) : Nat :=
  if month = 2 then
    if year % 4 = 0 ∧ (year % 100 ≠ 0 ∨ year % 400 = 0) then 29 else 28
  else if month = 4 ∨ month = 6 ∨ month = 9 ∨ month = 11 then 30
  else 31

def date? (text : Text) : Option Text := do
  let (year, rest) ← field? 4 0 9999 text
  let rest ← expect? '-' rest
  let (month, rest) ← field? 2 1 12 rest
  let rest ← expect? '-' rest
  let (_, rest) ← field? 2 1 (daysIn year month) rest
  some rest

def time? (text : Text) : Option Text := do
  let (_, rest) ← field? 2 0 23 text
  let rest ← expect? ':' rest
  let (_, rest) ← field? 2 0 59 rest
  let rest ← expect? ':' rest
  let (_, rest) ← field? 2 0 60 rest
  match rest with
  | '.' :: c :: after => if c.isDigit then some (after.dropWhile Char.isDigit) else some rest
  | _ => some rest

def offset? (text : Text) : Option Text :=
  match text with
  | c :: rest =>
      if c = 'Z' ∨ c = 'z' then some rest
      else if c = '+' ∨ c = '-' then do
        let (_, rest) ← field? 2 0 23 rest
        let rest ← expect? ':' rest
        let (_, rest) ← field? 2 0 59 rest
        some rest
      else none
  | [] => none

def afterDate (text : Text) : Text :=
  match text with
  | c :: rest =>
      if c = 'T' ∨ c = 't' ∨ c = ' ' then
        match time? rest with
        | some rest => (offset? rest).getD rest
        | none => text
      else text
  | [] => text

def dateTime? (text : Text) : Option Text :=
  ((date? text).map afterDate).or (time? text)

def number? (text : Text) : Option (Value × Text) :=
  match dateTime? text with
  | some rest => some (.dateTime, rest)
  | none =>
      match text with
      | '0' :: 'x' :: rest => based? 16 Text.isHexDigit rest
      | '0' :: 'o' :: rest => based? 8 (fun c => '0' ≤ c && c ≤ '7') rest
      | '0' :: 'b' :: rest => based? 2 (fun c => c == '0' || c == '1') rest
      | _ => (special? text).or (decimal? text)

/-! Documents.  The text is read into statements, and the statements after each header fill the
table that it opens.  Nothing is said about what is wrong with a text that is no document. -/

mutual

/-- Reads a value.  `depth` is how many levels it may have, and `bound` counts the calls. -/
def value? (bound depth : Nat) (text : Text) : Option (Value × Text) :=
  match bound with
  | 0 => none
  | bound + 1 =>
      match text with
      | '"' :: _ => (string? '"' text).map fun (string, rest) => (.string string, rest)
      | '\'' :: _ => (string? '\'' text).map fun (string, rest) => (.string string, rest)
      | '[' :: rest =>
          match depth with
          | 0 => none
          | depth + 1 => items? bound depth [] rest
      | '{' :: rest =>
          match depth with
          | 0 => none
          | depth + 1 =>
              match skipBlanks rest with
              | '}' :: rest => some (.table .inline [], rest)
              | _ => pairs? bound depth [] rest
      | 't' :: 'r' :: 'u' :: 'e' :: rest => some (.boolean true, rest)
      | 'f' :: 'a' :: 'l' :: 's' :: 'e' :: rest => some (.boolean false, rest)
      | _ => number? text

def items? (bound depth : Nat) (read : List Value) (text : Text) : Option (Value × Text) :=
  match bound with
  | 0 => none
  | bound + 1 =>
      match skipGap? false text with
      | none => none
      | some (']' :: rest) => some (.array read.reverse, rest)
      | some text =>
          match value? bound depth text with
          | none => none
          | some (item, rest) =>
              match skipGap? false rest with
              | some (',' :: rest) => items? bound depth (item :: read) rest
              | some (']' :: rest) => some (.array (item :: read).reverse, rest)
              | _ => none

def pairs? (bound depth : Nat) (read : List (List Text × Value)) (text : Text) :
    Option (Value × Text) :=
  match bound with
  | 0 => none
  | bound + 1 => do
      let (key, rest) ← key? text
      let rest ← expect? '=' rest
      let (value, rest) ← value? bound depth (skipBlanks rest)
      let read := (key, value) :: read
      match skipBlanks rest with
      | ',' :: rest => pairs? bound depth read rest
      | '}' :: rest => (Entries.assignAll? read.reverse []).map fun entries =>
          (.table .inline entries, rest)
      | _ => none

end

inductive Statement where
  | assign (key : List Text) (value : Value)
  | header (key : List Text)
  | arrayHeader (key : List Text)

def statement? (bound : Nat) (text : Text) : Option (Statement × Text) :=
  match text with
  | '[' :: '[' :: rest => do
      let (key, rest) ← key? rest
      let rest ← expect? ']' rest
      let rest ← expect? ']' rest
      let rest ← lineEnd? rest
      some (.arrayHeader key, rest)
  | '[' :: rest => do
      let (key, rest) ← key? rest
      let rest ← expect? ']' rest
      let rest ← lineEnd? rest
      some (.header key, rest)
  | _ => do
      let (key, rest) ← key? text
      let rest ← expect? '=' rest
      let (value, rest) ← value? bound (depthLimit - 1) (skipBlanks rest)
      let rest ← lineEnd? rest
      some (.assign key value, rest)

def statements? (bound valueBound : Nat) (read : List Statement) (text : Text) :
    Option (List Statement) :=
  match bound with
  | 0 => none
  | bound + 1 =>
      match skipBlanks text with
      | [] => some read.reverse
      | c :: rest =>
          if c = '#' ∨ c = '\n' ∨ c = '\r' then
            match lineEnd? (c :: rest) with
            | some rest => statements? bound valueBound read rest
            | none => none
          else
            match statement? valueBound (c :: rest) with
            | some (statement, rest) => statements? bound valueBound (statement :: read) rest
            | none => none

structure Section where
  isArray : Bool
  key : List Text
  pairs : List (List Text × Value)

structure Outline where
  pairs : List (List Text × Value)
  sections : List Section

def Outline.cons (statement : Statement) (outline : Outline) : Outline :=
  match statement with
  | .assign key value => { outline with pairs := (key, value) :: outline.pairs }
  | .header key => ⟨[], ⟨false, key, outline.pairs⟩ :: outline.sections⟩
  | .arrayHeader key => ⟨[], ⟨true, key, outline.pairs⟩ :: outline.sections⟩

def Outline.ofStatements (statements : List Statement) : Outline :=
  statements.foldr Outline.cons ⟨[], []⟩

def Section.apply? (entries : Entries) (part : Section) : Option Entries :=
  entries.descend? part.key
    (if part.isArray then Entries.addTable? part.pairs else Entries.openTable? part.pairs)

def Outline.entries? (outline : Outline) : Option Entries := do
  let top ← Entries.assignAll? outline.pairs []
  outline.sections.foldlM Section.apply? top

/-- The top table of a document; a byte order mark may stand in front. -/
def parse? (text : Text) : Option Entries := do
  let body :=
    match text with
    | '\uFEFF' :: rest => rest
    | _ => text
  let statements ← statements? (body.length + 1) (2 * body.length + 2) [] body
  (Outline.ofStatements statements).entries?

end GrammarListing.Toml
