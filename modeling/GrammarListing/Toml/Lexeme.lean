import GrammarListing.Text.Basic
namespace GrammarListing.Toml

/-! The smallest parts of TOML: blanks, comments, line ends, strings and keys.  Every reader
takes the text in front of it and gives what it read with the text that is left. -/

def isBlank (c : Char) : Bool :=
  c == ' ' || c == '\t'

/-- What may stand in a comment or a string: any character but the control characters, and the
tab of those. -/
def isTextChar (c : Char) : Bool :=
  c == '\t' || (0x20 ≤ c.toNat && c.toNat ≠ 0x7F)

def isBareKeyChar (c : Char) : Bool :=
  c.isAlphanum || c == '-' || c == '_'

def skipBlanks (text : Text) : Text :=
  text.dropWhile isBlank

def expect? (c : Char) (text : Text) : Option Text :=
  match text with
  | first :: rest => if first = c then some rest else none
  | [] => none

/-- Reads a line break, which is never a lone carriage return. -/
def newline? : Text → Option Text
  | '\n' :: rest => some rest
  | '\r' :: '\n' :: rest => some rest
  | _ => none

def skipComment (text : Text) : Text :=
  match text with
  | '#' :: rest => rest.dropWhile isTextChar
  | _ => text

def lineEnd? (text : Text) : Option Text :=
  match skipComment (skipBlanks text) with
  | [] => some []
  | rest => newline? rest

def skipGap? (inComment : Bool) (text : Text) : Option Text :=
  match text with
  | [] => if inComment then none else some []
  | '\n' :: rest => skipGap? false rest
  | '\r' :: '\n' :: rest => skipGap? false rest
  | c :: rest =>
      if inComment then
        if isTextChar c then skipGap? true rest else none
      else if isBlank c then skipGap? false rest
      else if c = '#' then skipGap? true rest
      else some (c :: rest)

def hexEscape? (count : Nat) (text : Text) : Option (Char × Nat) :=
  match Text.hexNumber? count text with
  | some (code, _) => (Text.charOfCode? code).map (·, count + 1)
  | none => none

def escape? : Text → Option (Char × Nat)
  | 'b' :: _ => some ('\x08', 1)
  | 'f' :: _ => some ('\x0c', 1)
  | 'n' :: _ => some ('\n', 1)
  | 'r' :: _ => some ('\r', 1)
  | 't' :: _ => some ('\t', 1)
  | '"' :: _ => some ('"', 1)
  | '\\' :: _ => some ('\\', 1)
  | 'u' :: digits => hexEscape? 4 digits
  | 'U' :: digits => hexEscape? 8 digits
  | _ => none

def gapLength : Text → Nat
  | '\r' :: '\n' :: rest => gapLength rest + 2
  | c :: rest => if isBlank c || c = '\n' then gapLength rest + 1 else 0
  | [] => 0

/-- The length of what a backslash at the end of a line hides: all up to the next visible
character. -/
def hiddenLength? (text : Text) : Option Nat :=
  if (newline? (skipBlanks text)).isSome then some (gapLength text) else none

/-- Reads the rest of a string on one line; backslashes escape in double quotes only. -/
def lineBody? (quote : Char) (skip : Nat) (read text : Text) : Option (Text × Text) :=
  match text with
  | [] => none
  | c :: rest =>
      match skip with
      | skip + 1 => lineBody? quote skip read rest
      | 0 =>
          if c = quote then some (read.reverse, rest)
          else if quote = '"' ∧ c = '\\' then
            match escape? rest with
            | some (escaped, length) => lineBody? quote length (escaped :: read) rest
            | none => none
          else if isTextChar c then lineBody? quote 0 (c :: read) rest
          else none

/-- Reads the rest of a string over several lines.  Three quotes close it, and up to two more in
front of them belong to it. -/
def blockBody? (quote : Char) (skip : Nat) (read text : Text) : Option (Text × Text) :=
  match text with
  | [] => none
  | c :: rest =>
      match skip with
      | skip + 1 => blockBody? quote skip read rest
      | 0 =>
          if [quote, quote, quote].isPrefixOf (c :: rest) then
            let rest := rest.drop 2
            let extra := (rest.take 2).takeWhile (· = quote)
            some (read.reverse ++ extra, rest.drop extra.length)
          else if quote = '"' ∧ c = '\\' then
            match hiddenLength? rest with
            | some length => blockBody? quote length read rest
            | none =>
                match escape? rest with
                | some (escaped, length) => blockBody? quote length (escaped :: read) rest
                | none => none
          else if ['\r', '\n'].isPrefixOf (c :: rest) then
            blockBody? quote 1 ('\n' :: read) rest
          else if c = '\n' ∨ isTextChar c then blockBody? quote 0 (c :: read) rest
          else none

def lineString? (quote : Char) (text : Text) : Option (Text × Text) :=
  match expect? quote text with
  | some body => lineBody? quote 0 [] body
  | none => none

/-- Reads any string; a line break right after three opening quotes is left out. -/
def string? (quote : Char) (text : Text) : Option (Text × Text) :=
  if [quote, quote, quote].isPrefixOf text then
    let body := text.drop 3
    let body := (newline? body).getD body
    blockBody? quote 0 [] body
  else lineString? quote text

def simpleKey? (text : Text) : Option (Text × Text) :=
  match text with
  | '"' :: _ => lineString? '"' text
  | '\'' :: _ => lineString? '\'' text
  | _ =>
      match text.takeWhile isBareKeyChar with
      | [] => none
      | key => some (key, text.dropWhile isBareKeyChar)

/-- Keys have fewer parts than this, and values fewer levels. -/
def depthLimit : Nat := 80

def keyParts? (bound : Nat) (read : List Text) (text : Text) : Option (List Text × Text) :=
  match bound with
  | 0 => none
  | bound + 1 =>
      match simpleKey? (skipBlanks text) with
      | none => none
      | some (part, rest) =>
          match skipBlanks rest with
          | '.' :: rest => keyParts? bound (part :: read) rest
          | rest => some ((part :: read).reverse, rest)

def key? (text : Text) : Option (List Text × Text) :=
  keyParts? (depthLimit - 1) [] text

end GrammarListing.Toml
