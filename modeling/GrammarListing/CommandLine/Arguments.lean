import GrammarListing.Path
import GrammarListing.Text.Printed
namespace GrammarListing.CommandLine

inductive Parameter where
  | file
  | prefixWidth
  | config
deriving DecidableEq

inductive Switch where
  | debug
  | help
  | version
deriving DecidableEq

inductive Named where
  | parameter (target : Parameter)
  | switch (target : Switch)
deriving DecidableEq

def Named.ofName? (name : Bytes) : Option Named :=
  if name = Text.encode "prefix-width".toList then some (.parameter .prefixWidth)
  else if name = Text.encode "config".toList then some (.parameter .config)
  else if name = Text.encode "debug".toList then some (.switch .debug)
  else if name = Text.encode "help".toList then some (.switch .help)
  else if name = Text.encode "version".toList then some (.switch .version)
  else none

def Named.ofLetter? (letter : Char) : Option Named :=
  match letter with
  | 'p' => some (.parameter .prefixWidth)
  | 'c' => some (.parameter .config)
  | 'D' => some (.switch .debug)
  | 'h' => some (.switch .help)
  | 'V' => some (.switch .version)
  | _ => none

def Parameter.usage : Parameter → String
  | .file => "[FILE]"
  | .prefixWidth => "--prefix-width <NUM>"
  | .config => "--config <FILE>"

def Switch.usage : Switch → String
  | .debug => "--debug"
  | .help => "--help"
  | .version => "--version"

def Named.usage : Named → String
  | .parameter target => target.usage
  | .switch target => target.usage

/-! The number of a prefix width: decimal digits, perhaps after a plus, below the word limit. -/

def widthLimit : Nat := Nat.pow 2 64

inductive WidthDefect where
  | empty
  | badDigit
  | tooLarge
deriving DecidableEq

def WidthDefect.message : WidthDefect → String
  | .empty => "cannot parse integer from empty string"
  | .badDigit => "invalid digit found in string"
  | .tooLarge => "number too large to fit in target type"

/-- Reads digits behind a value; the first character that is no digit or goes over the limit
decides the defect. -/
def widthFrom? (value : Nat) (digits : Text) : Except WidthDefect Nat :=
  match digits with
  | [] => .ok value
  | c :: rest =>
      if c.isDigit then
        let value := value * 10 + Text.digitValue c
        if value < widthLimit then widthFrom? value rest else .error .tooLarge
      else .error .badDigit

def width? (text : Text) : Except WidthDefect Nat :=
  match text with
  | [] => .error .empty
  | ['+'] => .error .badDigit
  | '+' :: digits => widthFrom? 0 digits
  | digits => widthFrom? 0 digits

inductive UsageError where
  | unexpectedArgument (spelling : Text)
  | unexpectedValue (switch : Switch) (value : Text)
  | missingValue (parameter : Parameter)
  | repeated (named : Named)
  | malformedText
  | badWidth (value : Text) (defect : WidthDefect)
deriving DecidableEq

/-- What the user wrote is set off from the sentence, so that an escape sequence in it ends
with it. -/
def UsageError.description : UsageError → String
  | .unexpectedArgument spelling => "unexpected argument '" ++ spelling.emphasized ++ "' found"
  | .unexpectedValue switch value =>
      "unexpected value '" ++ value.emphasized ++ "' for '" ++ switch.usage ++
        "' found; no more were expected"
  | .missingValue parameter =>
      "a value is required for '" ++ parameter.usage ++ "' but none was supplied"
  | .repeated named => "the argument '" ++ named.usage ++ "' cannot be used multiple times"
  | .malformedText => "invalid UTF-8 was detected in one or more arguments"
  | .badWidth value defect =>
      "invalid value '" ++ value.emphasized ++ "' for '" ++ Parameter.prefixWidth.usage ++
        "': " ++ defect.message

def UsageError.styled (error : UsageError) : Text :=
  ("error: " ++ error.description).toList

def UsageError.message (error : UsageError) : String :=
  String.ofList error.styled.shown

/-! The arguments of a run.  The words of the command line are read from the left.  A parameter
waits for its value, and is taken in when the next thing named on the command line is, or at the
end; so of two errors it is often the one farther left that counts. -/

structure Arguments where
  file : Option Path
  prefixWidth : Option Nat
  config : Option Path
  debug : Bool
deriving DecidableEq

inductive Stop where
  | help
  | version
  | rejected (error : UsageError)
deriving DecidableEq

namespace Arguments

def empty : Arguments := ⟨none, none, none, false⟩

def stdinName : Path := .ofString "-"

def usesStdin (arguments : Arguments) : Bool :=
  arguments.file == some stdinName

def has (arguments : Arguments) : Parameter → Bool
  | .file => arguments.file.isSome
  | .prefixWidth => arguments.prefixWidth.isSome
  | .config => arguments.config.isSome

def pathOf? (parameter : Parameter) (value : Bytes) : Except Stop Path :=
  if value.isEmpty then .error (.rejected (.missingValue parameter)) else .ok ⟨value⟩

def widthOf? (value : Bytes) : Except Stop Nat :=
  match value.decode? with
  | some text => (width? text).mapError fun defect => .rejected (.badWidth text defect)
  | none => .error (.rejected .malformedText)

def set (arguments : Arguments) (parameter : Parameter) (value : Bytes) :
    Except Stop Arguments :=
  if arguments.has parameter then .error (.rejected (.repeated (.parameter parameter)))
  else
    match parameter with
    | .file => (pathOf? .file value).map fun path => { arguments with file := some path }
    | .prefixWidth => (widthOf? value).map fun width => { arguments with prefixWidth := some width }
    | .config => (pathOf? .config value).map fun path => { arguments with config := some path }

def turnOn (arguments : Arguments) (switch : Switch) : Except Stop Arguments :=
  match switch with
  | .help => .error .help
  | .version => .error .version
  | .debug =>
      if arguments.debug then .error (.rejected (.repeated (.switch .debug)))
      else .ok { arguments with debug := true }

end Arguments

structure Waiting where
  parameter : Parameter
  value : Option Bytes

/-- How far the command line is read.  After two dashes every word is a file name. -/
structure Progress where
  arguments : Arguments
  waiting : Option Waiting
  fileNamed : Bool
  onlyFiles : Bool

namespace Progress

def start : Progress := ⟨.empty, none, false, false⟩

def settle (progress : Progress) : Except Stop Arguments :=
  match progress.waiting with
  | none => .ok progress.arguments
  | some ⟨parameter, none⟩ => .error (.rejected (.missingValue parameter))
  | some ⟨parameter, some value⟩ => progress.arguments.set parameter value

def wait (progress : Progress) (parameter : Parameter) (value : Option Bytes) :
    Except Stop Progress :=
  progress.settle.map fun arguments =>
    { progress with arguments := arguments, waiting := some ⟨parameter, value⟩ }

def set (progress : Progress) (parameter : Parameter) (value : Bytes) : Except Stop Progress := do
  let arguments ← progress.settle
  let arguments ← arguments.set parameter value
  return { progress with arguments := arguments, waiting := none }

def turnOn (progress : Progress) (switch : Switch) : Except Stop Progress := do
  let arguments ← progress.settle
  let arguments ← arguments.turnOn switch
  return { progress with arguments := arguments, waiting := none }

def reject (spelling : Text) : Except Stop Progress :=
  .error (.rejected (.unexpectedArgument spelling))

def readFile (progress : Progress) (word : Bytes) : Except Stop Progress :=
  if progress.fileNamed then reject word.decodeLossy
  else
    ({ progress with fileNamed := true } : Progress).wait .file (some word)

def dash : UInt8 := 45

def equalsSign : UInt8 := 61

def readName (progress : Progress) (body : Bytes) : Except Stop Progress :=
  let name : Bytes := body.takeWhile (· ≠ equalsSign)
  match Named.ofName? name, body.dropWhile (· ≠ equalsSign) with
  | none, _ => reject ('-' :: '-' :: name.decodeLossy)
  | some (.parameter parameter), [] => progress.wait parameter none
  | some (.parameter parameter), _ :: value => progress.set parameter value
  | some (.switch switch), [] => progress.turnOn switch
  | some (.switch switch), _ :: value =>
      .error (.rejected (.unexpectedValue switch (Bytes.decodeLossy value)))

/-- Reads letters, with malformed bytes behind them, after a dash.  What follows the letter of a
parameter is its value. -/
def readLetters (progress : Progress) (letters : Text) (malformed : Bytes) :
    Except Stop Progress :=
  match letters with
  | [] => if malformed.isEmpty then .ok progress else reject ('-' :: malformed.decodeLossy)
  | letter :: rest =>
      match Named.ofLetter? letter with
      | none => reject ['-', letter]
      | some (.switch switch) =>
          match progress.turnOn switch with
          | .ok progress => readLetters progress rest malformed
          | .error stop => .error stop
      | some (.parameter parameter) =>
          match Text.encode rest ++ malformed with
          | [] => progress.wait parameter none
          | first :: value =>
              progress.set parameter (if first = equalsSign then value else first :: value)

def wellFormed (bytes : Bytes) : Text :=
  (bytes.units.takeWhile Option.isSome).filterMap id

def readPlain (progress : Progress) (word : Bytes) : Except Stop Progress :=
  match progress.waiting with
  | some ⟨parameter, none⟩ =>
      .ok { progress with waiting := some ⟨parameter, some word⟩ }
  | _ => progress.readFile word

def read (progress : Progress) (word : Bytes) : Except Stop Progress :=
  if progress.onlyFiles then progress.readFile word
  else if word = [dash, dash] then .ok { progress with onlyFiles := true }
  else if word = [dash] then progress.readPlain word
  else if [dash, dash].isPrefixOf word then progress.readName (word.drop 2)
  else if [dash].isPrefixOf word then
    let body := word.drop 1
    let letters := wellFormed body
    progress.readLetters letters (body.drop letters.byteLength)
  else progress.readPlain word

end Progress

def Arguments.ofWords? (words : List Bytes) : Except Stop Arguments :=
  words.foldlM Progress.read Progress.start >>= Progress.settle

end GrammarListing.CommandLine
