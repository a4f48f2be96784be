import GrammarListing.CommandLine.Arguments
import GrammarListing.Config.Discovery
namespace GrammarListing.CommandLine

def programName : String := "dumpgrammar"

def versionText : String := programName ++ " 0.1.0\n"

def shownName (program : Option Path) : Text :=
  (program >>= Path.fileName? >>= Bytes.decode?).getD programName.toList

def helpLines (name : Text) : List String :=
  ["Print the BNF grammar embedded in source comments, aligned on ::=",
   "",
   "Usage: " ++ name.emphasized ++ " [OPTIONS] [FILE]",
   "",
   "Arguments:",
   "  [FILE]  Grammar-annotated source file, or - for stdin [default: grammar.c]",
   "",
   "Options:",
   "  -p, --prefix-width <NUM>  Characters stripped from the start of each rule line [default: 3]",
   "  -c, --config <FILE>       Config file path (overrides auto-discovery)",
   "  -D, --debug               Enable debug output",
   "  -h, --help                Print help",
   "  -V, --version             Print version"]

def styledHelp (program : Option Path) : Text :=
  ("\n".intercalate (helpLines (shownName program)) ++ "\n").toList

def helpText (program : Option Path) : String :=
  String.ofList (styledHelp program).shown

inductive Note where
  | explicitConfig (path : Path)
  | noConfigFiles
  | configFiles
  | configFile (path : Path)
  | configuration
  | source (path : Path)
  | prefixWidth (width : Nat)
  | wrote (ruleCount column : Nat)
  | rule (lineNumber : Nat)
deriving DecidableEq

def Note.text : Note → String
  | .explicitConfig path => "Using explicit config file: " ++ path.display
  | .noConfigFiles => "No config files discovered in current directory"
  | .configFiles => "Discovered config files:"
  | .configFile path => "  - " ++ path.display
  | .configuration => "Configuration:"
  | .source path => "  source: " ++ path.display
  | .prefixWidth width => "  prefix_width: " ++ toString width
  | .wrote ruleCount column =>
      "Wrote " ++ toString ruleCount ++ " grammar rules aligned at column " ++ toString column
  | .rule lineNumber => "  - rule from line " ++ toString lineNumber

inductive Failure where
  | config (error : Config.LoadError)
  | invalid (defect : Config.Defect)
  | dump (error : DumpError)
deriving DecidableEq

def Failure.headline : Failure → String
  | .config error => error.message
  | .invalid defect => "Invalid configuration: " ++ defect.message
  | .dump error => error.headline

def Failure.cause? : Failure → Option Fault
  | .dump error => error.cause?
  | _ => none

inductive Message where
  | note (content : Note)
  | warning (skipped : Config.Skipped)
  | failure (reason : Failure)
  | rejected (error : UsageError)
deriving DecidableEq

namespace Message

def isNote : Message → Bool
  | .note _ => true
  | _ => false

def text : Message → String
  | .note content => "[DEBUG] " ++ content.text ++ "\n"
  | .warning skipped =>
      "Warning: skipping " ++ skipped.path.display ++ ": " ++ skipped.error.message ++ "\n"
  | .failure reason =>
      "Error: " ++ reason.headline ++
        (match reason.cause? with
          | some fault => "\n\nCaused by:\n    " ++ fault.message
          | none => "") ++ "\n"
  | .rejected error => String.ofList error.styled.streamed ++ "\n"

end Message

/-! A run of the program: what it exits with, writes and says.  The configuration is loaded,
overridden and checked before the source is read, and the source is read before anything is
written. -/

inductive Exit where
  | success
  | failure
  | misuse
deriving DecidableEq

def Exit.code : Exit → UInt8
  | .success => 0
  | .failure => 1
  | .misuse => 2

structure Outcome where
  exit : Exit
  output : Bytes
  messages : List Message
deriving DecidableEq

def Outcome.errorText (outcome : Outcome) : String :=
  String.join (outcome.messages.map Message.text)

namespace Arguments

/-- The configuration with the arguments on top; a file name is taken as it stands. -/
def override (arguments : Arguments) (config : Config) : Config where
  source := arguments.file.getD config.source
  prefixWidth := arguments.prefixWidth.getD config.prefixWidth

def shown (arguments : Arguments) (messages : List Message) : List Message :=
  messages.filter fun message => arguments.debug || !message.isNote

end Arguments

def configPaths (host : Host) (arguments : Arguments) : List Path :=
  match arguments.config with
  | some path => [path]
  | none => host.homeConfigPath?.toList ++ Config.ancestorPaths host.directory

structure Loading where
  messages : List Message
  base : Except Config.LoadError Config

def load (host : Host) (arguments : Arguments) : Loading :=
  match arguments.config with
  | some path => ⟨[.note (.explicitConfig path)], host.config? path⟩
  | none =>
      let files := host.loadedFiles host.directory
      let listing :=
        match files with
        | [] => [.note .noConfigFiles]
        | files => .note .configFiles :: files.map fun file => .note (.configFile file.path)
      ⟨listing ++ (files.filterMap Config.LoadedFile.skipped?).map .warning,
        .ok (Config.ofFiles files)⟩

def configMessages (config : Config) : List Message :=
  [.note .configuration, .note (.source config.source), .note (.prefixWidth config.prefixWidth)]

def summaryMessages (summary : Summary) : List Message :=
  .note (.wrote summary.ruleCount summary.column) ::
    summary.lineNumbers.map fun lineNumber => .note (.rule lineNumber)

def Loading.effective (loading : Loading) (arguments : Arguments) : Except Failure Config :=
  match loading.base with
  | .error error => .error (.config error)
  | .ok base =>
      let config := arguments.override base
      match config.defect? with
      | some defect => .error (.invalid defect)
      | none => .ok config

/-- What is said before the source is read, but for a failure. -/
def Loading.opening (loading : Loading) (arguments : Arguments) : List Message :=
  loading.messages ++
    match loading.base with
    | .error _ => []
    | .ok base => configMessages (arguments.override base)

def effectiveConfig (host : Host) (arguments : Arguments) : Except Failure Config :=
  (load host arguments).effective arguments

def write (host : Host) (arguments : Arguments) (config : Config) (input : Reader) :
    Except DumpError Summary × Sink :=
  if arguments.usesStdin then dump input .unlimited config.prefixWidth "stdin"
  else host.dumpFile config.source config.prefixWidth .unlimited

def runWith (host : Host) (arguments : Arguments) (input : Reader) : Outcome :=
  let loading := load host arguments
  let opening := loading.opening arguments
  match loading.effective arguments with
  | .error failure => ⟨.failure, [], arguments.shown (opening ++ [.failure failure])⟩
  | .ok config =>
      match write host arguments config input with
      | (.error error, sink) =>
          ⟨.failure, sink.received, arguments.shown (opening ++ [.failure (.dump error)])⟩
      | (.ok summary, sink) =>
          ⟨.success, sink.received, arguments.shown (opening ++ summaryMessages summary)⟩

def run (host : Host) (program : Option Path) (words : List Bytes) (input : Reader) : Outcome :=
  match Arguments.ofWords? words with
  | .error .help => ⟨.success, (styledHelp program).streamed.encode, []⟩
  | .error .version => ⟨.success, Text.encode versionText.toList, []⟩
  | .error (.rejected error) => ⟨.misuse, [], [.rejected error]⟩
  | .ok arguments => runWith host arguments input

end GrammarListing.CommandLine
