import GrammarListing.Config.Record
import GrammarListing.FileSystem.Basic
namespace GrammarListing

namespace Config

inductive LoadError where
  | unreadable (fault : Fault)
  | noDocument
  | misfit (mismatch : Mismatch)
deriving DecidableEq

/-- A report on a document has a headline and ends its last line.  Where in the document the
fault lies is not told. -/
def LoadError.message : LoadError → String
  | .unreadable fault => fault.message
  | .noDocument => "TOML parse error\n"
  | .misfit mismatch => "TOML parse error\n" ++ mismatch.message ++ "\n"

def Layer.ofText? (text : Text) : Except LoadError Layer :=
  match Toml.parse? text with
  | some entries => (Layer.ofEntries? entries).mapError .misfit
  | none => .error .noDocument

/-- A zero byte is text, but it fits nowhere in a document. -/
def Layer.ofContents? (contents : Contents) : Except LoadError Layer :=
  match Bytes.decode? contents.data with
  | none => .error (.unreadable .malformedText)
  | some text => if contents.zeros = 0 then Layer.ofText? text else .error .noDocument

def ofLayer (path : Path) (layer : Layer) : Config :=
  initial.apply path.parent? layer

end Config

namespace Host

def layer? (host : Host) (path : Path) : Except Config.LoadError Config.Layer :=
  match host.contents path with
  | .ok contents => Config.Layer.ofContents? contents
  | .error fault => .error (.unreadable fault)

def config? (host : Host) (path : Path) : Except Config.LoadError Config :=
  (host.layer? path).map (Config.ofLayer path)

end Host

/-! Discovery.  The file in the home directory comes first, then those in the ancestors of a
directory, the outermost first; a file that is listed under another spelling is not listed
again.  The layers of the files are put on top of one another in that order. -/

namespace Config

def fileName : Path := .ofString "dumpgrammar.toml"

def ancestorPaths (start : Path) : List Path :=
  start.ancestors.reverse.map (·.join fileName)

structure LoadedFile where
  path : Path
  layer? : Except LoadError Layer

def applyFile (config : Config) (file : LoadedFile) : Config :=
  match file.layer? with
  | .ok layer => config.apply file.path.parent? layer
  | .error _ => config

def ofFiles (files : List LoadedFile) : Config :=
  files.foldl applyFile initial

structure Skipped where
  path : Path
  error : LoadError
deriving DecidableEq

def LoadedFile.skipped? (file : LoadedFile) : Option Skipped :=
  match file.layer? with
  | .ok _ => none
  | .error error => some ⟨file.path, error⟩

end Config

namespace Host

def addConfigFile (host : Host) (found : List Path) (path : Path) : List Path :=
  if host.isFile path && !found.any path.same then found ++ [path] else found

def homeConfigPath? (host : Host) : Option Path :=
  host.homeDirectory?.map (·.join Config.fileName)

def configFiles (host : Host) (start : Path) : List Path :=
  (Config.ancestorPaths start).foldl host.addConfigFile
    (host.homeConfigPath?.filter host.isFile).toList

def loadedFiles (host : Host) (start : Path) : List Config.LoadedFile :=
  (host.configFiles start).map fun path => ⟨path, host.layer? path⟩

def discoveredConfig (host : Host) (start : Path) : Config :=
  Config.ofFiles (host.loadedFiles start)

end Host

end GrammarListing
