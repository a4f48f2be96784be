import GrammarListing.CommandLine.Run
namespace GrammarListing

/-! The program.  It looks at the files that a run may ask for, first those of the configuration
and then the source, and hands them to the run. -/

/-- Some error codes come negated. -/
def faultOfError (error : IO.Error) : Fault :=
  match error with
  | .noFileOrDirectory _ _ _ => .notFound
  | .inappropriateType _ code _ =>
      if code = 21 ∨ code = -21 then .isADirectory else .notADirectory
  | .permissionDenied _ _ _ => .reported .permissionDenied "Permission denied (os error 13)"
  | error => .reported .other (toString error)

def unreadable (size : Nat) (error : IO.Error) : Entry :=
  .unreadable size (faultOfError error)

def lookAt (path : Path) : IO (Except Fault Entry) := do
  let file := (← IO.currentDir) / path.display
  match ← file.metadata.toBaseIO with
  | .error error => return .error (faultOfError error)
  | .ok information =>
      let size := information.byteSize.toNat
      if information.type == .dir then return .ok .directory
      else if size > maxSourceSize then
        return .ok (.unreadable size (.reported .other "file too large"))
      else
        match ← (IO.FS.readBinFile file).toBaseIO with
        | .error error => return .ok (unreadable size error)
        | .ok bytes => return .ok (.file (.ofBytes bytes.toList))

def Host.lookAround (host : Host) (paths : List Path) : IO Snapshot :=
  paths.mapM fun path => do
    let path := host.directory.join path
    return (path, ← lookAt path)

partial def readInput (stream : IO.FS.Stream) (read : Reader) : IO Reader := do
  match ← (stream.read 65536).toBaseIO with
  | .error error => return (.failed (faultOfError error) :: read).reverse
  | .ok bytes =>
      if bytes.isEmpty then return read.reverse
      else readInput stream (.piece bytes.toList :: read)

def hostFor (bare : Host) (arguments : CommandLine.Arguments) : IO Host := do
  let settings ← bare.lookAround (CommandLine.configPaths bare arguments)
  let host := { bare with files := settings.fileSystem }
  match CommandLine.effectiveConfig host arguments with
  | .error _ => return host
  | .ok config =>
      let source ← bare.lookAround [config.source]
      return { bare with files := Snapshot.fileSystem (settings ++ source) }

end GrammarListing

open GrammarListing

def main (words : List String) : IO UInt32 := do
  let bytes := fun (word : String) => Text.encode word.toList
  let bare : Host :=
    { files := Snapshot.fileSystem []
      directory := .ofString (← IO.currentDir).toString
      home := (← IO.getEnv "HOME").map bytes
      userProfile := (← IO.getEnv "USERPROFILE").map bytes }
  let program := Path.ofString (← IO.appPath).toString
  let words := words.map bytes
  let (host, usesInput) ←
    match CommandLine.Arguments.ofWords? words with
    | .ok arguments => pure (← hostFor bare arguments, arguments.usesStdin)
    | .error _ => pure (bare, false)
  let input ← if usesInput then readInput (← IO.getStdin) [] else pure []
  let outcome := CommandLine.run host (some program) words input
  (← IO.getStdout).write ⟨outcome.output.toArray⟩
  (← IO.getStderr).putStr outcome.errorText
  return outcome.exit.code.toUInt32
