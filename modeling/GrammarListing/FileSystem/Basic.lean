import GrammarListing.Path
import GrammarListing.Stream
namespace GrammarListing

/-! A file system is known by what each path leads to.  A relative path is taken from a
directory; an absolute path leads to the same place from everywhere. -/

/-- The bytes of a file: some data, then a run of zero bytes. -/
structure Contents where
  data : Bytes
  zeros : Nat
deriving DecidableEq

namespace Contents

def ofBytes (data : Bytes) : Contents := ⟨data, 0⟩

def size (contents : Contents) : Nat :=
  contents.data.length + contents.zeros

def bytes (contents : Contents) : Bytes :=
  contents.data ++ List.replicate contents.zeros 0

@[simp] theorem length_bytes (contents : Contents) : contents.bytes.length = contents.size := by
  simp [bytes, size]

@[simp] theorem bytes_ofBytes (data : Bytes) : (ofBytes data).bytes = data := by
  simp [ofBytes, bytes]

end Contents

/-- What a path leads to.  An unreadable file has a size but cannot be read. -/
inductive Entry where
  | file (contents : Contents)
  | unreadable (size : Nat) (fault : Fault)
  | directory
deriving DecidableEq

namespace Entry

def isFile : Entry → Bool
  | .file _ => true
  | .unreadable _ _ => true
  | .directory => false

def size : Entry → Nat
  | .file contents => contents.size
  | .unreadable size _ => size
  | .directory => 0

def contents : Entry → Except Fault Contents
  | .file contents => .ok contents
  | .unreadable _ fault => .error fault
  | .directory => .error .isADirectory

end Entry

structure FileSystem where
  lookup : Path → Path → Except Fault Entry
  lookup_absolute : ∀ {path : Path}, path.isAbsolute →
    ∀ first second : Path, lookup first path = lookup second path

structure Host where
  files : FileSystem
  directory : Path
  home : Option Bytes
  userProfile : Option Bytes

namespace Host

def lookup (host : Host) (path : Path) : Except Fault Entry :=
  host.files.lookup host.directory path

def isFile (host : Host) (path : Path) : Bool :=
  match host.lookup path with
  | .ok entry => entry.isFile
  | .error _ => false

def contents (host : Host) (path : Path) : Except Fault Contents :=
  host.lookup path >>= Entry.contents

def homeDirectory? (host : Host) : Option Path :=
  let readable := fun (value : Bytes) => value.decode?.isSome
  ((host.home.filter readable).or (host.userProfile.filter readable)).map Path.mk

end Host

abbrev Snapshot := List (Path × Except Fault Entry)

theorem Path.join_absolute (base : Path) {path : Path} (habsolute : path.isAbsolute) :
    base.join path = path := by
  simp [Path.join, habsolute]

def Snapshot.fileSystem (snapshot : Snapshot) : FileSystem where
  lookup directory path := (snapshot.lookup (directory.join path)).getD (.error .notFound)
  lookup_absolute := by
    intro path habsolute first second
    simp [Path.join_absolute _ habsolute]

namespace Host

def readSource (host : Host) (path : Path) : Except DumpError Bytes :=
  match host.lookup path with
  | .error fault => .error (.unreadable path.display fault)
  | .ok entry =>
      if entry.size > maxSourceSize then .error (.oversized path.display entry.size)
      else
        match entry.contents with
        | .error fault => .error (.unreadable path.display fault)
        | .ok contents => .ok contents.bytes

def extract (host : Host) (path : Path) (prefixWidth : Nat) : Except DumpError Listing :=
  match host.readSource path with
  | .error error => .error error
  | .ok bytes =>
      match Bytes.listing? bytes prefixWidth with
      | none => .error .brokenRule
      | some listing => .ok listing

def dumpFile (host : Host) (path : Path) (prefixWidth : Nat) (sink : Sink) :
    Except DumpError Summary × Sink :=
  match host.readSource path with
  | .error error => (.error error, sink)
  | .ok bytes => dump [.piece bytes] sink prefixWidth path.display

end Host

end GrammarListing
