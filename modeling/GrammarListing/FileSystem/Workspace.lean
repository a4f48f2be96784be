import GrammarListing.FileSystem.Basic
namespace GrammarListing

/-! File trees.  A walk follows the segments of a path and remembers the directories it came
through, so that two dots lead back; it needs a directory for every step, also for one that
names nothing.  A directory that was taken out of the tree is empty, and nothing can be put into
it, but who is in it still finds the way back. -/

inductive Tree where
  | file (contents : Contents)
  | directory (entries : List (Bytes × Tree))

namespace Tree

def empty : Tree := .directory []

def maxNameLength : Nat := 255

def maxPathLength : Nat := 4096

/-- Where a walk stands: the names and directories it came through, innermost first.  As many
names as `lost` says are no longer in the tree. -/
structure Place where
  trail : List (Bytes × Tree)
  here : Tree
  lost : Nat

def root (tree : Tree) : Place := ⟨[], tree, 0⟩

namespace Place

def names (place : Place) : List Bytes :=
  (place.trail.map (·.1)).reverse

def entry (place : Place) : Entry :=
  match place.here with
  | .file contents => .file contents
  | .directory _ => .directory

def isDirectory (place : Place) : Bool :=
  place.entry == .directory

def step (place : Place) (segment : Bytes) : Except Fault Place :=
  match place.here with
  | .file _ => .error .notADirectory
  | .directory entries =>
      if Path.isTrivial segment then .ok place
      else if segment = [Path.dot, Path.dot] then
        match place.trail with
        | [] => .ok place
        | (_, up) :: trail => .ok ⟨trail, up, place.lost - 1⟩
      else if place.lost ≠ 0 then .error .notFound
      else if segment.length > maxNameLength then .error .nameTooLong
      else
        match entries.lookup segment with
        | none => .error .notFound
        | some next => .ok ⟨(segment, place.here) :: place.trail, next, 0⟩

def walk (place : Place) (segments : List Bytes) : Except Fault Place :=
  segments.foldlM step place

def lose (place : Place) (name : Bytes) : Place :=
  ⟨(name, place.here) :: place.trail, empty, place.lost + 1⟩

end Place

/-- The directory that somebody is in: the names that lead there through the tree, and after
them the names that are no longer in it. -/
structure Location where
  kept : List Bytes
  lost : List Bytes

namespace Location

def ofPlace (place : Place) : Location :=
  let kept := place.names.length - place.lost
  ⟨place.names.take kept, place.names.drop kept⟩

def place (location : Location) (tree : Tree) : Place :=
  let kept := location.kept.foldl
    (fun place name => (place.step name).toOption.getD (place.lose name)) tree.root
  location.lost.foldl Place.lose kept

def without (location : Location) (names : List Bytes) (count : Nat) : Location :=
  if names.isPrefixOf location.kept then
    ⟨location.kept.take count, location.kept.drop count ++ location.lost⟩
  else location

def path? (location : Location) : Option Path :=
  if location.lost.isEmpty then some ⟨Path.slash :: Path.joinSlashes location.kept⟩ else none

end Location

def pathFault? (path : Path) : Option Fault :=
  if path.bytes.contains 0 then some .nulInName
  else if path.isEmpty then some .notFound
  else if path.bytes.length ≥ maxPathLength then some .nameTooLong
  else none

def start (tree : Tree) (here : Place) (path : Path) : Place :=
  if path.isAbsolute then tree.root else here

def find (tree : Tree) (here : Place) (path : Path) : Except Fault Place :=
  match pathFault? path with
  | some fault => .error fault
  | none => (tree.start here path).walk (Path.cutSlashes path.bytes)

def fileSystem (tree : Tree) (here : Place) : FileSystem where
  lookup directory path :=
    if path.isAbsolute then (tree.find here path).map Place.entry
    else do
      let place ← (tree.start here directory).walk (Path.cutSlashes directory.bytes)
      (tree.find place path).map Place.entry
  lookup_absolute := by
    intro path habsolute first second
    simp [habsolute]

private def putEntry (name : Bytes) (node : Tree) (entries : List (Bytes × Tree)) :
    List (Bytes × Tree) :=
  if entries.any (·.1 == name) then
    entries.map fun entry => if entry.1 == name then (name, node) else entry
  else entries ++ [(name, node)]

private def rebuild (trail : List (Bytes × Tree)) (node : Option Tree) : Tree :=
  let after := trail.foldl
    (fun node (name, up) =>
      match up, node with
      | .directory entries, some node => some (.directory (putEntry name node entries))
      | .directory entries, none => some (.directory (entries.filter (·.1 != name)))
      | .file contents, _ => some (.file contents))
    node
  after.getD empty

def Place.replace (place : Place) (node : Option Tree) : Tree :=
  rebuild place.trail node

def Place.put (place : Place) (name : Bytes) (node : Tree) : Tree :=
  rebuild ((name, place.here) :: place.trail) (some node)

def Place.look (place : Place) (name : Bytes) : Except Fault (Option Place) :=
  match place.step name with
  | .ok next => .ok (some next)
  | .error .notFound => if place.lost = 0 then .ok none else .error .notFound
  | .error fault => .error fault

structure Approach where
  way : List Bytes
  last : Path.Component
  isSlashed : Bool

def Approach.ofPath (path : Path) : Approach :=
  let reversed := (Path.cutSlashes path.bytes).reverse
  match reversed.dropWhile List.isEmpty with
  | [] => ⟨[], .root, true⟩
  | last :: before =>
      ⟨before.reverse, (Path.Component.ofSegment? last).getD .here, reversed.head? == some []⟩

def approach (tree : Tree) (here : Place) (path : Path) : Except Fault Place := do
  if let some fault := pathFault? path then throw fault
  let place ← (tree.start here path).walk (Approach.ofPath path).way
  if place.isDirectory then return place
  throw .notADirectory

def makeDirectory (tree : Tree) (here : Place) (path : Path) : Except Fault Tree := do
  let place ← tree.approach here path
  match (Approach.ofPath path).last with
  | .name name =>
      match ← place.look name with
      | some _ => throw .alreadyExists
      | none => return place.put name empty
  | _ => throw .alreadyExists

def writeFile (tree : Tree) (here : Place) (path : Path) (contents : Contents) :
    Except Fault Tree := do
  let place ← tree.approach here path
  match Approach.ofPath path with
  | ⟨_, .name name, false⟩ =>
      match ← place.look name with
      | some next =>
          if next.isDirectory then throw .isADirectory
          return next.replace (some (.file contents))
      | none => return place.put name (.file contents)
  | _ => throw .isADirectory

end Tree

/-! A workspace is a file tree with the directory and the variables that a run would find.  Its
operations lead from one workspace to the next, and one that fails may have come part of the
way. -/

structure Workspace where
  tree : Tree
  location : Tree.Location
  home : Option Bytes
  userProfile : Option Bytes

namespace Workspace

abbrev Step := Except Fault Unit × Workspace

def empty : Workspace := ⟨.empty, ⟨[], []⟩, none, none⟩

def place (workspace : Workspace) : Tree.Place :=
  workspace.location.place workspace.tree

def find (workspace : Workspace) (path : Path) : Except Fault Tree.Place :=
  workspace.tree.find workspace.place path

def currentDirectory (workspace : Workspace) : Path :=
  workspace.location.path?.getD ⟨[]⟩

def host (workspace : Workspace) : Host where
  files := workspace.tree.fileSystem workspace.place
  directory := workspace.currentDirectory
  home := workspace.home
  userProfile := workspace.userProfile

def isDirectory (workspace : Workspace) (path : Path) : Bool :=
  match workspace.find path with
  | .ok place => place.isDirectory
  | .error _ => false

def changed (workspace : Workspace) (result : Except Fault Tree) : Step :=
  match result with
  | .ok tree => (.ok (), { workspace with tree := tree })
  | .error fault => (.error fault, workspace)

def makeDirectory (workspace : Workspace) (path : Path) : Step :=
  match workspace.tree.makeDirectory workspace.place path with
  | .error .alreadyExists =>
      if workspace.isDirectory path then (.ok (), workspace)
      else (.error .alreadyExists, workspace)
  | result => workspace.changed result

def makeDirectories (workspace : Workspace) (path : Path) : Step :=
  if path.isEmpty then (.ok (), workspace)
  else
    match workspace.makeDirectory path with
    | (.error .notFound, workspace) =>
        match _h : path.parent? with
        | none => (.error .notFound, workspace)
        | some parent =>
            match workspace.makeDirectories parent with
            | (.ok _, workspace) => workspace.makeDirectory path
            | failed => failed
    | step => step
termination_by path.bytes.length
decreasing_by exact Path.length_lt_of_parent? _h

/-- Writes a file, making the directories on the way to it as far as that goes. -/
def write (workspace : Workspace) (path : Path) (contents : Contents) : Step :=
  let (_, workspace) := workspace.makeDirectories (path.parent?.getD ⟨[]⟩)
  workspace.changed (workspace.tree.writeFile workspace.place path contents)

def takeOut (workspace : Workspace) (place : Tree.Place) : Workspace :=
  if place.lost ≠ 0 then workspace
  else
    { workspace with
      tree := place.replace none
      location := workspace.location.without place.names (place.names.length - 1) }

def clear (workspace : Workspace) (place : Tree.Place) : Workspace :=
  if place.lost ≠ 0 then workspace
  else
    { workspace with
      tree := place.replace (some .empty)
      location := workspace.location.without place.names place.names.length }

/-- A directory is cleared first.  If the path leads nowhere after that, or does not end in the
directory's name, the directory stays. -/
def remove (workspace : Workspace) (path : Path) : Step :=
  match workspace.find path with
  | .error fault => (.error fault, workspace)
  | .ok place =>
      if !place.isDirectory then (.ok (), workspace.takeOut place)
      else
        let cleared := workspace.clear place
        match cleared.find path, (Tree.Approach.ofPath path).last with
        | .ok place, .name _ => (.ok (), cleared.takeOut place)
        | .ok _, .here => (.error .invalidArgument, cleared)
        | .ok _, _ => (.error .notEmpty, cleared)
        | .error .notFound, _ => (.ok (), cleared)
        | .error fault, _ => (.error fault, cleared)

def enter (workspace : Workspace) (path : Path) : Step :=
  match workspace.find path with
  | .error fault => (.error fault, workspace)
  | .ok place =>
      if place.isDirectory then (.ok (), { workspace with location := .ofPlace place })
      else (.error .notADirectory, workspace)

end Workspace

end GrammarListing
