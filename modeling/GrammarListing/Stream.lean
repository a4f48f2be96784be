import GrammarListing.Rule
namespace GrammarListing

inductive FaultKind where
  | permissionDenied
  | unexpectedEnd
  | storageFull
  | brokenPipe
  | other
deriving DecidableEq

inductive Fault where
  | notFound
  | notADirectory
  | isADirectory
  | alreadyExists
  | notEmpty
  | invalidArgument
  | nameTooLong
  | nulInName
  | malformedText
  | reported (kind : FaultKind) (detail : String)
deriving DecidableEq

def Fault.message : Fault → String
  | .notFound => "No such file or directory (os error 2)"
  | .notADirectory => "Not a directory (os error 20)"
  | .isADirectory => "Is a directory (os error 21)"
  | .alreadyExists => "File exists (os error 17)"
  | .notEmpty => "Directory not empty (os error 39)"
  | .invalidArgument => "Invalid argument (os error 22)"
  | .nameTooLong => "File name too long (os error 36)"
  | .nulInName => "file name contained an unexpected NUL byte"
  | .malformedText => "stream did not contain valid UTF-8"
  | .reported _ detail => detail

/-! A reader is the schedule of what its calls answer, one step a call; where the schedule ends,
the input ends.  Reading to the end asks again after an interruption. -/

inductive ReadStep where
  | piece (bytes : Bytes)
  | interrupted
  | failed (fault : Fault)

abbrev Reader := List ReadStep

namespace Reader

/-- What is read up to a step, in front of what is read after it.  An empty piece is the end of
the input. -/
def collectStep (step : ReadStep) (later : Except Fault (List Bytes)) :
    Except Fault (List Bytes) :=
  match step with
  | .piece [] => .ok []
  | .piece bytes => later.map (bytes :: ·)
  | .interrupted => later
  | .failed fault => .error fault

def collect (reader : Reader) : Except Fault (List Bytes) :=
  reader.foldr collectStep (.ok [])

def size (pieces : List Bytes) : Nat :=
  pieces.foldr (fun piece size => piece.length + size) 0

private def cutFrom (chunk : Nat) (fuel : Nat) (bytes : Bytes) (cut : List Bytes) : List Bytes :=
  match fuel, bytes with
  | _, [] => cut.reverse
  | 0, _ => (bytes :: cut).reverse
  | fuel + 1, _ => cutFrom chunk fuel (bytes.drop chunk) (bytes.take chunk :: cut)

def cut (chunk : Nat) (bytes : Bytes) : List Bytes :=
  if chunk = 0 then cutFrom chunk 0 bytes [] else cutFrom chunk bytes.length bytes []

def ofPieces (pieces : List Bytes) (interrupts : Bool) : Reader :=
  pieces.flatMap fun bytes =>
    if interrupts then [.piece bytes, .interrupted] else [.piece bytes]

def runPiece : Nat := 4096

def ofRun (length : Nat) (byte : UInt8) : Reader :=
  List.replicate (length / runPiece) (.piece (List.replicate runPiece byte)) ++
    match length % runPiece with
    | 0 => []
    | rest => [.piece (List.replicate rest byte)]

end Reader

structure Sink where
  room : Option (Nat × Fault)
  flushFault : Option Fault
  chunks : List Bytes
  flushes : Nat

namespace Sink

def unlimited : Sink := ⟨none, none, [], 0⟩

/-- All bytes received so far; the chunks come last first. -/
def received (sink : Sink) : Bytes :=
  sink.chunks.reverse.flatten

def write (sink : Sink) (bytes : Bytes) : Sink × Option Fault :=
  match sink.room with
  | none => ({ sink with chunks := bytes :: sink.chunks }, none)
  | some (room, fault) =>
      if bytes.length ≤ room then
        ({ sink with room := some (room - bytes.length, fault), chunks := bytes :: sink.chunks },
          none)
      else
        ({ sink with room := some (0, fault), chunks := bytes.take room :: sink.chunks },
          some fault)

def flush (sink : Sink) : Sink × Option Fault :=
  ({ sink with flushes := sink.flushes + 1 }, sink.flushFault)

def writeLines (sink : Sink) (lines : List Text) : Sink × Option Fault :=
  match lines with
  | [] => (sink, none)
  | line :: rest =>
      match sink.write line.encode with
      | (sink, some fault) => (sink, some fault)
      | (sink, none) =>
          match sink.write (Text.encode ['\n']) with
          | (sink, some fault) => (sink, some fault)
          | (sink, none) => writeLines sink rest

end Sink

/-! Writing the listing of a document from a reader to a sink.  The whole document is read
before the first byte is written, and the sink is flushed once, after the last line. -/

def maxSourceSize : Nat := 100 * 1024 * 1024

inductive DumpError where
  | unreadable (name : String) (fault : Fault)
  | oversized (name : String) (size : Nat)
  | unwritable (fault : Fault)
  | brokenRule
deriving DecidableEq

namespace DumpError

def headline : DumpError → String
  | .unreadable name _ => "failed to read " ++ name
  | .oversized name size =>
      name ++ " is too large (" ++ toString (size / (1024 * 1024)) ++ " MB exceeds limit of " ++
        toString (maxSourceSize / (1024 * 1024)) ++ " MB)"
  | .unwritable fault => fault.message
  | .brokenRule => "rule marks no place in its text"

def cause? : DumpError → Option Fault
  | .unreadable _ fault => some fault
  | _ => none

def fault? : DumpError → Option Fault
  | .unreadable _ fault => some fault
  | .unwritable fault => some fault
  | _ => none

def message (error : DumpError) : String :=
  match error.cause? with
  | some fault => error.headline ++ ": " ++ fault.message
  | none => error.headline

end DumpError

structure Summary where
  lineNumbers : List Nat
  column : Nat
deriving DecidableEq

def Summary.ruleCount (summary : Summary) : Nat :=
  summary.lineNumbers.length

def Listing.summary (listing : Listing) : Summary :=
  ⟨listing.lineNumbers, listing.column⟩

def Listing.emit (listing : Listing) (sink : Sink) : Except DumpError Summary × Sink :=
  match sink.writeLines listing.lines with
  | (sink, some fault) => (.error (.unwritable fault), sink)
  | (sink, none) =>
      match sink.flush with
      | (sink, some fault) => (.error (.unwritable fault), sink)
      | (sink, none) => (.ok listing.summary, sink)

def dump (reader : Reader) (sink : Sink) (prefixWidth : Nat) (name : String) :
    Except DumpError Summary × Sink :=
  match reader.collect with
  | .error fault => (.error (.unreadable name fault), sink)
  | .ok pieces =>
      if Reader.size pieces > maxSourceSize then
        (.error (.oversized name (Reader.size pieces)), sink)
      else
        match Bytes.listing? pieces.flatten prefixWidth with
        | none => (.error .brokenRule, sink)
        | some listing => listing.emit sink

end GrammarListing
