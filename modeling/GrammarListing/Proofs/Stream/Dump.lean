import GrammarListing.FileSystem.Basic
import GrammarListing.Proofs.Alignment
namespace GrammarListing

/-! What a dump comes to.  It depends on a reader only by the bytes that it yields and by how it
ends; and writing line by line is writing all the lines at once, up to the room of the sink. -/

namespace Reader

/-- A reader yields bytes and then ends, or fails.  Interruptions do not count, and an empty piece
is the end. -/
inductive Yields : Reader → Bytes → Option Fault → Prop
  | ended : Yields [] [] none
  | empty (later : Reader) : Yields (.piece [] :: later) [] none
  | failed (fault : Fault) (later : Reader) : Yields (.failed fault :: later) [] (some fault)
  | interrupted {later : Reader} {source : Bytes} {ending : Option Fault}
      (hlater : Yields later source ending) : Yields (.interrupted :: later) source ending
  | piece {bytes : Bytes} {later : Reader} {source : Bytes} {ending : Option Fault}
      (hne : bytes ≠ []) (hlater : Yields later source ending) :
      Yields (.piece bytes :: later) (bytes ++ source) ending

theorem exists_yields (reader : Reader) : ∃ source ending, reader.Yields source ending := by
  induction reader with
  | nil => exact ⟨[], none, .ended⟩
  | cons step later ih =>
      obtain ⟨source, ending, hlater⟩ := ih
      cases step with
      | piece bytes =>
          by_cases hempty : bytes = []
          · subst hempty
            exact ⟨[], none, .empty later⟩
          · exact ⟨bytes ++ source, ending, .piece hempty hlater⟩
      | interrupted => exact ⟨source, ending, .interrupted hlater⟩
      | failed fault => exact ⟨[], some fault, .failed fault later⟩

theorem collect_cons (step : ReadStep) (later : Reader) :
    collect (step :: later) = collectStep step later.collect :=
  rfl

theorem collectStep_piece {bytes : Bytes} (hne : bytes ≠ [])
    (later : Except Fault (List Bytes)) :
    collectStep (.piece bytes) later = later.map (bytes :: ·) := by
  cases bytes with
  | nil => exact absurd rfl hne
  | cons byte bytes => rfl

theorem Yields.collect_of_failed {reader : Reader} {source : Bytes} {fault : Fault}
    (hyields : reader.Yields source (some fault)) : reader.collect = .error fault := by
  generalize hending : some fault = ending at hyields
  induction hyields with
  | ended => cases hending
  | empty later => cases hending
  | failed other later =>
      cases hending
      rfl
  | interrupted _ ih => exact ih hending
  | piece hne _ ih =>
      rw [collect_cons, collectStep_piece hne, ih hending]
      rfl

theorem Yields.collect_of_ended {reader : Reader} {source : Bytes}
    (hyields : reader.Yields source none) :
    ∃ pieces, reader.collect = .ok pieces ∧ pieces.flatten = source := by
  generalize hending : none = ending at hyields
  induction hyields with
  | ended => exact ⟨[], rfl, rfl⟩
  | empty later => exact ⟨[], rfl, rfl⟩
  | failed fault later => cases hending
  | interrupted _ ih => exact ih hending
  | @piece bytes later source ending hne _ ih =>
      obtain ⟨pieces, hcollect, hflatten⟩ := ih hending
      refine ⟨bytes :: pieces, ?_, by rw [List.flatten_cons, hflatten]⟩
      rw [collect_cons, collectStep_piece hne, hcollect]
      rfl

end Reader

namespace Sink

def Fits (sink : Sink) (size : Nat) : Prop :=
  ∀ limit fault, sink.room = some (limit, fault) → size ≤ limit

structure Takes (sink : Sink) (bytes : Bytes) (after : Sink) : Prop where
  received : after.received = sink.received ++ bytes
  room : after.room = sink.room.map fun limit => (limit.1 - bytes.length, limit.2)
  flushFault : after.flushFault = sink.flushFault
  flushes : after.flushes = sink.flushes

theorem Takes.nil (sink : Sink) : sink.Takes [] sink where
  received := (List.append_nil _).symm
  room := by simp
  flushFault := rfl
  flushes := rfl

theorem Takes.trans {sink middle after : Sink} {first second : Bytes}
    (hfirst : sink.Takes first middle) (hsecond : middle.Takes second after) :
    sink.Takes (first ++ second) after where
  received := by rw [hsecond.received, hfirst.received, List.append_assoc]
  room := by
    rw [hsecond.room, hfirst.room, Option.map_map]
    simp only [Function.comp_def, Nat.sub_sub, List.length_append]
  flushFault := hsecond.flushFault.trans hfirst.flushFault
  flushes := hsecond.flushes.trans hfirst.flushes

/-- Writing bytes either takes them all, or takes what there is room for and reports the fault. -/
inductive Writes (sink : Sink) (bytes : Bytes) : Sink × Option Fault → Prop
  | whole {after : Sink} (hfits : sink.Fits bytes.length) (htakes : sink.Takes bytes after) :
      Writes sink bytes (after, none)
  | cut {after : Sink} {limit : Nat} {fault : Fault} (hroom : sink.room = some (limit, fault))
      (hover : limit < bytes.length) (htakes : sink.Takes (bytes.take limit) after) :
      Writes sink bytes (after, some fault)

theorem write_writes (sink : Sink) (bytes : Bytes) : sink.Writes bytes (sink.write bytes) := by
  unfold write
  split
  · next hroom =>
      refine .whole (fun limit fault hlimit => ?_) ⟨?_, ?_, rfl, rfl⟩
      · rw [hroom] at hlimit
        cases hlimit
      · simp [received]
      · simp [hroom]
  · next limit fault hroom =>
      split
      · next hle =>
          refine .whole (fun other _ hother => ?_) ⟨?_, ?_, rfl, rfl⟩
          · rw [hroom] at hother
            cases hother
            exact hle
          · simp [received]
          · simp [hroom]
      · next hover =>
          refine .cut hroom (Nat.lt_of_not_le hover) ⟨?_, ?_, rfl, rfl⟩
          · simp [received]
          · simp only [hroom, Option.map_some, List.length_take]
            congr 2
            omega

theorem Writes.append {sink middle : Sink} {first second : Bytes} {outcome : Sink × Option Fault}
    (hfits : sink.Fits first.length) (htakes : sink.Takes first middle)
    (hwrites : middle.Writes second outcome) : sink.Writes (first ++ second) outcome := by
  cases hwrites with
  | whole hsecond hafter =>
      refine .whole (fun limit fault hroom => ?_) (htakes.trans hafter)
      have hfirst := hfits limit fault hroom
      have hrest := hsecond (limit - first.length) fault (by rw [htakes.room, hroom]; rfl)
      rw [List.length_append]
      omega
  | @cut after limit fault hroom hover hafter =>
      rw [htakes.room, Option.map_eq_some_iff] at hroom
      obtain ⟨⟨whole, _⟩, hroom, hlimit⟩ := hroom
      cases hlimit
      have hfirst := hfits whole _ hroom
      refine .cut hroom (by rw [List.length_append]; omega) ?_
      rw [List.take_append, List.take_of_length_le hfirst]
      exact htakes.trans hafter

/-- A write that was cut short is cut short at the same place when there is more to write. -/
theorem Writes.append_of_cut {sink after : Sink} {first : Bytes} {fault : Fault}
    (hwrites : sink.Writes first (after, some fault)) (second : Bytes) :
    sink.Writes (first ++ second) (after, some fault) := by
  cases hwrites with
  | @cut _ limit _ hroom hover htakes =>
      refine .cut hroom (by rw [List.length_append]; omega) ?_
      rwa [List.take_append_of_le_length (Nat.le_of_lt hover)]

theorem writeLines_writes (sink : Sink) (lines : List Text) :
    sink.Writes (Text.encode (lines.flatMap (· ++ ['\n']))) (sink.writeLines lines) := by
  -- What a line leaves of the room is what there is for its line feed and the lines after it.
  induction lines generalizing sink with
  | nil => exact .whole (fun limit _ _ => Nat.zero_le limit) (.nil sink)
  | cons line lines ih =>
      rw [List.flatMap_cons, Text.encode_append, Text.encode_append, List.append_assoc, writeLines]
      have hline := sink.write_writes line.encode
      split
      · next after fault heq =>
          rw [heq] at hline
          exact hline.append_of_cut _
      · next middle heq =>
          rw [heq] at hline
          cases hline with
          | whole hfits htakes =>
              refine .append hfits htakes ?_
              have hfeed := middle.write_writes (Text.encode ['\n'])
              split
              · next after fault heq =>
                  rw [heq] at hfeed
                  exact hfeed.append_of_cut _
              · next after heq =>
                  rw [heq] at hfeed
                  cases hfeed with
                  | whole hfits htakes => exact .append hfits htakes (ih after)

end Sink

def Listing.flushed (listing : Listing) (sink : Sink) : Except DumpError Summary :=
  match sink.flushFault with
  | some fault => .error (.unwritable fault)
  | none => .ok listing.summary

theorem Listing.emit_of_fits {listing : Listing} {sink : Sink}
    (hfits : sink.Fits listing.text.encode.length) :
    ∃ after, listing.emit sink = (listing.flushed sink, after) ∧
      after.received = sink.received ++ listing.text.encode ∧
      after.flushes = sink.flushes + 1 := by
  have hwrites := sink.writeLines_writes listing.lines
  rw [emit]
  generalize sink.writeLines listing.lines = outcome at hwrites
  cases hwrites with
  | @whole after _ htakes =>
      refine ⟨{ after with flushes := after.flushes + 1 }, ?_, htakes.received, ?_⟩
      · simp only [Sink.flush, flushed, htakes.flushFault]
        cases sink.flushFault <;> rfl
      · rw [← htakes.flushes]
  | cut hroom hover _ => exact absurd (hfits _ _ hroom) (Nat.not_le_of_lt hover)

theorem Listing.emit_whole (listing : Listing) {sink : Sink} (hroom : sink.room = none)
    (hflush : sink.flushFault = none) :
    ∃ after, listing.emit sink = (.ok listing.summary, after) ∧
      after.received = sink.received ++ listing.text.encode := by
  have hfits : sink.Fits listing.text.encode.length := by
    intro limit fault hlimit
    rw [hroom] at hlimit
    cases hlimit
  obtain ⟨after, hemit, hreceived, _⟩ := Listing.emit_of_fits hfits
  rw [flushed, hflush] at hemit
  exact ⟨after, hemit, hreceived⟩

theorem Listing.emit_unlimited (listing : Listing) :
    ∃ after, listing.emit .unlimited = (.ok listing.summary, after) ∧
      after.received = listing.text.encode :=
  listing.emit_whole rfl rfl

theorem Listing.emit_of_over {listing : Listing} {sink : Sink} {limit : Nat} {fault : Fault}
    (hroom : sink.room = some (limit, fault)) (hover : limit < listing.text.encode.length) :
    ∃ after, listing.emit sink = (.error (.unwritable fault), after) ∧
      after.received = sink.received ++ listing.text.encode.take limit ∧
      after.flushes = sink.flushes := by
  have hwrites := sink.writeLines_writes listing.lines
  rw [emit]
  generalize sink.writeLines listing.lines = outcome at hwrites
  cases hwrites with
  | whole hfits _ => exact absurd (hfits limit fault hroom) (Nat.not_le_of_lt hover)
  | @cut after _ _ hother _ htakes =>
      rw [hroom] at hother
      cases hother
      exact ⟨after, rfl, htakes.received, htakes.flushes⟩

theorem Listing.received_of_emit {listing : Listing} {sink after : Sink} {summary : Summary}
    (hemit : listing.emit sink = (.ok summary, after)) :
    summary = listing.summary ∧ after.received = sink.received ++ listing.text.encode := by
  have hwrites := sink.writeLines_writes listing.lines
  rw [emit] at hemit
  generalize sink.writeLines listing.lines = outcome at hwrites hemit
  cases hwrites with
  | cut _ _ _ => cases hemit
  | @whole written _ htakes =>
      simp only [Sink.flush] at hemit
      cases hflush : written.flushFault with
      | some fault =>
          rw [hflush] at hemit
          cases hemit
      | none =>
          rw [hflush] at hemit
          cases hemit
          exact ⟨rfl, htakes.received⟩

theorem Reader.size_eq (pieces : List Bytes) : Reader.size pieces = pieces.flatten.length := by
  induction pieces with
  | nil => rfl
  | cons bytes pieces ih =>
      rw [List.flatten_cons, List.length_append, ← ih]
      rfl

section Dump

variable {reader : Reader} {source : Bytes} {sink : Sink} {prefixWidth : Nat} {name : String}

theorem dump_of_failed {fault : Fault} (hyields : reader.Yields source (some fault)) :
    dump reader sink prefixWidth name = (.error (.unreadable name fault), sink) := by
  rw [dump, hyields.collect_of_failed]

theorem dump_of_oversized (hyields : reader.Yields source none)
    (hover : maxSourceSize < source.length) :
    dump reader sink prefixWidth name = (.error (.oversized name source.length), sink) := by
  obtain ⟨pieces, hcollect, rfl⟩ := hyields.collect_of_ended
  simp only [dump, hcollect, Reader.size_eq]
  rw [if_pos hover]

theorem dump_of_ended (hyields : reader.Yields source none)
    (hle : source.length ≤ maxSourceSize) {listing : Listing}
    (hlisting : source.listing? prefixWidth = some listing) :
    dump reader sink prefixWidth name = listing.emit sink := by
  obtain ⟨pieces, hcollect, rfl⟩ := hyields.collect_of_ended
  simp only [dump, hcollect, Reader.size_eq, hlisting]
  rw [if_neg (Nat.not_lt_of_le hle)]

theorem received_of_dump {ending : Option Fault} {summary : Summary} {after : Sink}
    (hyields : reader.Yields source ending)
    (hdump : dump reader sink prefixWidth name = (.ok summary, after)) :
    ∃ listing, source.listing? prefixWidth = some listing ∧ summary = listing.summary ∧
      after.received = sink.received ++ listing.text.encode := by
  have hlisting := source.listing?_eq prefixWidth
  cases ending with
  | some fault =>
      rw [dump_of_failed hyields] at hdump
      cases hdump
  | none =>
      by_cases hle : source.length ≤ maxSourceSize
      · rw [dump_of_ended hyields hle hlisting] at hdump
        exact ⟨_, hlisting, Listing.received_of_emit hdump⟩
      · rw [dump_of_oversized hyields (Nat.lt_of_not_le hle)] at hdump
        cases hdump

theorem dump_eq_of_yields {other : Reader} {ending : Option Fault}
    (hyields : reader.Yields source ending) (hother : other.Yields source ending) :
    dump other sink prefixWidth name = dump reader sink prefixWidth name := by
  cases ending with
  | some fault => rw [dump_of_failed hyields, dump_of_failed hother]
  | none =>
      by_cases hle : source.length ≤ maxSourceSize
      · have hlisting := source.listing?_eq prefixWidth
        rw [dump_of_ended hyields hle hlisting, dump_of_ended hother hle hlisting]
      · have hover := Nat.lt_of_not_le hle
        rw [dump_of_oversized hyields hover, dump_of_oversized hother hover]

end Dump

theorem dump_outcome {reader : Reader} {source : Bytes} {ending : Option Fault}
    (hyields : reader.Yields source ending) (sink : Sink) (prefixWidth : Nat) (name : String) :
    ∃ listing, source.listing? prefixWidth = some listing ∧
      (∀ fault, ending = some fault →
        dump reader sink prefixWidth name = (.error (.unreadable name fault), sink)) ∧
      (ending = none → maxSourceSize < source.length →
        dump reader sink prefixWidth name = (.error (.oversized name source.length), sink)) ∧
      (ending = none → source.length ≤ maxSourceSize →
        (∀ limit fault, sink.room = some (limit, fault) → limit < listing.text.encode.length →
          ∃ after, dump reader sink prefixWidth name = (.error (.unwritable fault), after) ∧
            after.received = sink.received ++ listing.text.encode.take limit ∧
            after.flushes = sink.flushes) ∧
        (sink.Fits listing.text.encode.length →
          ∃ result after, dump reader sink prefixWidth name = (result, after) ∧
            after.received = sink.received ++ listing.text.encode ∧
            after.flushes = sink.flushes + 1 ∧
            (∀ fault, sink.flushFault = some fault → result = .error (.unwritable fault)) ∧
            (sink.flushFault = none → ∃ summary, result = .ok summary ∧
              summary.lineNumbers = (source.rules prefixWidth).map Rule.lineNumber ∧
              summary.column = Rule.commonColumn (source.rules prefixWidth) ∧
              summary.ruleCount = (source.rules prefixWidth).length))) ∧
      ∀ other : Reader, other.Yields source ending →
        dump other sink prefixWidth name = dump reader sink prefixWidth name := by
  have hlisting := source.listing?_eq prefixWidth
  refine ⟨_, hlisting, ?_, ?_, ?_, fun _ hother => dump_eq_of_yields hyields hother⟩
  · rintro fault rfl
    exact dump_of_failed hyields
  · rintro rfl hover
    exact dump_of_oversized hyields hover
  · rintro rfl hle
    rw [dump_of_ended hyields hle hlisting]
    refine ⟨fun _ _ hroom hover => Listing.emit_of_over hroom hover, fun hfits => ?_⟩
    obtain ⟨after, hemit, hreceived, hflushes⟩ := Listing.emit_of_fits hfits
    refine ⟨_, after, hemit, hreceived, hflushes, ?_, ?_⟩
    · intro fault hfault
      rw [Listing.flushed, hfault]
    · intro hfault
      rw [Listing.flushed, hfault]
      exact ⟨_, rfl, rfl, rfl, List.length_map _⟩

theorem dump_outcome_cut :
    ∃ after, dump [.interrupted, .piece (Text.encode "// a ".toList), .interrupted,
        .piece (Text.encode "::= b".toList)] ⟨some (3, .notFound), none, [], 0⟩ 3 "input" =
        (.error (.unwritable .notFound), after) ∧
      after.received = Text.encode "a :".toList ∧ after.flushes = 0 := by
  have hyields : Reader.Yields [.interrupted, .piece (Text.encode "// a ".toList), .interrupted,
      .piece (Text.encode "::= b".toList)] (Text.encode "// a ::= b".toList) none :=
    .interrupted (.piece (by decide) (.interrupted (.piece (by decide) .ended)))
  obtain ⟨listing, hlisting, _, _, hended, _⟩ :=
    dump_outcome hyields ⟨some (3, .notFound), none, [], 0⟩ 3 "input"
  have hknown : Bytes.listing? (Text.encode "// a ::= b".toList) 3 =
      some ⟨["a ::= b".toList], [1], 2⟩ := by
    rw [Bytes.listing?_eq]
    decide
  cases hlisting.symm.trans hknown
  exact (hended rfl (by decide)).1 3 .notFound rfl (by decide)

namespace Host

variable {host : Host} {path : Path} {contents : Contents}

theorem contents_eq_ok_iff :
    host.contents path = .ok contents ↔ host.lookup path = .ok (.file contents) := by
  unfold Host.contents
  constructor
  · intro hcontents
    cases hlookup : host.lookup path with
    | error fault =>
        rw [hlookup] at hcontents
        cases hcontents
    | ok entry =>
        rw [hlookup] at hcontents
        cases entry with
        | file found =>
            cases hcontents
            rfl
        | unreadable size fault => cases hcontents
        | directory => cases hcontents
  · intro hlookup
    rw [hlookup]
    rfl

theorem readSource_of_contents (hcontents : host.contents path = .ok contents)
    (hle : contents.bytes.length ≤ maxSourceSize) :
    host.readSource path = .ok contents.bytes := by
  rw [Contents.length_bytes] at hle
  rw [readSource, contents_eq_ok_iff.mp hcontents]
  exact if_neg (Nat.not_lt_of_le hle)

theorem readSource_of_oversized (hcontents : host.contents path = .ok contents)
    (hover : maxSourceSize < contents.bytes.length) :
    host.readSource path = .error (.oversized path.display contents.bytes.length) := by
  rw [Contents.length_bytes] at hover ⊢
  rw [readSource, contents_eq_ok_iff.mp hcontents]
  exact if_pos hover

theorem readSource_of_unreadable (hcontents : ∀ contents, host.contents path ≠ .ok contents) :
    ∃ error, host.readSource path = .error error := by
  simp only [ne_eq, contents_eq_ok_iff] at hcontents
  rw [readSource]
  cases hlookup : host.lookup path with
  | error fault => exact ⟨_, rfl⟩
  | ok entry =>
      dsimp only
      split
      · exact ⟨_, rfl⟩
      · cases entry with
        | file found => exact absurd hlookup (hcontents found)
        | unreadable size fault => exact ⟨_, rfl⟩
        | directory => exact ⟨_, rfl⟩

theorem dumpFile_of_error {error : DumpError} (herror : host.readSource path = .error error)
    (prefixWidth : Nat) (sink : Sink) :
    host.dumpFile path prefixWidth sink = (.error error, sink) := by
  rw [dumpFile, herror]

theorem dumpFile_of_ok {source : Bytes} (hread : host.readSource path = .ok source)
    (prefixWidth : Nat) (sink : Sink) :
    host.dumpFile path prefixWidth sink =
      dump [.piece source] sink prefixWidth path.display := by
  rw [dumpFile, hread]

theorem extract_of_error {error : DumpError} (herror : host.readSource path = .error error)
    (prefixWidth : Nat) : host.extract path prefixWidth = .error error := by
  rw [extract, herror]

theorem extract_of_ok {source : Bytes} (hread : host.readSource path = .ok source)
    {prefixWidth : Nat} {listing : Listing}
    (hlisting : source.listing? prefixWidth = some listing) :
    host.extract path prefixWidth = .ok listing := by
  simp only [extract, hread, hlisting]

theorem dumpFile_congr {other : Host} (hlookup : other.lookup path = host.lookup path)
    (prefixWidth : Nat) (sink : Sink) :
    other.dumpFile path prefixWidth sink = host.dumpFile path prefixWidth sink := by
  simp only [dumpFile, readSource, hlookup]

end Host

theorem Reader.yields_singleton (source : Bytes) :
    Reader.Yields [.piece source] source none := by
  by_cases hempty : source = []
  · subst hempty
    exact .empty []
  · simpa using Yields.piece hempty .ended

end GrammarListing
