import GrammarListing.Proofs.CommandLine.Arguments
namespace GrammarListing

theorem DumpError.message_oversized (name : String) (size : Nat) :
    (oversized name size).message = name ++ (oversized "" size).message := by
  simp only [message, cause?, headline, String.append_assoc, String.empty_append]

def Host.ofFile (path : Path) (source : Bytes) : Host :=
  ⟨Snapshot.fileSystem [(path, .ok (.file (.ofBytes source)))], .ofString "/", none, none⟩

namespace CommandLine

/-- Words name a file and a prefix width, and no configuration file. -/
def Requests (words : List Bytes) (file : Path) (prefixWidth : Nat) : Prop :=
  ∃ arguments, Arguments.ofWords? words = .ok arguments ∧ arguments.file = some file ∧
    arguments.prefixWidth = some prefixWidth ∧ arguments.config = none

def widthWords (prefixWidth : Nat) (file : Path) : List Bytes :=
  [Text.encode "-p".toList, Text.encode (Nat.toDigits 10 prefixWidth), file.bytes]

theorem requests_widthWords {prefixWidth : Nat} (hwidth : prefixWidth ≤ Config.maxPrefixWidth)
    {file : Path} (hplain : Plain file.bytes) (hfile : ¬ file.isEmpty) :
    Requests (widthWords prefixWidth file) file prefixWidth := by
  have hdecimal := Text.decimal_toDigits prefixWidth
  have hgivable : Arguments.Givable ⟨some file, some prefixWidth, none, false⟩ := by
    refine ⟨?_, ?_, ?_⟩
    · rintro _ ⟨⟩
      exact hfile
    · rintro _ ⟨⟩
      exact Nat.lt_of_le_of_lt hwidth (by decide)
    · rintro _ ⟨⟩
  have htold : Arguments.Told ⟨some file, some prefixWidth, none, false⟩
      [.parameter .prefixWidth (Text.encode (Nat.toDigits 10 prefixWidth)),
        .parameter .file file.bytes] := by
    refine ⟨?_, by simp [Mention.named], ?_⟩
    · simp only [List.forall_mem_cons]
      exact ⟨.prefixWidth rfl hdecimal, .file rfl, List.forall_mem_nil _⟩
    · rintro ((_ | _ | _) | (_ | _ | _)) <;> simp [Arguments.gives, Arguments.has, Mention.named]
  have hspelling : Spelling [.parameter .prefixWidth (Text.encode (Nat.toDigits 10 prefixWidth)),
      .parameter .file file.bytes] (widthWords prefixWidth file) :=
    .cons (.apart List.mem_cons_self (plain_of_decimal hdecimal)) (.cons (.alone hplain) .nil)
  exact ⟨_, Arguments.ofWords?_of_spelledBy hgivable ⟨_, htold, hspelling⟩, rfl, rfl, rfl⟩

structure Outcome.Wrote (outcome : Outcome) (bytes : Bytes) : Prop where
  exit : outcome.exit.code = 0
  output : outcome.output = bytes

structure Outcome.FailedFor (outcome : Outcome) (reason : String) : Prop where
  exit : outcome.exit.code = 1
  output : outcome.output = []
  said : ∃ last, outcome.messages.getLast? = some last ∧ last.text = "Error: " ++ reason ++ "\n"

theorem Message.text_of_no_cause {failure : Failure} (hcause : failure.cause? = none) :
    (Message.failure failure).text = "Error: " ++ failure.headline ++ "\n" := by
  unfold text
  dsimp only
  rw [hcause, String.append_empty]

theorem Arguments.getLast?_shown (arguments : Arguments) (messages : List Message)
    (failure : Failure) :
    (arguments.shown (messages ++ [.failure failure])).getLast? = some (.failure failure) := by
  have hkept : [Message.failure failure].filter
      (fun message => arguments.debug || !message.isNote) = [.failure failure] := by
    simp [Message.isNote]
  rw [shown, List.filter_append, hkept, List.getLast?_concat]

theorem runWith_failedFor {host : Host} {arguments : Arguments} {config : Config} {input : Reader}
    (hconfig : effectiveConfig host arguments = .ok config) {name : String} {size : Nat}
    (hwrite : write host arguments config input = (.error (.oversized name size), .unlimited)) :
    (runWith host arguments input).FailedFor (DumpError.oversized name size).message := by
  obtain ⟨hexit, houtput⟩ := runWith_of_unwritten hconfig hwrite
  refine ⟨by rw [hexit]; rfl, houtput, .failure (.dump (.oversized name size)), ?_,
    Message.text_of_no_cause rfl⟩
  unfold effectiveConfig at hconfig
  simp only [runWith, hconfig, hwrite, Arguments.getLast?_shown]

theorem runWith_failedFor_headline {host : Host} {arguments : Arguments} {failure : Failure}
    (herror : effectiveConfig host arguments = .error failure) (hcause : failure.cause? = none)
    (input : Reader) : (runWith host arguments input).FailedFor failure.headline := by
  obtain ⟨hexit, houtput⟩ := runWith_of_misconfigured herror input
  refine ⟨by rw [hexit]; rfl, houtput, .failure failure, ?_, Message.text_of_no_cause hcause⟩
  unfold effectiveConfig at herror
  simp only [runWith, herror, Arguments.getLast?_shown]

def fileName (file : Path) : String :=
  if file = Arguments.stdinName then "stdin" else file.display

namespace Requests

variable {words : List Bytes} {file : Path} {prefixWidth : Nat} {source : Bytes} {host : Host}
  {input : Reader}

theorem run_of_supplied (hrequests : Requests words file prefixWidth) (hfile : ¬ file.isEmpty)
    (hwidth : prefixWidth ≤ Config.maxPrefixWidth)
    (hsupplies : ∀ arguments, arguments.file = some file →
      Supplies host arguments ⟨file, prefixWidth⟩ input source) (program : Option Path) :
    (source.length ≤ maxSourceSize → ∀ listing, source.listing? prefixWidth = some listing →
      (run host program words input).Wrote listing.text.encode) ∧
    (maxSourceSize < source.length →
      (run host program words input).FailedFor
        (DumpError.oversized (fileName file) source.length).message) := by
  obtain ⟨arguments, haccepted, hnamed, hgiven, hnone⟩ := hrequests
  have hconfig := (Effective.of_given hnone hnamed hgiven host).effectiveConfig_of_usable
    ((Config.defect?_eq_none_iff _).mpr ⟨hfile, hwidth⟩)
  have hsource := hsupplies arguments hnamed
  rw [run_of_accepted haccepted]
  refine ⟨fun hle listing hlisting => ?_, fun hover => ?_⟩
  · obtain ⟨after, hemit, hreceived⟩ := listing.emit_unlimited
    obtain ⟨hexit, houtput⟩ := runWith_of_written hconfig
      ((hsource.write_eq hle hlisting).trans hemit)
    exact ⟨by rw [hexit]; rfl, houtput.trans hreceived⟩
  · have hname : sourceName arguments ⟨file, prefixWidth⟩ = fileName file := by
      simp only [sourceName, fileName, usesStdin_iff, hnamed, Option.some.injEq]
    have hwrite := hsource.write_of_oversized hover
    rw [hname] at hwrite
    exact runWith_failedFor hconfig hwrite

theorem run_file (hrequests : Requests words file prefixWidth) (hfile : ¬ file.isEmpty)
    (hother : file ≠ Arguments.stdinName) (hwidth : prefixWidth ≤ Config.maxPrefixWidth)
    {contents : Contents} (hcontents : host.contents file = .ok contents)
    (program : Option Path) (input : Reader) :
    (contents.bytes.length ≤ maxSourceSize →
      ∀ listing, contents.bytes.listing? prefixWidth = some listing →
        (run host program words input).Wrote listing.text.encode) ∧
    (maxSourceSize < contents.bytes.length →
      (run host program words input).FailedFor
        (file.display ++ (DumpError.oversized "" contents.bytes.length).message)) := by
  have hname : fileName file = file.display := if_neg hother
  rw [← DumpError.message_oversized, ← hname]
  refine hrequests.run_of_supplied hfile hwidth (fun arguments hnamed => ?_) program
  refine .file (fun hstdin => ?_) hcontents
  rw [usesStdin_iff, hnamed, Option.some.injEq] at hstdin
  exact hother hstdin

theorem run_stdin (hrequests : Requests words Arguments.stdinName prefixWidth)
    (hwidth : prefixWidth ≤ Config.maxPrefixWidth) (hyields : input.Yields source none)
    (host : Host) (program : Option Path) :
    (source.length ≤ maxSourceSize → ∀ listing, source.listing? prefixWidth = some listing →
      (run host program words input).Wrote listing.text.encode) ∧
    (maxSourceSize < source.length →
      (run host program words input).FailedFor
        ("stdin" ++ (DumpError.oversized "" source.length).message)) := by
  have hname : fileName Arguments.stdinName = "stdin" := if_pos rfl
  rw [← DumpError.message_oversized, ← hname]
  exact hrequests.run_of_supplied (by decide) hwidth
    (fun _ hnamed => .stdin (usesStdin_iff.mpr hnamed) hyields) program

end Requests

theorem extraction_agrees {host : Host} {path : Path} {contents : Contents} {prefixWidth : Nat}
    (hcontents : host.contents path = .ok contents) (hfile : ¬ path.isEmpty)
    (hhead : path.bytes.head? ≠ some Progress.dash)
    (hwidth : prefixWidth ≤ Config.maxPrefixWidth) :
    Requests (widthWords prefixWidth path) path prefixWidth ∧
    Requests (widthWords prefixWidth Arguments.stdinName) Arguments.stdinName prefixWidth ∧
    (contents.bytes.length ≤ maxSourceSize → ∃ listing,
      contents.bytes.listing? prefixWidth = some listing ∧
      host.extract path prefixWidth = .ok listing ∧
      (∀ (reader : Reader) (sink : Sink) (name : String), reader.Yields contents.bytes none →
        sink.room = none → sink.flushFault = none →
        ∃ summary after, dump reader sink prefixWidth name = (.ok summary, after) ∧
          after.received = sink.received ++ listing.text.encode) ∧
      (∀ words program input, Requests words path prefixWidth →
        (run host program words input).Wrote listing.text.encode) ∧
      ∀ (other : Host) words program (input : Reader),
        Requests words Arguments.stdinName prefixWidth → input.Yields contents.bytes none →
        (run other program words input).Wrote listing.text.encode) ∧
    (maxSourceSize < contents.bytes.length → ∃ reason,
      (∃ error, host.extract path prefixWidth = .error error ∧
        error.message = path.display ++ reason) ∧
      (∀ (reader : Reader) (sink : Sink) (name : String), reader.Yields contents.bytes none →
        ∃ error, dump reader sink prefixWidth name = (.error error, sink) ∧
          error.message = name ++ reason) ∧
      (∀ words program input, Requests words path prefixWidth →
        (run host program words input).FailedFor (path.display ++ reason)) ∧
      ∀ (other : Host) words program (input : Reader),
        Requests words Arguments.stdinName prefixWidth → input.Yields contents.bytes none →
        (run other program words input).FailedFor ("stdin" ++ reason)) := by
  have hother : path ≠ Arguments.stdinName := by
    rintro rfl
    exact hhead rfl
  refine ⟨requests_widthWords hwidth (.inr hhead) hfile,
    requests_widthWords hwidth (.inl rfl) (by decide), fun hle => ?_, fun hover => ?_⟩
  · obtain ⟨listing, hlisting⟩ : ∃ listing, contents.bytes.listing? prefixWidth = some listing :=
      ⟨_, contents.bytes.listing?_eq prefixWidth⟩
    have hread := Host.readSource_of_contents hcontents hle
    refine ⟨listing, hlisting, Host.extract_of_ok hread hlisting, ?_, ?_, ?_⟩
    · intro reader sink name hyields hroom hflush
      obtain ⟨after, hemit, hreceived⟩ := listing.emit_whole hroom hflush
      exact ⟨_, after, (dump_of_ended hyields hle hlisting).trans hemit, hreceived⟩
    · intro words program input hrequests
      exact (hrequests.run_file hfile hother hwidth hcontents program input).1 hle listing hlisting
    · intro other words program input hrequests hyields
      exact (hrequests.run_stdin hwidth hyields other program).1 hle listing hlisting
  · have hread := Host.readSource_of_oversized hcontents hover
    refine ⟨(DumpError.oversized "" contents.bytes.length).message,
      ⟨_, Host.extract_of_error hread prefixWidth, DumpError.message_oversized _ _⟩, ?_, ?_, ?_⟩
    · intro reader sink name hyields
      exact ⟨_, dump_of_oversized hyields hover, DumpError.message_oversized name _⟩
    · intro words program input hrequests
      exact (hrequests.run_file hfile hother hwidth hcontents program input).2 hover
    · intro other words program input hrequests hyields
      exact (hrequests.run_stdin hwidth hyields other program).2 hover

theorem extraction_agrees_small :
    (run (.ofFile (.ofString "/g.c") (Text.encode "// a ::= b".toList)) none
        (widthWords 3 (.ofString "/g.c")) []).Wrote (Text.encode "a ::= b\n".toList) ∧
      (run (.ofFile (.ofString "/g.c") (Text.encode "// a ::= b".toList)) none
        (widthWords 3 Arguments.stdinName) [.piece (Text.encode "// a ::= b".toList)]).Wrote
        (Text.encode "a ::= b\n".toList) := by
  have hcontents : Host.contents (.ofFile (.ofString "/g.c") (Text.encode "// a ::= b".toList))
      (.ofString "/g.c") = .ok (.ofBytes (Text.encode "// a ::= b".toList)) := rfl
  have hwidth : 3 ≤ Config.maxPrefixWidth := by decide
  obtain ⟨hfile, hstdin, hfits, _⟩ := extraction_agrees hcontents (by decide) (by decide) hwidth
  rw [Contents.bytes_ofBytes] at hfits
  obtain ⟨listing, hlisting, _, _, hnamed, hpiped⟩ := hfits (by decide)
  have hknown : Bytes.listing? (Text.encode "// a ::= b".toList) 3 =
      some ⟨["a ::= b".toList], [1], 2⟩ := by
    rw [Bytes.listing?_eq]
    decide
  cases hlisting.symm.trans hknown
  exact ⟨hnamed _ none [] hfile, hpiped _ _ none _ hstdin (Reader.yields_singleton _)⟩

end CommandLine

end GrammarListing
