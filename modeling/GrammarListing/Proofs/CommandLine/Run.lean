import GrammarListing.CommandLine.Run
import GrammarListing.Proofs.Config.Layering
import GrammarListing.Proofs.Stream.Dump
namespace GrammarListing.CommandLine

/-- The configuration that a run is to go by; a discovered file that does not load has no part in
it. -/
inductive Effective (host : Host) (arguments : Arguments) : Config → Prop
  | explicit {path : Path} {base : Config} (hpath : arguments.config = some path)
      (hload : host.config? path = .ok base) : Effective host arguments (arguments.override base)
  | discovered (hnone : arguments.config = none) :
      Effective host arguments (arguments.override
        (Config.ofFiles ((host.loadedFiles host.directory).filter Config.LoadedFile.loads)))

inductive Supplies (host : Host) (arguments : Arguments) (config : Config) (input : Reader) :
    Bytes → Prop
  | stdin {source : Bytes} (hstdin : arguments.usesStdin) (hyields : input.Yields source none) :
      Supplies host arguments config input source
  | file {contents : Contents} (hfile : ¬ arguments.usesStdin)
      (hcontents : host.contents config.source = .ok contents) :
      Supplies host arguments config input contents.bytes

def sourceName (arguments : Arguments) (config : Config) : String :=
  if arguments.usesStdin then "stdin" else config.source.display

/-- What keeps a run with accepted arguments from its listing. -/
inductive Refused (host : Host) (arguments : Arguments) (input : Reader) : Prop
  | unloadable {path : Path} {error : Config.LoadError} (hpath : arguments.config = some path)
      (hload : host.config? path = .error error)
  | invalid {config : Config} (heffective : Effective host arguments config)
      (hdefect : config.source.isEmpty ∨ Config.maxPrefixWidth < config.prefixWidth)
  | unreadable {config : Config} (heffective : Effective host arguments config)
      (hnone : ∀ source, ¬ Supplies host arguments config input source)
  | oversized {config : Config} {source : Bytes} (heffective : Effective host arguments config)
      (hsupplies : Supplies host arguments config input source)
      (hover : maxSourceSize < source.length)

section Run

variable {host : Host} {arguments : Arguments} {config : Config} {input : Reader}

theorem usesStdin_iff :
    arguments.usesStdin ↔ arguments.file = some Arguments.stdinName := by
  simp [Arguments.usesStdin]

theorem Effective.load_base (heffective : Effective host arguments config) :
    ∃ base, (load host arguments).base = .ok base ∧ arguments.override base = config := by
  cases heffective with
  | @explicit path base hpath hload => exact ⟨base, by rw [load, hpath]; exact hload, rfl⟩
  | discovered hnone =>
      rw [Config.ofFiles_filter]
      exact ⟨_, by rw [load, hnone], rfl⟩

theorem Effective.effectiveConfig_of_usable (heffective : Effective host arguments config)
    (husable : config.defect? = none) : effectiveConfig host arguments = .ok config := by
  obtain ⟨base, hbase, rfl⟩ := heffective.load_base
  simp only [effectiveConfig, Loading.effective, hbase, husable]

theorem Effective.effectiveConfig_of_defect (heffective : Effective host arguments config)
    {defect : Config.Defect} (hdefect : config.defect? = some defect) :
    effectiveConfig host arguments = .error (.invalid defect) := by
  obtain ⟨base, hbase, rfl⟩ := heffective.load_base
  simp only [effectiveConfig, Loading.effective, hbase, hdefect]

theorem effectiveConfig_of_unloadable {path : Path} {error : Config.LoadError}
    (hpath : arguments.config = some path) (hload : host.config? path = .error error) :
    effectiveConfig host arguments = .error (.config error) := by
  simp only [effectiveConfig, load, hpath, Loading.effective, hload]

theorem exists_effective
    (hloads : ∀ path error, arguments.config = some path → host.config? path ≠ .error error) :
    ∃ config, Effective host arguments config := by
  cases hconfig : arguments.config with
  | none => exact ⟨_, .discovered hconfig⟩
  | some path =>
      cases hload : host.config? path with
      | ok base => exact ⟨_, .explicit hconfig hload⟩
      | error error => exact absurd hload (hloads path error hconfig)

theorem Effective.of_given {file : Path} {prefixWidth : Nat} (hnone : arguments.config = none)
    (hfile : arguments.file = some file) (hwidth : arguments.prefixWidth = some prefixWidth)
    (host : Host) : Effective host arguments ⟨file, prefixWidth⟩ := by
  have hoverride : Effective host arguments _ := .discovered hnone
  rwa [Arguments.override, hfile, hwidth] at hoverride

theorem write_of_unsupplied (hnone : ∀ source, ¬ Supplies host arguments config input source) :
    ∃ error, write host arguments config input = (.error error, .unlimited) := by
  by_cases hstdin : arguments.usesStdin
  · obtain ⟨source, ending, hyields⟩ := input.exists_yields
    cases ending with
    | none => exact absurd (.stdin hstdin hyields) (hnone source)
    | some fault =>
        rw [write, if_pos hstdin, dump_of_failed hyields]
        exact ⟨_, rfl⟩
  · obtain ⟨error, herror⟩ := Host.readSource_of_unreadable fun contents hcontents =>
      hnone contents.bytes (.file hstdin hcontents)
    rw [write, if_neg hstdin, Host.dumpFile_of_error herror]
    exact ⟨error, rfl⟩

theorem Supplies.write_of_oversized {source : Bytes}
    (hsupplies : Supplies host arguments config input source)
    (hover : maxSourceSize < source.length) :
    write host arguments config input =
      (.error (.oversized (sourceName arguments config) source.length), .unlimited) := by
  cases hsupplies with
  | stdin hstdin hyields =>
      rw [write, if_pos hstdin, dump_of_oversized hyields hover, sourceName, if_pos hstdin]
  | file hfile hcontents =>
      have herror := Host.readSource_of_oversized hcontents hover
      rw [write, if_neg hfile, Host.dumpFile_of_error herror, sourceName, if_neg hfile]

theorem Supplies.write_eq {source : Bytes} {listing : Listing}
    (hsupplies : Supplies host arguments config input source)
    (hle : source.length ≤ maxSourceSize)
    (hlisting : source.listing? config.prefixWidth = some listing) :
    write host arguments config input = listing.emit .unlimited := by
  cases hsupplies with
  | stdin hstdin hyields => rw [write, if_pos hstdin, dump_of_ended hyields hle hlisting]
  | @file contents hfile hcontents =>
      have hread := Host.readSource_of_contents hcontents hle
      have hyields := Reader.yields_singleton contents.bytes
      rw [write, if_neg hfile, Host.dumpFile_of_ok hread, dump_of_ended hyields hle hlisting]

theorem runWith_of_misconfigured {failure : Failure}
    (herror : effectiveConfig host arguments = .error failure) (input : Reader) :
    (runWith host arguments input).exit = .failure ∧
      (runWith host arguments input).output = [] := by
  unfold effectiveConfig at herror
  simp only [runWith, herror, and_self]

theorem runWith_of_unwritten (hconfig : effectiveConfig host arguments = .ok config)
    {error : DumpError} {sink : Sink}
    (hwrite : write host arguments config input = (.error error, sink)) :
    (runWith host arguments input).exit = .failure ∧
      (runWith host arguments input).output = sink.received := by
  unfold effectiveConfig at hconfig
  simp only [runWith, hconfig, hwrite, and_self]

theorem runWith_eq_of_written (hconfig : effectiveConfig host arguments = .ok config)
    {summary : Summary} {sink : Sink}
    (hwrite : write host arguments config input = (.ok summary, sink)) :
    runWith host arguments input = ⟨.success, sink.received,
      arguments.shown ((load host arguments).opening arguments ++ summaryMessages summary)⟩ := by
  unfold effectiveConfig at hconfig
  simp only [runWith, hconfig, hwrite]

theorem runWith_of_written (hconfig : effectiveConfig host arguments = .ok config)
    {summary : Summary} {sink : Sink}
    (hwrite : write host arguments config input = (.ok summary, sink)) :
    (runWith host arguments input).exit = .success ∧
      (runWith host arguments input).output = sink.received := by
  rw [runWith_eq_of_written hconfig hwrite]
  exact ⟨rfl, rfl⟩

theorem Effective.runWith_empty (heffective : Effective host arguments config)
    (hwrite : ∃ error, write host arguments config input = (.error error, .unlimited)) :
    (runWith host arguments input).exit = .failure ∧
      (runWith host arguments input).output = [] := by
  obtain ⟨error, hwrite⟩ := hwrite
  cases hdefect : config.defect? with
  | none => exact runWith_of_unwritten (heffective.effectiveConfig_of_usable hdefect) hwrite
  | some defect =>
      exact runWith_of_misconfigured (heffective.effectiveConfig_of_defect hdefect) input

theorem Refused.runWith_empty (hrefused : Refused host arguments input) :
    (runWith host arguments input).exit = .failure ∧
      (runWith host arguments input).output = [] := by
  cases hrefused with
  | unloadable hpath hload =>
      exact runWith_of_misconfigured (effectiveConfig_of_unloadable hpath hload) input
  | @invalid config heffective hinvalid =>
      cases hdefect : config.defect? with
      | none =>
          obtain ⟨hsource, hwidth⟩ := config.defect?_eq_none_iff.mp hdefect
          exact absurd hinvalid (not_or.mpr ⟨hsource, Nat.not_lt_of_le hwidth⟩)
      | some defect =>
          exact runWith_of_misconfigured (heffective.effectiveConfig_of_defect hdefect) input
  | unreadable heffective hnone => exact heffective.runWith_empty (write_of_unsupplied hnone)
  | oversized heffective hsupplies hover =>
      exact heffective.runWith_empty ⟨_, hsupplies.write_of_oversized hover⟩

theorem runWith_eq_of_not_refused (hrefused : ¬ Refused host arguments input) :
    ∃ config source listing, Effective host arguments config ∧
      Supplies host arguments config input source ∧
      source.listing? config.prefixWidth = some listing ∧
      runWith host arguments input = ⟨.success, listing.text.encode, arguments.shown
        ((load host arguments).opening arguments ++ summaryMessages listing.summary)⟩ := by
  obtain ⟨config, heffective⟩ := exists_effective fun path error hpath hload =>
    hrefused (.unloadable hpath hload)
  have husable : config.defect? = none := by
    rw [Config.defect?_eq_none_iff]
    obtain ⟨hsource, hwidth⟩ := not_or.mp fun hdefect => hrefused (.invalid heffective hdefect)
    exact ⟨hsource, Nat.le_of_not_lt hwidth⟩
  obtain ⟨source, hsupplies⟩ : ∃ source, Supplies host arguments config input source := by
    by_contra hnone
    exact hrefused (.unreadable heffective (not_exists.mp hnone))
  have hle : source.length ≤ maxSourceSize :=
    Nat.le_of_not_lt fun hover => hrefused (.oversized heffective hsupplies hover)
  have hlisting := source.listing?_eq config.prefixWidth
  obtain ⟨after, hemit, hreceived⟩ := Listing.emit_unlimited _
  have hrun := runWith_eq_of_written (heffective.effectiveConfig_of_usable husable)
    ((hsupplies.write_eq hle hlisting).trans hemit)
  rw [hreceived] at hrun
  exact ⟨config, source, _, heffective, hsupplies, hlisting, hrun⟩

theorem runWith_of_not_refused (hrefused : ¬ Refused host arguments input) :
    ∃ config source listing, Effective host arguments config ∧
      Supplies host arguments config input source ∧
      source.listing? config.prefixWidth = some listing ∧
      (runWith host arguments input).exit = .success ∧
      (runWith host arguments input).output = listing.text.encode := by
  obtain ⟨config, source, listing, heffective, hsupplies, hlisting, hrun⟩ :=
    runWith_eq_of_not_refused hrefused
  rw [hrun]
  exact ⟨config, source, listing, heffective, hsupplies, hlisting, rfl, rfl⟩

theorem Effective.eq_of_ok (heffective : Effective host arguments config) {found : Config}
    (hfound : effectiveConfig host arguments = .ok found) : found = config := by
  cases hdefect : config.defect? with
  | none =>
      rw [heffective.effectiveConfig_of_usable hdefect] at hfound
      cases hfound
      rfl
  | some defect =>
      rw [heffective.effectiveConfig_of_defect hdefect] at hfound
      cases hfound

theorem Effective.effectiveConfig_eq {other : Host} (heffective : Effective host arguments config)
    (hother : Effective other arguments config) :
    effectiveConfig other arguments = effectiveConfig host arguments := by
  cases hdefect : config.defect? with
  | none =>
      rw [heffective.effectiveConfig_of_usable hdefect, hother.effectiveConfig_of_usable hdefect]
  | some defect =>
      rw [heffective.effectiveConfig_of_defect hdefect, hother.effectiveConfig_of_defect hdefect]

theorem effectiveConfig_congr {other : Host} (hnone : arguments.config = none)
    (hfiles : (other.loadedFiles other.directory).filter Config.LoadedFile.loads =
      (host.loadedFiles host.directory).filter Config.LoadedFile.loads) :
    effectiveConfig other arguments = effectiveConfig host arguments := by
  have hbase : Config.ofFiles (other.loadedFiles other.directory) =
      Config.ofFiles (host.loadedFiles host.directory) := by
    rw [← Config.ofFiles_filter, hfiles, Config.ofFiles_filter]
  simp only [effectiveConfig, load, hnone, Loading.effective, hbase]

theorem write_congr {other : Host}
    (hlookup : ¬ arguments.usesStdin → other.lookup config.source = host.lookup config.source) :
    write other arguments config input = write host arguments config input := by
  by_cases hstdin : arguments.usesStdin
  · rw [write, write, if_pos hstdin, if_pos hstdin]
  · rw [write, write, if_neg hstdin, if_neg hstdin, Host.dumpFile_congr (hlookup hstdin)]

theorem runWith_congr {other : Host}
    (hconfig : effectiveConfig other arguments = effectiveConfig host arguments)
    (hwrite : ∀ config, effectiveConfig host arguments = .ok config →
      write other arguments config input = write host arguments config input) :
    (runWith other arguments input).exit = (runWith host arguments input).exit ∧
      (runWith other arguments input).output = (runWith host arguments input).output := by
  unfold effectiveConfig at hconfig hwrite
  rw [runWith, runWith, hconfig]
  cases hfound : (load host arguments).effective arguments with
  | error failure => exact ⟨rfl, rfl⟩
  | ok config =>
      dsimp only
      rw [hwrite config hfound]
      cases write host arguments config input with
      | mk result sink =>
          cases result with
          | error error => exact ⟨rfl, rfl⟩
          | ok summary => exact ⟨rfl, rfl⟩

theorem runWith_eq_of_load {other : Host} (hload : load other arguments = load host arguments)
    (hwrite : ∀ config, effectiveConfig host arguments = .ok config →
      write other arguments config input = write host arguments config input) :
    runWith other arguments input = runWith host arguments input := by
  cases hfound : effectiveConfig host arguments with
  | error failure =>
      unfold effectiveConfig at hfound
      simp only [runWith, hload, hfound]
  | ok config =>
      have hsame := hwrite config hfound
      unfold effectiveConfig at hfound
      simp only [runWith, hload, hfound, hsame]

end Run

theorem run_of_accepted {words : List Bytes} {arguments : Arguments}
    (haccepted : Arguments.ofWords? words = .ok arguments) (host : Host) (program : Option Path)
    (input : Reader) : run host program words input = runWith host arguments input := by
  rw [run, haccepted]

end GrammarListing.CommandLine
