import GrammarListing.Proofs.CommandLine.Agreement
import GrammarListing.Proofs.CommandLine.Configuration
namespace GrammarListing

/-! An empty source.  It is found out where the file that sets it has no directory to name.
Anywhere else it stands for that directory, and the run goes on. -/

namespace Config

theorem defect?_of_empty {config : Config} (hempty : config.source.isEmpty) :
    config.defect? = some .emptySource :=
  if_pos hempty

theorem widePrefix_of_defect {config : Config} {defect : Defect}
    (hsource : ¬ config.source.isEmpty) (hdefect : config.defect? = some defect) :
    ∃ width, defect = .widePrefix width := by
  rw [defect?, if_neg hsource] at hdefect
  split at hdefect
  · cases hdefect
    exact ⟨_, rfl⟩
  · cases hdefect

theorem resolve_empty_of_unnamed {base : Option Path}
    (hunnamed : ∀ directory, base = some directory → directory.isEmpty) :
    resolve base ⟨[]⟩ = ⟨[]⟩ := by
  cases base with
  | none => rfl
  | some directory => exact if_pos (hunnamed directory rfl)

theorem resolve_empty_of_named {directory : Path} (hnamed : ¬ directory.isEmpty) :
    resolve (some directory) ⟨[]⟩ = directory.join ⟨[]⟩ :=
  if_neg hnamed

end Config

namespace CommandLine

/-- The file that the source of a run comes from when the command line gives none: the one that is
named for it, or else the last of the discovered ones that sets a source. -/
inductive SourceFrom (host : Host) (arguments : Arguments) (path source : Path) : Prop
  | explicit {layer : Config.Layer} (hpath : arguments.config = some path)
      (hload : host.layer? path = .ok layer) (hset : layer.source? = some source) :
      SourceFrom host arguments path source
  | discovered {before after : List Path} {layer : Config.Layer}
      (hnone : arguments.config = none)
      (hfiles : host.configFiles host.directory = before ++ path :: after)
      (hload : host.layer? path = .ok layer) (hset : layer.source? = some source)
      (hlater : ∀ later ∈ after, ∀ layer, host.layer? later = .ok layer →
        layer.source? = none) :
      SourceFrom host arguments path source

section Source

variable {host : Host} {arguments : Arguments} {path source : Path}

theorem SourceFrom.effective (hfrom : SourceFrom host arguments path source)
    (hfile : arguments.file = none) :
    ∃ config, Effective host arguments config ∧
      config.source = Config.resolve path.parent? source := by
  cases hfrom with
  | @explicit layer hpath hload hset =>
      have hbase : host.config? path = .ok (Config.ofLayer path layer) := by
        rw [Host.config?, hload]
        rfl
      refine ⟨_, .explicit hpath hbase, ?_⟩
      rw [Arguments.override, hfile, Option.getD_none, Config.ofLayer, Config.apply, hset]
      rfl
  | @discovered before after layer hnone hfiles hload hset hlater =>
      refine ⟨_, .discovered hnone, ?_⟩
      rw [Arguments.override, hfile, Option.getD_none, Config.ofFiles_filter]
      refine Config.governs_source.settled_iff.mp ?_
      rw [Host.loadedFiles_eq, hfiles, List.map_append, List.map_cons]
      refine .last (Config.LoadedFile.setsSource_resolve hload hset) ?_
      intro file hfile value hsets
      obtain ⟨later, hmem, rfl⟩ := List.mem_map.mp hfile
      obtain ⟨found, written, hfound, hwritten, _⟩ := hsets.resolve_eq
      rw [hlater later hmem found hfound] at hwritten
      cases hwritten

theorem emptySource_outcome (hfile : arguments.file = none)
    (hfrom : SourceFrom host arguments path ⟨[]⟩) :
    ((∀ directory, path.parent? = some directory → directory.isEmpty) →
      effectiveConfig host arguments = .error (.invalid .emptySource) ∧
      ∀ program words input, Arguments.ofWords? words = .ok arguments →
        (run host program words input).FailedFor
          "Invalid configuration: source must not be empty") ∧
    ∀ directory, path.parent? = some directory → ¬ directory.isEmpty →
      (∀ config, effectiveConfig host arguments = .ok config →
        config.source = directory.join ⟨[]⟩) ∧
      ∀ failure, effectiveConfig host arguments = .error failure →
        ∃ width, failure = .invalid (.widePrefix width) := by
  obtain ⟨config, heffective, hsource⟩ := hfrom.effective hfile
  refine ⟨fun hunnamed => ?_, fun directory hparent hnamed => ?_⟩
  · rw [Config.resolve_empty_of_unnamed hunnamed] at hsource
    have hempty : config.source.isEmpty := by rw [hsource]; rfl
    have herror := heffective.effectiveConfig_of_defect (Config.defect?_of_empty hempty)
    refine ⟨herror, fun program words input haccepted => ?_⟩
    rw [run_of_accepted haccepted]
    exact runWith_failedFor_headline herror rfl input
  · rw [hparent, Config.resolve_empty_of_named hnamed] at hsource
    refine ⟨fun found hfound => ?_, fun failure hfailure => ?_⟩
    · rw [heffective.eq_of_ok hfound, hsource]
    · have hnonempty : ¬ config.source.isEmpty := by
        rw [hsource]
        exact Path.not_isEmpty_join hnamed _
      cases hdefect : config.defect? with
      | none =>
          rw [heffective.effectiveConfig_of_usable hdefect] at hfailure
          cases hfailure
      | some defect =>
          obtain ⟨width, rfl⟩ := Config.widePrefix_of_defect hnonempty hdefect
          rw [heffective.effectiveConfig_of_defect hdefect] at hfailure
          cases hfailure
          exact ⟨width, rfl⟩

end Source

def emptySourceHost (file : String) : Host where
  files := Snapshot.fileSystem
    [(.ofString file, .ok (.file (.ofBytes (Text.encode "source = \"\"".toList)))),
      (.ofString "/p/", .ok .directory)]
  directory := .ofString "/p"
  home := none
  userProfile := none

theorem emptySource_outcome_bare :
    Arguments.ofWords? [Text.encode "-c".toList, Text.encode "dg.toml".toList] =
      .ok ⟨none, none, some (.ofString "dg.toml"), false⟩ ∧
    SourceFrom (emptySourceHost "/p/dg.toml") ⟨none, none, some (.ofString "dg.toml"), false⟩
      (.ofString "dg.toml") ⟨[]⟩ ∧
    (run (emptySourceHost "/p/dg.toml") none
      [Text.encode "-c".toList, Text.encode "dg.toml".toList] []).FailedFor
        "Invalid configuration: source must not be empty" := by
  have haccepted : Arguments.ofWords? [Text.encode "-c".toList, Text.encode "dg.toml".toList] =
      .ok ⟨none, none, some (.ofString "dg.toml"), false⟩ := by decide +kernel
  have hload : (emptySourceHost "/p/dg.toml").layer? (.ofString "dg.toml") =
      .ok ⟨some ⟨[]⟩, none⟩ := by decide +kernel
  have hfrom : SourceFrom (emptySourceHost "/p/dg.toml")
      ⟨none, none, some (.ofString "dg.toml"), false⟩ (.ofString "dg.toml") ⟨[]⟩ :=
    .explicit rfl hload rfl
  have hunnamed : ∀ directory, (Path.ofString "dg.toml").parent? = some directory →
      directory.isEmpty := by
    have hparent : (Path.ofString "dg.toml").parent? = some ⟨[]⟩ := by decide +kernel
    intro directory hdirectory
    rw [hparent] at hdirectory
    cases hdirectory
    rfl
  obtain ⟨_, hfailed⟩ := (emptySource_outcome rfl hfrom).1 hunnamed
  exact ⟨haccepted, hfrom, hfailed none _ [] haccepted⟩

/-- With the file in a directory, the run gets as far as reading that directory. -/
theorem emptySource_unnoticed :
    Arguments.ofWords? [] = .ok .empty ∧
    SourceFrom (emptySourceHost "/p/dumpgrammar.toml") .empty
      (.ofString "/p/dumpgrammar.toml") ⟨[]⟩ ∧
    effectiveConfig (emptySourceHost "/p/dumpgrammar.toml") .empty =
      .ok ⟨.ofString "/p/", 3⟩ ∧
    (run (emptySourceHost "/p/dumpgrammar.toml") none [] []).messages =
      [.failure (.dump (.unreadable "/p/" .isADirectory))] ∧
    ¬ (run (emptySourceHost "/p/dumpgrammar.toml") none [] []).FailedFor
      "Invalid configuration: source must not be empty" := by
  have hfiles : (emptySourceHost "/p/dumpgrammar.toml").configFiles (.ofString "/p") =
      [.ofString "/p/dumpgrammar.toml"] := by decide +kernel
  have hload : (emptySourceHost "/p/dumpgrammar.toml").layer? (.ofString "/p/dumpgrammar.toml") =
      .ok ⟨some ⟨[]⟩, none⟩ := by decide +kernel
  have hmessages : (run (emptySourceHost "/p/dumpgrammar.toml") none [] []).messages =
      [.failure (.dump (.unreadable "/p/" .isADirectory))] := by decide +kernel
  refine ⟨rfl, ?_, by decide +kernel, hmessages, fun hfailed => ?_⟩
  · exact .discovered rfl (hfiles.trans (List.nil_append _).symm) hload rfl fun _ hlater =>
      absurd hlater List.not_mem_nil
  · obtain ⟨last, hlast, htext⟩ := hfailed.said
    rw [hmessages] at hlast
    cases hlast
    revert htext
    decide +kernel

end CommandLine

end GrammarListing
