import GrammarListing.Proofs.CommandLine.Run
import GrammarListing.Proofs.Config.Acceptance
import GrammarListing.Proofs.Config.Files
namespace GrammarListing

/-! Where a configuration comes from when no file is named for it.  Each field by itself is what the
command line gives, or else what the discovered files settle it to.  A file that does not load has
no part in either, and a run warns of it once. -/

theorem Config.map_skipped (files : List LoadedFile) :
    (files.filterMap LoadedFile.skipped?).map (fun skipped => skipped.path) =
      (files.filter fun file => !file.loads).map fun file => file.path := by
  induction files with
  | nil => rfl
  | cons file files ih =>
      obtain ⟨path, layer?⟩ := file
      cases layer? with
      | ok layer => exact ih
      | error error => exact congrArg (path :: ·) ih

namespace Host

variable {host : Host} {start : Path}

theorem mem_skipped {path : Path} {error : Config.LoadError} :
    ⟨path, error⟩ ∈ (host.loadedFiles start).filterMap Config.LoadedFile.skipped? ↔
      path ∈ host.configFiles start ∧ host.Unloadable path error := by
  rw [loadedFiles_eq, List.filterMap_map, List.mem_filterMap]
  constructor
  · rintro ⟨found, hfound, hskipped⟩
    rw [Function.comp_apply, Config.LoadedFile.skipped?, loadedFile] at hskipped
    cases hload : host.layer? found with
    | ok layer =>
        rw [hload] at hskipped
        cases hskipped
    | error error =>
        rw [hload] at hskipped
        cases hskipped
        exact ⟨hfound, layer?_eq_error_iff.mp hload⟩
  · rintro ⟨hpath, hunloadable⟩
    refine ⟨path, hpath, ?_⟩
    rw [Function.comp_apply, Config.LoadedFile.skipped?, loadedFile, hunloadable.layer?_eq]

theorem mem_map_skipped {path : Path} :
    path ∈ ((host.loadedFiles start).filterMap Config.LoadedFile.skipped?).map
        (fun skipped => skipped.path) ↔
      path ∈ host.configFiles start ∧ ∀ table, ¬ host.Accepted path table := by
  rw [List.mem_map]
  constructor
  · rintro ⟨⟨path, error⟩, hskipped, rfl⟩
    obtain ⟨hpath, hunloadable⟩ := mem_skipped.mp hskipped
    exact ⟨hpath, exists_error_iff.mp ⟨error, hunloadable.layer?_eq⟩⟩
  · rintro ⟨hpath, hnone⟩
    obtain ⟨error, herror⟩ := exists_error_iff.mpr hnone
    exact ⟨⟨path, error⟩, mem_skipped.mpr ⟨hpath, layer?_eq_error_iff.mp herror⟩, rfl⟩

theorem sublist_skipped (host : Host) (start : Path) :
    (((host.loadedFiles start).filterMap Config.LoadedFile.skipped?).map fun skipped =>
      skipped.path).Sublist (host.configFiles start) := by
  have hpaths : (host.loadedFiles start).map (fun file => file.path) = host.configFiles start := by
    rw [loadedFiles_eq, List.map_map]
    exact List.map_id _
  rw [Config.map_skipped, ← hpaths]
  exact List.filter_sublist.map _

theorem nodup_configFiles (host : Host) (start : Path) : (host.configFiles start).Nodup :=
  (pairwise_configFiles host start).imp fun hother heq =>
    hother (Path.same_iff.mpr (congrArg Path.components heq))

theorem loads_iff {path : Path} :
    (host.loadedFile path).loads ↔ ∃ table, host.Accepted path table := by
  constructor
  · intro hloads
    by_contra hnone
    obtain ⟨error, herror⟩ := exists_error_iff.mpr (not_exists.mp hnone)
    rw [not_loads_of_error herror] at hloads
    cases hloads
  · rintro ⟨table, haccepted⟩
    obtain ⟨layer, hload, _⟩ := haccepted.exists_layer
    rw [Config.LoadedFile.loads, loadedFile, hload]
    rfl

theorem ofFiles_kept {keep : Path → Bool}
    (hkeep : ∀ path ∈ host.configFiles start, (∃ table, host.Accepted path table) → keep path) :
    Config.ofFiles (((host.configFiles start).filter keep).map host.loadedFile) =
      Config.ofFiles ((host.configFiles start).map host.loadedFile) := by
  have hmap : ((host.configFiles start).filter keep).map host.loadedFile =
      ((host.configFiles start).map host.loadedFile).filter fun file => keep file.path := by
    rw [List.filter_map]
    rfl
  rw [hmap]
  refine Config.ofFiles_filter_of_loads fun file hfile hloads => ?_
  obtain ⟨path, hpath, rfl⟩ := List.mem_map.mp hfile
  exact hkeep path hpath (loads_iff.mp hloads)

end Host

namespace CommandLine

def Message.skipped? : Message → Option Config.Skipped
  | .warning skipped => some skipped
  | _ => none

def Outcome.warnings (outcome : Outcome) : List Config.Skipped :=
  outcome.messages.filterMap Message.skipped?

theorem Arguments.shown_skipped (arguments : Arguments) (messages : List Message) :
    (arguments.shown messages).filterMap Message.skipped? =
      messages.filterMap Message.skipped? := by
  rw [shown, List.filterMap_filter]
  refine List.filterMap_congr fun message _ => ?_
  cases message with
  | note content => exact ite_self none
  | warning skipped => rw [if_pos (by simp [Message.isNote])]
  | failure reason => exact ite_self none
  | rejected error => exact ite_self none

theorem Loading.opening_skipped (loading : Loading) (arguments : Arguments) :
    (loading.opening arguments).filterMap Message.skipped? =
      loading.messages.filterMap Message.skipped? := by
  rw [opening, List.filterMap_append]
  cases loading.base <;> exact List.append_nil _

theorem summaryMessages_skipped (summary : Summary) :
    (summaryMessages summary).filterMap Message.skipped? = [] := by
  rw [List.filterMap_eq_nil_iff]
  intro message hmessage
  rcases List.mem_cons.mp hmessage with rfl | hrule
  · rfl
  · obtain ⟨lineNumber, _, rfl⟩ := List.mem_map.mp hrule
    rfl

theorem runWith_warnings (host : Host) (arguments : Arguments) (input : Reader) :
    (runWith host arguments input).warnings =
      (load host arguments).messages.filterMap Message.skipped? := by
  -- However a run ends, what it says last is no warning.
  have hshown : ∀ closing : List Message, closing.filterMap Message.skipped? = [] →
      (arguments.shown ((load host arguments).opening arguments ++ closing)).filterMap
        Message.skipped? = (load host arguments).messages.filterMap Message.skipped? := by
    intro closing hclosing
    rw [Arguments.shown_skipped, List.filterMap_append, Loading.opening_skipped, hclosing,
      List.append_nil]
  rw [Outcome.warnings, runWith]
  cases (load host arguments).effective arguments with
  | error failure => exact hshown _ rfl
  | ok config =>
      dsimp only
      split
      · exact hshown _ rfl
      · exact hshown _ (summaryMessages_skipped _)

theorem load_skipped {host : Host} {arguments : Arguments} (hnone : arguments.config = none) :
    (load host arguments).messages.filterMap Message.skipped? =
      (host.loadedFiles host.directory).filterMap Config.LoadedFile.skipped? := by
  rw [load, hnone]
  dsimp only
  rw [List.filterMap_append, List.filterMap_map]
  have hwarnings : Message.skipped? ∘ Message.warning = some := rfl
  rw [hwarnings, List.filterMap_some]
  cases host.loadedFiles host.directory with
  | nil => rfl
  | cons file files =>
      have hnotes : ((file :: files).map fun file =>
          Message.note (.configFile file.path)).filterMap Message.skipped? = [] := by
        rw [List.filterMap_map, List.filterMap_eq_nil_iff]
        exact fun _ _ => rfl
      dsimp only
      rw [List.filterMap_cons_none rfl, hnotes, List.nil_append]

section Configured

variable {host : Host} {arguments : Arguments} {config : Config}

/-- A field has the value that it is given, or else the one that some files settle it to. -/
inductive Decided {α : Type} (sets : Path → α → Prop) (initial : α) (files : List Path) :
    Option α → α → Prop
  | given (value : α) : Decided sets initial files (some value) value
  | settled {value : α} (hsettled : Config.Settled sets initial files value) :
      Decided sets initial files none value

theorem decided_iff {α : Type} {sets : Path → α → Prop} {initial settled value : α}
    {files : List Path} {given : Option α}
    (hsettled : ∀ {value}, Config.Settled sets initial files value ↔ settled = value) :
    Decided sets initial files given value ↔ given.getD settled = value := by
  constructor
  · intro hdecided
    cases hdecided with
    | given value => rfl
    | settled hvalue => exact hsettled.mp hvalue
  · rintro rfl
    cases given with
    | none => exact .settled (hsettled.mpr rfl)
    | some value => exact .given value

structure Configured (host : Host) (arguments : Arguments) (files : List Path)
    (config : Config) : Prop where
  source : Decided host.SetsSource (.ofString "grammar.c") files arguments.file config.source
  prefixWidth : Decided host.SetsPrefixWidth 3 files arguments.prefixWidth config.prefixWidth

theorem configured_iff {files : List Path} :
    Configured host arguments files config ↔
      arguments.override (Config.ofFiles (files.map host.loadedFile)) = config := by
  constructor
  · intro hconfigured
    have hsource := (decided_iff Host.settled_source_iff).mp hconfigured.source
    have hwidth := (decided_iff Host.settled_prefixWidth_iff).mp hconfigured.prefixWidth
    cases config
    cases hsource
    cases hwidth
    rfl
  · rintro rfl
    exact ⟨(decided_iff Host.settled_source_iff).mpr rfl,
      (decided_iff Host.settled_prefixWidth_iff).mpr rfl⟩

/-- The files that a run takes its configuration from: the one that is named for it, if that is
accepted, or else those that are discovered. -/
inductive TakesFrom (host : Host) (arguments : Arguments) : List Path → Prop
  | named {path : Path} {table : Toml.Entries} (hpath : arguments.config = some path)
      (haccepted : host.Accepted path table) : TakesFrom host arguments [path]
  | discovered (hnone : arguments.config = none) :
      TakesFrom host arguments (host.configFiles host.directory)

theorem effective_iff :
    Effective host arguments config ↔
      ∃ files, TakesFrom host arguments files ∧ Configured host arguments files config := by
  constructor
  · intro heffective
    cases heffective with
    | @explicit path base hpath hload =>
        obtain ⟨layer, hlayer, rfl⟩ := Host.exists_layer_of_config? hload
        obtain ⟨table, haccepted, _⟩ := Host.exists_accepted hlayer
        refine ⟨[path], .named hpath haccepted, configured_iff.mpr ?_⟩
        rw [Host.ofFiles_singleton hlayer]
    | discovered hnone =>
        refine ⟨_, .discovered hnone, configured_iff.mpr ?_⟩
        rw [Config.ofFiles_filter, Host.loadedFiles_eq]
  · rintro ⟨files, hfiles, hconfigured⟩
    rw [← configured_iff.mp hconfigured]
    cases hfiles with
    | named hpath haccepted =>
        obtain ⟨layer, hlayer, _⟩ := haccepted.exists_layer
        rw [Host.ofFiles_singleton hlayer]
        exact .explicit hpath (Host.config?_of_layer hlayer)
    | discovered hnone =>
        rw [← Host.loadedFiles_eq, ← Config.ofFiles_filter]
        exact .discovered hnone

end Configured

theorem effectiveConfig_layered (host : Host) (file : Option Path) (prefixWidth : Option Nat)
    (debug : Bool) :
    ∃ config : Config,
      (config.defect? = none →
        effectiveConfig host ⟨file, prefixWidth, none, debug⟩ = .ok config) ∧
      (∀ defect, config.defect? = some defect →
        effectiveConfig host ⟨file, prefixWidth, none, debug⟩ = .error (.invalid defect)) ∧
      Decided host.SetsSource (.ofString "grammar.c") (host.configFiles host.directory) file
        config.source ∧
      Decided host.SetsPrefixWidth 3 (host.configFiles host.directory) prefixWidth
        config.prefixWidth ∧
      (∀ keep : Path → Bool,
        (∀ path ∈ host.configFiles host.directory, (∃ table, host.Accepted path table) →
          keep path) →
        Configured host ⟨file, prefixWidth, none, debug⟩
          ((host.configFiles host.directory).filter keep) config ∧
        config = Arguments.override ⟨file, prefixWidth, none, debug⟩
          (Config.ofFiles
            (((host.configFiles host.directory).filter keep).map host.loadedFile))) ∧
      ∀ program words input,
        Arguments.ofWords? words = .ok ⟨file, prefixWidth, none, debug⟩ →
        ((run host program words input).warnings.map fun skipped => skipped.path).Nodup ∧
        ((run host program words input).warnings.map fun skipped => skipped.path).Sublist
          (host.configFiles host.directory) ∧
        (∀ path, path ∈ (run host program words input).warnings.map (fun skipped => skipped.path) ↔
          path ∈ host.configFiles host.directory ∧ ∀ table, ¬ host.Accepted path table) ∧
        ∀ path error, ⟨path, error⟩ ∈ (run host program words input).warnings ↔
          path ∈ host.configFiles host.directory ∧ host.Unloadable path error := by
  obtain ⟨config, hconfig⟩ : ∃ config, Arguments.override ⟨file, prefixWidth, none, debug⟩
      (Config.ofFiles ((host.configFiles host.directory).map host.loadedFile)) = config :=
    ⟨_, rfl⟩
  have hconfigured := configured_iff.mpr hconfig
  have heffective := effective_iff.mpr ⟨_, .discovered rfl, hconfigured⟩
  refine ⟨config, heffective.effectiveConfig_of_usable,
    fun _ => heffective.effectiveConfig_of_defect, hconfigured.source, hconfigured.prefixWidth,
    fun keep hkeep => ?_, fun program words input haccepted => ?_⟩
  · have hkept := hconfig
    rw [← Host.ofFiles_kept hkeep] at hkept
    exact ⟨configured_iff.mpr hkept, hkept.symm⟩
  · rw [run_of_accepted haccepted, runWith_warnings, load_skipped rfl]
    have hsublist := Host.sublist_skipped host host.directory
    exact ⟨(host.nodup_configFiles _).sublist hsublist, hsublist,
      fun _ => Host.mem_map_skipped, fun _ _ => Host.mem_skipped⟩

section Precedence

variable {host other : Host} {arguments : Arguments} {input : Reader}

theorem load_of_explicit {path : Path} (hpath : arguments.config = some path)
    (hlookup : other.lookup path = host.lookup path) :
    load other arguments = load host arguments := by
  simp only [load, hpath, Host.config?_congr hlookup]

theorem runWith_of_explicit {path : Path} (hpath : arguments.config = some path)
    (hlookup : other.lookup path = host.lookup path)
    (hsource : ¬ arguments.usesStdin → ∀ config, effectiveConfig host arguments = .ok config →
      other.lookup config.source = host.lookup config.source) :
    runWith other arguments input = runWith host arguments input := by
  apply runWith_eq_of_load (load_of_explicit hpath hlookup)
  intro config hconfig
  exact write_congr fun hstdin => hsource hstdin config hconfig

theorem runWith_of_given {file : Path} {prefixWidth : Nat} (hnone : arguments.config = none)
    (hfile : arguments.file = some file) (hwidth : arguments.prefixWidth = some prefixWidth)
    (hsource : ¬ arguments.usesStdin → other.lookup file = host.lookup file) :
    (runWith other arguments input).exit = (runWith host arguments input).exit ∧
      (runWith other arguments input).output = (runWith host arguments input).output := by
  have hhost := Effective.of_given hnone hfile hwidth host
  have hother := Effective.of_given hnone hfile hwidth other
  apply runWith_congr (hhost.effectiveConfig_eq hother)
  intro config hconfig
  rw [hhost.eq_of_ok hconfig]
  exact write_congr hsource

end Precedence

theorem run_shuts_out (host other : Host) (program : Option Path) (words : List Bytes)
    (input : Reader) :
    (∀ stop, Arguments.ofWords? words = .error stop →
      run other program words input = run host program words input) ∧
    ∀ arguments, Arguments.ofWords? words = .ok arguments →
      (∀ path, arguments.config = some path → other.lookup path = host.lookup path →
        (¬ arguments.usesStdin → ∀ config, effectiveConfig host arguments = .ok config →
          other.lookup config.source = host.lookup config.source) →
        run other program words input = run host program words input) ∧
      ∀ file prefixWidth, arguments.config = none → arguments.file = some file →
        arguments.prefixWidth = some prefixWidth →
        (¬ arguments.usesStdin → other.lookup file = host.lookup file) →
        (run other program words input).exit = (run host program words input).exit ∧
          (run other program words input).output = (run host program words input).output := by
  refine ⟨fun stop hstop => ?_, fun arguments haccepted => ?_⟩
  · rw [run, run, hstop]
    cases stop with
    | help => rfl
    | version => rfl
    | rejected error => rfl
  · simp only [run_of_accepted haccepted]
    constructor
    · intro path hpath hlookup hsource
      exact runWith_of_explicit hpath hlookup hsource
    · intro file prefixWidth hnone hfile hwidth hsource
      exact runWith_of_given hnone hfile hwidth hsource

def rivalHost (rival : String) (home : Option Bytes) : Host where
  files := Snapshot.fileSystem
    [(.ofString "/w/g.c", .ok (.file (.ofBytes (Text.encode "// a ::= b".toList)))),
      (.ofString "/w/dg.toml", .ok (.file (.ofBytes (Text.encode "source = \"g.c\"".toList)))),
      (.ofString "/w/dumpgrammar.toml", .ok (.file (.ofBytes (Text.encode rival.toList))))]
  directory := .ofString "/w"
  home := home
  userProfile := none

theorem run_shuts_out_rival :
    Arguments.ofWords? [Text.encode "-c".toList, Text.encode "dg.toml".toList] =
      .ok ⟨none, none, some (.ofString "dg.toml"), false⟩ ∧
    Arguments.ofWords? (["-p", "3", "g.c"].map fun word => Text.encode word.toList) =
      .ok ⟨some (.ofString "g.c"), some 3, none, false⟩ ∧
    effectiveConfig (rivalHost "prefix_width = 99" none)
      ⟨none, none, some (.ofString "dg.toml"), false⟩ = .ok ⟨.ofString "g.c", 3⟩ ∧
    run (rivalHost "source" (some (Text.encode "/w".toList))) none
        [Text.encode "-c".toList, Text.encode "dg.toml".toList] [] =
      run (rivalHost "prefix_width = 99" none) none
        [Text.encode "-c".toList, Text.encode "dg.toml".toList] [] ∧
    (run (rivalHost "source" (some (Text.encode "/w".toList))) none
        (["-p", "3", "g.c"].map fun word => Text.encode word.toList) []).output =
      (run (rivalHost "prefix_width = 99" none) none
        (["-p", "3", "g.c"].map fun word => Text.encode word.toList) []).output := by
  have hexplicit : Arguments.ofWords? [Text.encode "-c".toList, Text.encode "dg.toml".toList] =
      .ok ⟨none, none, some (.ofString "dg.toml"), false⟩ := by decide +kernel
  have hgiven : Arguments.ofWords? (["-p", "3", "g.c"].map fun word => Text.encode word.toList) =
      .ok ⟨some (.ofString "g.c"), some 3, none, false⟩ := by decide +kernel
  have hconfig : effectiveConfig (rivalHost "prefix_width = 99" none)
      ⟨none, none, some (.ofString "dg.toml"), false⟩ = .ok ⟨.ofString "g.c", 3⟩ := by
    decide +kernel
  refine ⟨hexplicit, hgiven, hconfig, ?_, ?_⟩
  · refine ((run_shuts_out _ _ none _ []).2 _ hexplicit).1 _ rfl (by decide +kernel) ?_
    intro _ config hfound
    rw [hconfig] at hfound
    cases hfound
    decide +kernel
  · refine (((run_shuts_out _ _ none _ []).2 _ hgiven).2 _ _ rfl rfl rfl ?_).2
    intro _
    decide +kernel

end CommandLine

end GrammarListing
