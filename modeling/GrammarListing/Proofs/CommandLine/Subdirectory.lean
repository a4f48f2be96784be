import GrammarListing.Proofs.CommandLine.Run
import GrammarListing.Proofs.Config.Files
import GrammarListing.Proofs.Config.Loading
import GrammarListing.Proofs.Path.Reported
import Mathlib.Data.List.Infix
namespace GrammarListing

/-! Discovery from below a directory.  What is discovered from an absolute directory has an
absolute path, and the source that it settles is absolute, so the directory that a run is in has no
part in either; and a directory without a configuration file adds none to those that are
discovered. -/

theorem Config.LoadedFile.SetsSource.isAbsolute {file : LoadedFile} {source base : Path}
    (hsets : file.SetsSource source) (hpath : base.join Config.fileName = file.path)
    (hbase : base.isAbsolute) : source.isAbsolute := by
  have habsolute : file.path.isAbsolute := hpath ▸ Path.isAbsolute_join hbase _
  cases hsets with
  | asWritten hload hset hwritten =>
      cases hwritten with
      | inl hsource => exact hsource
      | inr hempty =>
          obtain ⟨parent, hparent⟩ := Config.isName_fileName.exists_parent?_join base
          rw [hpath] at hparent
          have hrooted := Path.isAbsolute_of_parent? habsolute hparent
          exact absurd (hempty parent hparent) (Path.not_isEmpty_of_isAbsolute hrooted)
  | inDirectory hload hset hrelative hdirectory hnamed =>
      exact Path.isAbsolute_join (Path.isAbsolute_of_parent? habsolute hdirectory) _

namespace Host

def within (host : Host) (directory : Path) : Host :=
  { host with directory := directory }

def HomeAbsolute (host : Host) : Prop :=
  ∀ home ∈ host.homeDirectory?, home.isAbsolute

variable {host : Host} {start : Path}

section Within

variable {path : Path} (directory : Path)

theorem lookup_within (habsolute : path.isAbsolute) :
    (host.within directory).lookup path = host.lookup path :=
  host.files.lookup_absolute habsolute _ _

theorem isFile_within (habsolute : path.isAbsolute) :
    (host.within directory).isFile path = host.isFile path := by
  rw [isFile, isFile, lookup_within directory habsolute]

theorem homeConfigFile?_within (hhome : host.HomeAbsolute) :
    (host.within directory).homeConfigFile? = host.homeConfigFile? := by
  have hsame : (host.within directory).homeDirectory? = host.homeDirectory? := rfl
  rw [homeConfigFile?, homeConfigFile?, hsame]
  cases hfound : host.homeDirectory? with
  | none => rfl
  | some home =>
      have habsolute := Path.isAbsolute_join (hhome home hfound) Config.fileName
      simp only [Option.map_some, Option.filter_some, isFile_within directory habsolute]

theorem ancestorConfigFiles_within (hhome : host.HomeAbsolute) (hstart : start.isAbsolute) :
    (host.within directory).ancestorConfigFiles start = host.ancestorConfigFiles start := by
  apply List.filter_congr
  intro path hpath
  obtain ⟨ancestor, hancestor, rfl⟩ := List.mem_map.mp hpath
  have hrooted := Path.isAbsolute_of_mem_ancestors hstart (List.mem_reverse.mp hancestor)
  rw [isFile_within directory (Path.isAbsolute_join hrooted _), isHomeConfigFile,
    isHomeConfigFile, homeConfigFile?_within directory hhome]

theorem configFiles_within (hhome : host.HomeAbsolute) (hstart : start.isAbsolute) :
    (host.within directory).configFiles start = host.configFiles start := by
  rw [configFiles_eq, configFiles_eq, homeConfigFile?_within directory hhome,
    ancestorConfigFiles_within directory hhome hstart]

theorem exists_base_of_mem_configFiles (hhome : host.HomeAbsolute) (hstart : start.isAbsolute)
    (hpath : path ∈ host.configFiles start) :
    ∃ base : Path, base.isAbsolute ∧ base.join Config.fileName = path := by
  rw [configFiles_eq, List.mem_append, Option.mem_toList] at hpath
  cases hpath with
  | inl hfound =>
      obtain ⟨home, hmem, hjoin⟩ := Option.map_eq_some_iff.mp (Option.mem_filter_iff.mp hfound).1
      exact ⟨home, hhome home hmem, hjoin⟩
  | inr hfound =>
      obtain ⟨⟨ancestor, hancestor, hjoin⟩, _⟩ := mem_ancestorConfigFiles.mp hfound
      exact ⟨ancestor, Path.isAbsolute_of_mem_ancestors hstart hancestor, hjoin⟩

theorem loadedFiles_within (hhome : host.HomeAbsolute) (hstart : start.isAbsolute) :
    (host.within directory).loadedFiles start = host.loadedFiles start := by
  rw [loadedFiles_eq, loadedFiles_eq, configFiles_within directory hhome hstart]
  apply List.map_congr_left
  intro path hpath
  obtain ⟨base, hbase, rfl⟩ := exists_base_of_mem_configFiles hhome hstart hpath
  rw [loadedFile, loadedFile,
    layer?_congr (lookup_within directory (Path.isAbsolute_join hbase _))]

end Within

theorem isAbsolute_source (hhome : host.HomeAbsolute) (hstart : start.isAbsolute)
    (hset : ∃ file ∈ host.loadedFiles start, ∃ source, file.SetsSource source) :
    (host.discoveredConfig start).source.isAbsolute := by
  obtain ⟨file, hfile, hsets⟩ := Config.governs_source.exists_sets hset
  rw [loadedFiles_eq] at hfile
  obtain ⟨path, hpath, rfl⟩ := List.mem_map.mp hfile
  obtain ⟨base, hbase, hjoin⟩ := exists_base_of_mem_configFiles hhome hstart hpath
  exact hsets.isAbsolute hjoin hbase

section Below

variable {outer : Path}

theorem configFiles_join {name : Path} (houter : outer.Reported) (hname : name.IsName)
    (hbare : ¬ host.isFile ((outer.join name).join Config.fileName)) :
    host.configFiles (outer.join name) = host.configFiles outer := by
  rw [configFiles_eq, configFiles_eq, ancestorConfigFiles, ancestorConfigFiles,
    houter.ancestors_join hname, List.reverse_cons, List.map_append, List.filter_append]
  simp [hbare]

theorem configFiles_below {names : List Path} (houter : outer.Reported)
    (hnames : ∀ name ∈ names, name.IsName)
    (hbare : ∀ front, front <+: names → front ≠ [] →
      ¬ host.isFile ((front.foldl Path.join outer).join Config.fileName)) :
    host.configFiles (names.foldl Path.join outer) = host.configFiles outer := by
  induction names generalizing outer with
  | nil => rfl
  | cons name names ih =>
      obtain ⟨hname, hrest⟩ := List.forall_mem_cons.mp hnames
      have hfirst : ¬ host.isFile ((outer.join name).join Config.fileName) :=
        hbare [name] ⟨names, rfl⟩ (List.cons_ne_nil _ _)
      rw [List.foldl_cons, ih (houter.child hname) hrest, configFiles_join houter hname hfirst]
      intro front hfront _
      exact hbare (name :: front) (List.cons_prefix_cons.mpr ⟨rfl, hfront⟩) (List.cons_ne_nil _ _)

end Below

end Host

namespace CommandLine

variable {host other : Host} {arguments : Arguments} {input : Reader}

theorem load_of_loadedFiles (hnone : arguments.config = none)
    (hfiles : other.loadedFiles other.directory = host.loadedFiles host.directory) :
    load other arguments = load host arguments := by
  simp only [load, hnone, hfiles]

theorem runWith_of_loadedFiles (hnone : arguments.config = none) (hfile : arguments.file = none)
    (hfiles : other.loadedFiles other.directory = host.loadedFiles host.directory)
    (hsource : other.lookup (host.discoveredConfig host.directory).source =
      host.lookup (host.discoveredConfig host.directory).source) :
    runWith other arguments input = runWith host arguments input := by
  apply runWith_eq_of_load (load_of_loadedFiles hnone hfiles)
  intro config hconfig
  have heffective : Effective host arguments _ := .discovered hnone
  rw [heffective.eq_of_ok hconfig, Config.ofFiles_filter, Arguments.override, hfile]
  exact write_congr fun _ => hsource

theorem run_below {host : Host} {outer : Path} {names : List Path} (houter : outer.Reported)
    (hnames : ∀ name ∈ names, name.IsName)
    (hbare : ∀ front, front <+: names → front ≠ [] →
      ¬ host.isFile ((front.foldl Path.join outer).join Config.fileName))
    (hhome : host.HomeAbsolute)
    (hset : ∃ file ∈ host.loadedFiles outer, ∃ source, file.SetsSource source) :
    (∀ here there, (host.within here).discoveredConfig (names.foldl Path.join outer) =
      (host.within there).discoveredConfig outer) ∧
    ∀ program words input arguments, Arguments.ofWords? words = .ok arguments →
      arguments.file = none → arguments.config = none →
      run (host.within (names.foldl Path.join outer)) program words input =
        run (host.within outer) program words input := by
  have hinner := (houter.foldl_join hnames).isAbsolute
  have hfiles : ∀ here there, (host.within here).loadedFiles (names.foldl Path.join outer) =
      (host.within there).loadedFiles outer := by
    intro here there
    rw [Host.loadedFiles_within here hhome hinner,
      Host.loadedFiles_within there hhome houter.isAbsolute, Host.loadedFiles_eq,
      Host.loadedFiles_eq, Host.configFiles_below houter hnames hbare]
  constructor
  · intro here there
    rw [Host.discoveredConfig, Host.discoveredConfig, hfiles here there]
  · intro program words input arguments haccepted hfile hnone
    rw [run_of_accepted haccepted, run_of_accepted haccepted]
    apply runWith_of_loadedFiles hnone hfile (hfiles _ _)
    have hsource : ((host.within outer).discoveredConfig outer).source.isAbsolute := by
      rw [Host.discoveredConfig, Host.loadedFiles_within outer hhome houter.isAbsolute]
      exact Host.isAbsolute_source hhome houter.isAbsolute hset
    exact (Host.lookup_within _ hsource).trans (Host.lookup_within _ hsource).symm

def projectHost : Host where
  files := Snapshot.fileSystem
    [(.ofString "/p/g.c", .ok (.file (.ofBytes (Text.encode "// a ::= b".toList)))),
      (.ofString "/p/dumpgrammar.toml",
        .ok (.file (.ofBytes (Text.encode "source = \"g.c\"".toList))))]
  directory := .ofString "/p"
  home := some (Text.encode "/h".toList)
  userProfile := none

theorem run_below_project :
    (Path.ofString "/p").Reported ∧
    (∀ name ∈ [Path.ofString "a", .ofString "b"], name.IsName) ∧
    (∀ front, front <+: [Path.ofString "a", .ofString "b"] → front ≠ [] →
      ¬ projectHost.isFile ((front.foldl Path.join (.ofString "/p")).join Config.fileName)) ∧
    projectHost.HomeAbsolute ∧
    (∃ file ∈ projectHost.loadedFiles (.ofString "/p"), ∃ source, file.SetsSource source) ∧
    run (projectHost.within (.ofString "/p/a/b")) none [] [] =
      run (projectHost.within (.ofString "/p")) none [] [] ∧
    (run (projectHost.within (.ofString "/p/a/b")) none [] []).output =
      Text.encode "a ::= b\n".toList := by
  have houter : (Path.ofString "/p").Reported := by
    have hname : (Path.ofString "p").IsName := ⟨by decide, by decide⟩
    have hjoin : Path.join ⟨[Path.slash]⟩ (.ofString "p") = .ofString "/p" := by decide +kernel
    exact hjoin ▸ .child .root hname
  have hnames : ∀ name ∈ [Path.ofString "a", .ofString "b"], name.IsName := by
    intro name hname
    rcases List.mem_pair.mp hname with rfl | rfl
    · exact ⟨by decide, by decide⟩
    · exact ⟨by decide, by decide⟩
  have hinits : ∀ front ∈ [Path.ofString "a", .ofString "b"].inits, front ≠ [] →
      ¬ projectHost.isFile ((front.foldl Path.join (.ofString "/p")).join Config.fileName) := by
    decide +kernel
  have hbare : ∀ front, front <+: [Path.ofString "a", .ofString "b"] → front ≠ [] →
      ¬ projectHost.isFile ((front.foldl Path.join (.ofString "/p")).join Config.fileName) :=
    fun front hfront => hinits front ((List.mem_inits _ _).mpr hfront)
  have hhome : projectHost.HomeAbsolute := by
    unfold Host.HomeAbsolute
    decide +kernel
  have hset : ∃ file ∈ projectHost.loadedFiles (.ofString "/p"),
      ∃ source, file.SetsSource source := by
    have hload : (projectHost.loadedFile (.ofString "/p/dumpgrammar.toml")).layer? =
        .ok ⟨some (.ofString "g.c"), none⟩ := by decide +kernel
    have hfile : Path.ofString "/p/dumpgrammar.toml" ∈ projectHost.configFiles (.ofString "/p") := by
      decide +kernel
    rw [Host.loadedFiles_eq]
    exact ⟨_, List.mem_map_of_mem hfile, _, Config.LoadedFile.setsSource_resolve hload rfl⟩
  have hfold : [Path.ofString "a", .ofString "b"].foldl Path.join (.ofString "/p") =
      .ofString "/p/a/b" := by decide +kernel
  have hsame := (run_below houter hnames hbare hhome hset).2 none [] [] .empty rfl rfl rfl
  rw [hfold] at hsame
  have houtput : (run (projectHost.within (.ofString "/p")) none [] []).output =
      Text.encode "a ::= b\n".toList := by decide +kernel
  refine ⟨houter, hnames, hbare, hhome, hset, hsame, ?_⟩
  exact (congrArg Outcome.output hsame).trans houtput

end CommandLine

end GrammarListing
