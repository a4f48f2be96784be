import GrammarListing.Proofs.Config.Loading
import GrammarListing.Proofs.Config.Table
import GrammarListing.Proofs.Toml.Document
namespace GrammarListing

/-! Which configuration files are accepted.  A file is, if it holds a document of which every entry
sets a field, and the configuration then has what the entries set.  Any other file sets nothing,
however many of its entries would do: given by name it makes no configuration at all, and among
those that are discovered it is as if it were not there. -/

namespace Config

/-- What a source is taken for that a file at a path sets. -/
inductive Located (path source : Path) : Path → Prop
  | asWritten (hwritten : source.isAbsolute ∨
      ∀ directory, path.parent? = some directory → directory.isEmpty) :
      Located path source source
  | inDirectory {directory : Path} (hrelative : ¬ source.isAbsolute)
      (hdirectory : path.parent? = some directory) (hnamed : ¬ directory.isEmpty) :
      Located path source (directory.join source)

theorem located_resolve (path source : Path) :
    Located path source (resolve path.parent? source) := by
  have hsets := @LoadedFile.setsSource_resolve ⟨path, .ok ⟨some source, none⟩⟩ _ rfl source rfl
  generalize resolve path.parent? source = found at hsets ⊢
  cases hsets with
  | asWritten hload hset hwritten =>
      cases hload
      cases hset
      exact .asWritten hwritten
  | inDirectory hload hset hrelative hdirectory hnamed =>
      cases hload
      cases hset
      exact .inDirectory hrelative hdirectory hnamed

/-- A configuration with what the table of a file at a path sets, and initial in all else. -/
structure SetBy (config : Config) (path : Path) (table : Toml.Entries) : Prop where
  source : ∀ text : Text, ("source".toList, .string text) ∈ table →
    Located path ⟨text.encode⟩ config.source
  source_unset : (∀ value, ("source".toList, value) ∉ table) →
    config.source = .ofString "grammar.c"
  prefixWidth : ∀ width : Nat, ("prefix_width".toList, .integer width) ∈ table →
    config.prefixWidth = width
  prefixWidth_unset : (∀ value, ("prefix_width".toList, value) ∉ table) →
    config.prefixWidth = 3

theorem Layer.OfTable.setBy {layer : Layer} {table : Toml.Entries} (htable : layer.OfTable table)
    (path : Path) : (ofLayer path layer).SetBy path table where
  source text hmem := by
    have hsource := (htable.source _).mpr ⟨text, hmem, rfl⟩
    rw [ofLayer, apply, hsource]
    exact located_resolve path _
  source_unset hunset := by
    have hsource : layer.source? = none := by
      apply Option.eq_none_iff_forall_ne_some.mpr
      intro found hfound
      obtain ⟨text, hmem, _⟩ := (htable.source found).mp hfound
      exact hunset _ hmem
    rw [ofLayer, apply, hsource]
    rfl
  prefixWidth width hmem := by
    rw [ofLayer, apply, (htable.prefixWidth width).mpr hmem]
    rfl
  prefixWidth_unset hunset := by
    have hwidth : layer.prefixWidth? = none := by
      apply Option.eq_none_iff_forall_ne_some.mpr
      intro width hwidth
      exact hunset _ ((htable.prefixWidth width).mp hwidth)
    rw [ofLayer, apply, hwidth]
    rfl

end Config

namespace Host

/-- A file can be read, is text, and has a document with this top table in it. -/
def Documented (host : Host) (path : Path) (table : Toml.Entries) : Prop :=
  ∃ (contents : Contents) (text : Text), host.contents path = .ok contents ∧
    contents.bytes = text.encode ∧ Toml.parse? text = some table

variable {host : Host} {path : Path} {table : Toml.Entries}

theorem zeros_eq_of_parse? {contents : Contents} {text : Text}
    (htext : contents.bytes = text.encode) (hparse : Toml.parse? text = some table) :
    contents.zeros = 0 := by
  by_contra hzeros
  have hunits := contents.units_bytes
  rw [htext, Bytes.units_encode] at hunits
  have hmem : some '\x00' ∈ text.map some := by
    rw [hunits]
    exact List.mem_append_right _ (List.mem_replicate.mpr ⟨hzeros, rfl⟩)
  obtain ⟨c, hc, hzero⟩ := List.mem_map.mp hmem
  have hdocument := Toml.isDocumentChar_of_parse? hparse c hc
  rw [Option.some.inj hzero] at hdocument
  cases hdocument

theorem Documented.layer?_eq (hdocument : host.Documented path table) :
    host.layer? path = (Config.Layer.ofEntries? table).mapError .misfit := by
  obtain ⟨contents, text, hcontents, htext, hparse⟩ := hdocument
  rw [layer?, hcontents]
  dsimp only
  rw [Config.Layer.ofContents?_of_text htext, if_pos (zeros_eq_of_parse? htext hparse),
    Config.Layer.ofText?, hparse]

theorem Documented.ofEntries?_of_layer? (hdocument : host.Documented path table)
    {layer : Config.Layer} (hload : host.layer? path = .ok layer) :
    Config.Layer.ofEntries? table = .ok layer := by
  rw [hdocument.layer?_eq] at hload
  cases hentries : Config.Layer.ofEntries? table with
  | error mismatch =>
      rw [hentries] at hload
      cases hload
  | ok found =>
      rw [hentries] at hload
      cases hload
      rfl

theorem Documented.distinct (hdocument : host.Documented path table) : table.Distinct := by
  obtain ⟨contents, text, hcontents, htext, hparse⟩ := hdocument
  exact Toml.distinct_of_parse? hparse

theorem exists_unloadable (hnone : ∀ table, ¬ host.Documented path table) :
    ∃ error, host.Unloadable path error := by
  cases hcontents : host.contents path with
  | error fault => exact ⟨_, .unreadable hcontents⟩
  | ok contents =>
      by_cases hencoded : ∃ text : Text, contents.bytes = text.encode
      · obtain ⟨text, htext⟩ := hencoded
        cases hparse : Toml.parse? text with
        | none => exact ⟨_, .noDocument hcontents htext (.inr hparse)⟩
        | some table => exact absurd ⟨contents, text, hcontents, htext, hparse⟩ (hnone table)
      · exact ⟨_, .malformed hcontents (not_exists.mp hencoded)⟩

theorem config?_of_layer {layer : Config.Layer} (hload : host.layer? path = .ok layer) :
    host.config? path = .ok (Config.ofLayer path layer) := by
  rw [config?, hload]
  rfl

theorem config?_of_error {error : Config.LoadError} (herror : host.layer? path = .error error) :
    host.config? path = .error error := by
  rw [config?, herror]
  rfl

theorem exists_layer_of_config? {config : Config} (hconfig : host.config? path = .ok config) :
    ∃ layer, host.layer? path = .ok layer ∧ config = Config.ofLayer path layer := by
  cases hload : host.layer? path with
  | error error =>
      rw [config?_of_error hload] at hconfig
      cases hconfig
  | ok layer =>
      rw [config?_of_layer hload] at hconfig
      cases hconfig
      exact ⟨layer, rfl, rfl⟩

theorem toOption_config? (host : Host) (path : Path) :
    (host.config? path).toOption = (host.layer? path).toOption.map (Config.ofLayer path) := by
  rw [config?]
  cases host.layer? path <;> rfl

theorem ofFiles_singleton {layer : Config.Layer} (hload : host.layer? path = .ok layer) :
    Config.ofFiles ([path].map host.loadedFile) = Config.ofLayer path layer :=
  Config.applyFile_of_layer hload Config.initial

theorem not_loads_of_error {error : Config.LoadError} (herror : host.layer? path = .error error) :
    (host.loadedFile path).loads = false := by
  rw [Config.LoadedFile.loads, loadedFile, herror]
  rfl

theorem discoveredConfig_of_error {error : Config.LoadError}
    (herror : host.layer? path = .error error) {start : Path} {before after : List Path}
    (hfiles : host.configFiles start = before ++ path :: after) :
    host.discoveredConfig start =
      Config.ofFiles ((before ++ after).map host.loadedFile) := by
  have hfails := not_loads_of_error herror
  rw [discoveredConfig, loadedFiles_eq, hfiles, List.map_append, List.map_cons,
    List.map_append, Config.ofFiles, Config.ofFiles, List.foldl_append, List.foldl_append,
    List.foldl_cons, Config.applyFile_of_not_loads hfails]

theorem Documented.exists_config_iff (hdocument : host.Documented path table) :
    (∃ config, host.config? path = .ok config) ↔ ∀ entry ∈ table, Config.Setting entry := by
  constructor
  · rintro ⟨config, hconfig⟩
    obtain ⟨layer, hload, _⟩ := exists_layer_of_config? hconfig
    exact Config.Layer.setting_of_ofEntries? (hdocument.ofEntries?_of_layer? hload)
  · intro hsettings
    obtain ⟨layer, hlayer⟩ := Config.Layer.exists_ofEntries? hsettings
    have hload := hdocument.layer?_eq
    rw [hlayer] at hload
    exact ⟨_, config?_of_layer hload⟩

theorem Documented.setBy (hdocument : host.Documented path table) {config : Config}
    (hconfig : host.config? path = .ok config) : config.SetBy path table := by
  obtain ⟨layer, hload, rfl⟩ := exists_layer_of_config? hconfig
  have hlayer := hdocument.ofEntries?_of_layer? hload
  exact (Config.Layer.ofTable_of_ofEntries? hdocument.distinct hlayer).setBy path

theorem Documented.toOption_layer? (hdocument : host.Documented path table) :
    (host.layer? path).toOption = (Config.Layer.ofEntries? table).toOption := by
  rw [hdocument.layer?_eq]
  cases Config.Layer.ofEntries? table <;> rfl

theorem Documented.toOption_config?_perm (hdocument : host.Documented path table) {other : Host}
    {reordered : Toml.Entries} (hother : other.Documented path reordered)
    (hperm : reordered.Perm table) :
    (other.config? path).toOption = (host.config? path).toOption := by
  have hsame := Config.Layer.toOption_ofEntries?_perm hdocument.distinct hperm
  rw [toOption_config?, toOption_config?, hother.toOption_layer?, hdocument.toOption_layer?, hsame]

structure Accepted (host : Host) (path : Path) (table : Toml.Entries) : Prop where
  document : host.Documented path table
  settings : ∀ entry ∈ table, Config.Setting entry

theorem Accepted.exists_layer (haccepted : host.Accepted path table) :
    ∃ layer, host.layer? path = .ok layer ∧ layer.OfTable table := by
  obtain ⟨layer, hlayer⟩ := Config.Layer.exists_ofEntries? haccepted.settings
  have hload := haccepted.document.layer?_eq
  rw [hlayer] at hload
  exact ⟨layer, hload, Config.Layer.ofTable_of_ofEntries? haccepted.document.distinct hlayer⟩

theorem exists_accepted {layer : Config.Layer} (hload : host.layer? path = .ok layer) :
    ∃ table, host.Accepted path table ∧ layer.OfTable table := by
  obtain ⟨table, hdocument⟩ : ∃ table, host.Documented path table := by
    by_contra hnone
    obtain ⟨error, hunloadable⟩ := exists_unloadable (not_exists.mp hnone)
    rw [hunloadable.layer?_eq] at hload
    cases hload
  have hlayer := hdocument.ofEntries?_of_layer? hload
  exact ⟨table, ⟨hdocument, Config.Layer.setting_of_ofEntries? hlayer⟩,
    Config.Layer.ofTable_of_ofEntries? hdocument.distinct hlayer⟩

theorem exists_error_iff :
    (∃ error, host.layer? path = .error error) ↔ ∀ table, ¬ host.Accepted path table := by
  constructor
  · rintro ⟨error, herror⟩ table haccepted
    obtain ⟨layer, hload, _⟩ := haccepted.exists_layer
    rw [hload] at herror
    cases herror
  · intro hnone
    cases hload : host.layer? path with
    | error error => exact ⟨error, rfl⟩
    | ok layer =>
        obtain ⟨table, haccepted, _⟩ := exists_accepted hload
        exact absurd haccepted (hnone table)

theorem exists_config_error_iff :
    (∃ error, host.config? path = .error error) ↔ ∀ table, ¬ host.Accepted path table := by
  rw [← exists_error_iff]
  constructor
  · rintro ⟨error, herror⟩
    cases hload : host.layer? path with
    | error error => exact ⟨error, rfl⟩
    | ok layer =>
        rw [config?_of_layer hload] at herror
        cases herror
  · rintro ⟨error, herror⟩
    exact ⟨error, config?_of_error herror⟩

section Sets

def SetsSource (host : Host) (path value : Path) : Prop :=
  ∃ (table : Toml.Entries) (text : Text), host.Accepted path table ∧
    ("source".toList, .string text) ∈ table ∧ Config.Located path ⟨text.encode⟩ value

def SetsPrefixWidth (host : Host) (path : Path) (width : Nat) : Prop :=
  ∃ table, host.Accepted path table ∧ ("prefix_width".toList, .integer width) ∈ table

theorem setsSource_iff {value : Path} :
    (host.loadedFile path).SetsSource value ↔ host.SetsSource path value := by
  constructor
  · intro hsets
    obtain ⟨layer, source, hload, hset, rfl⟩ := hsets.resolve_eq
    obtain ⟨table, haccepted, htable⟩ := exists_accepted hload
    obtain ⟨text, hmem, rfl⟩ := (htable.source source).mp hset
    exact ⟨table, text, haccepted, hmem, Config.located_resolve path _⟩
  · rintro ⟨table, text, haccepted, hmem, hlocated⟩
    obtain ⟨layer, hload, htable⟩ := haccepted.exists_layer
    have hset := (htable.source _).mpr ⟨text, hmem, rfl⟩
    cases hlocated with
    | asWritten hwritten => exact .asWritten hload hset hwritten
    | inDirectory hrelative hdirectory hnamed =>
        exact .inDirectory hload hset hrelative hdirectory hnamed

theorem setsPrefixWidth_iff {width : Nat} :
    (host.loadedFile path).SetsPrefixWidth width ↔ host.SetsPrefixWidth path width := by
  constructor
  · rintro ⟨layer, hload, hset⟩
    obtain ⟨table, haccepted, htable⟩ := exists_accepted hload
    exact ⟨table, haccepted, (htable.prefixWidth width).mp hset⟩
  · rintro ⟨table, haccepted, hmem⟩
    obtain ⟨layer, hload, htable⟩ := haccepted.exists_layer
    exact ⟨layer, hload, (htable.prefixWidth width).mpr hmem⟩

variable {paths : List Path}

theorem settled_source_iff {value : Path} :
    Config.Settled host.SetsSource (.ofString "grammar.c") paths value ↔
      (Config.ofFiles (paths.map host.loadedFile)).source = value := by
  have hsame : (fun path => (host.loadedFile path).SetsSource) = host.SetsSource := by
    funext path value
    exact propext setsSource_iff
  rw [← Config.governs_source.settled_iff, Config.settled_map_iff, hsame]
  rfl

theorem settled_prefixWidth_iff {width : Nat} :
    Config.Settled host.SetsPrefixWidth 3 paths width ↔
      (Config.ofFiles (paths.map host.loadedFile)).prefixWidth = width := by
  have hsame : (fun path => (host.loadedFile path).SetsPrefixWidth) = host.SetsPrefixWidth := by
    funext path width
    exact propext setsPrefixWidth_iff
  rw [← Config.governs_prefixWidth.settled_iff, Config.settled_map_iff, hsame]
  rfl

end Sets

theorem exists_error_of_misfit
    (hmisfit : ∀ table, host.Documented path table → ∃ entry ∈ table, ¬ Config.Setting entry) :
    ∃ error, host.layer? path = .error error := by
  refine exists_error_iff.mpr fun table haccepted => ?_
  obtain ⟨entry, hentry, hnot⟩ := hmisfit table haccepted.document
  exact hnot (haccepted.settings entry hentry)

theorem config?_exact (host : Host) (path : Path) :
    (∀ table, host.Documented path table →
      ((∃ config, host.config? path = .ok config) ↔ ∀ entry ∈ table, Config.Setting entry) ∧
      (∀ config, host.config? path = .ok config → config.SetBy path table) ∧
      ∀ (other : Host) (reordered : Toml.Entries), other.Documented path reordered →
        reordered.Perm table →
        (other.config? path).toOption = (host.config? path).toOption) ∧
    ((∀ table, host.Documented path table → ∃ entry ∈ table, ¬ Config.Setting entry) →
      (∃ error, host.config? path = .error error) ∧
      (∀ config : Config, config.applyFile (host.loadedFile path) = config) ∧
      ∀ (start : Path) (before after : List Path),
        host.configFiles start = before ++ path :: after →
        host.discoveredConfig start =
          Config.ofFiles ((before ++ after).map host.loadedFile)) := by
  refine ⟨fun table hdocument => ⟨hdocument.exists_config_iff, fun _ => hdocument.setBy,
    fun _ _ => hdocument.toOption_config?_perm⟩, fun hmisfit => ?_⟩
  obtain ⟨error, herror⟩ := exists_error_of_misfit hmisfit
  exact ⟨⟨error, config?_of_error herror⟩,
    Config.applyFile_of_not_loads (not_loads_of_error herror),
    fun start before after => discoveredConfig_of_error herror⟩

def written (document : String) : Host where
  files := Snapshot.fileSystem
    [(.ofString "/p/dg.toml", .ok (.file (.ofBytes (Text.encode document.toList))))]
  directory := .ofString "/p"
  home := none
  userProfile := none

theorem documented_written {document : String} {settings : Toml.Entries}
    (hsettings : ∀ entry ∈ settings, Config.Setting entry)
    (hdata : (Toml.parse? document.toList).map Toml.Entries.data = some settings.data) :
    (written document).Documented (.ofString "/p/dg.toml") settings := by
  obtain ⟨table, hparse, hsame⟩ := Option.map_eq_some_iff.mp hdata
  rw [Config.eq_of_data_eq hsettings hsame] at hparse
  exact ⟨_, _, rfl, Contents.bytes_ofBytes _, hparse⟩

/-- Both orders of two keys set the same, and a date for a source makes the width before it of no
account. -/
theorem config?_exact_shuffled :
    (written "prefix_width = 2\nsource = \"g.c\"").Documented (.ofString "/p/dg.toml")
      [("prefix_width".toList, .integer 2), ("source".toList, .string "g.c".toList)] ∧
    (written "prefix_width = 2\nsource = \"g.c\"").config? (.ofString "/p/dg.toml") =
      .ok ⟨.ofString "/p/g.c", 2⟩ ∧
    Config.SetBy ⟨.ofString "/p/g.c", 2⟩ (.ofString "/p/dg.toml")
      [("prefix_width".toList, .integer 2), ("source".toList, .string "g.c".toList)] ∧
    (written "source = \"g.c\"\nprefix_width = 2").Documented (.ofString "/p/dg.toml")
      [("source".toList, .string "g.c".toList), ("prefix_width".toList, .integer 2)] ∧
    ((written "source = \"g.c\"\nprefix_width = 2").config? (.ofString "/p/dg.toml")).toOption =
      some ⟨.ofString "/p/g.c", 2⟩ ∧
    (∃ error, (written "prefix_width = 2\nsource = 2020-01-01").config?
      (.ofString "/p/dg.toml") = .error error) ∧
    ∀ config : Config, config.applyFile
      ((written "prefix_width = 2\nsource = 2020-01-01").loadedFile (.ofString "/p/dg.toml")) =
        config := by
  have hfirst : (written "prefix_width = 2\nsource = \"g.c\"").Documented
      (.ofString "/p/dg.toml")
      [("prefix_width".toList, .integer 2), ("source".toList, .string "g.c".toList)] := by
    refine documented_written ?_ (by decide +kernel)
    simp only [List.forall_mem_cons]
    exact ⟨.prefixWidth 2, .source _, List.forall_mem_nil _⟩
  have hsecond : (written "source = \"g.c\"\nprefix_width = 2").Documented
      (.ofString "/p/dg.toml")
      [("source".toList, .string "g.c".toList), ("prefix_width".toList, .integer 2)] := by
    refine documented_written ?_ (by decide +kernel)
    simp only [List.forall_mem_cons]
    exact ⟨.source _, .prefixWidth 2, List.forall_mem_nil _⟩
  have hconfig : (written "prefix_width = 2\nsource = \"g.c\"").config?
      (.ofString "/p/dg.toml") = .ok ⟨.ofString "/p/g.c", 2⟩ := by decide +kernel
  have hdated : ∀ table, (written "prefix_width = 2\nsource = 2020-01-01").Documented
      (.ofString "/p/dg.toml") table → ∃ entry ∈ table, ¬ Config.Setting entry := by
    intro table hdocument
    by_contra hsettings
    push Not at hsettings
    obtain ⟨config, haccepted⟩ := hdocument.exists_config_iff.mpr hsettings
    have hrejected : ((written "prefix_width = 2\nsource = 2020-01-01").config?
        (.ofString "/p/dg.toml")).toOption = none := by decide +kernel
    rw [haccepted] at hrejected
    cases hrejected
  obtain ⟨_, hsetBy, hperm⟩ := (config?_exact _ _).1 _ hfirst
  obtain ⟨herror, hkept, _⟩ := (config?_exact _ _).2 hdated
  have hreordered := hperm _ _ hsecond (.swap _ _ _)
  rw [hconfig] at hreordered
  exact ⟨hfirst, hconfig, hsetBy _ hconfig, hsecond, hreordered, herror, hkept⟩

end Host

end GrammarListing
