import GrammarListing.Config.Discovery
import Mathlib.Data.List.Induction
namespace GrammarListing.Config

def LoadedFile.loads (file : LoadedFile) : Bool :=
  file.layer?.isOk

theorem applyFile_of_not_loads {file : LoadedFile} (hfails : file.loads = false)
    (config : Config) : config.applyFile file = config := by
  unfold LoadedFile.loads at hfails
  rw [applyFile]
  cases hlayer : file.layer? with
  | ok layer =>
      rw [hlayer] at hfails
      cases hfails
  | error error => rfl

theorem foldl_applyFile_filter (files : List LoadedFile) (config : Config) :
    (files.filter LoadedFile.loads).foldl applyFile config = files.foldl applyFile config := by
  induction files generalizing config with
  | nil => rfl
  | cons file files ih =>
      cases hloads : file.loads with
      | true =>
          rw [List.filter_cons_of_pos hloads]
          exact ih (config.applyFile file)
      | false =>
          rw [List.filter_cons_of_neg (by simp [hloads]), List.foldl_cons,
            applyFile_of_not_loads hloads]
          exact ih config

theorem ofFiles_filter (files : List LoadedFile) :
    ofFiles (files.filter LoadedFile.loads) = ofFiles files :=
  foldl_applyFile_filter files initial

/-- A file loads and sets the source: to the path that it holds if that is absolute or the file has
no directory to name, and otherwise to that path taken from the directory of the file. -/
inductive LoadedFile.SetsSource (file : LoadedFile) : Path → Prop
  | asWritten {layer : Layer} {source : Path} (hload : file.layer? = .ok layer)
      (hset : layer.source? = some source)
      (hwritten : source.isAbsolute ∨
        ∀ directory, file.path.parent? = some directory → directory.isEmpty) :
      SetsSource file source
  | inDirectory {layer : Layer} {source directory : Path} (hload : file.layer? = .ok layer)
      (hset : layer.source? = some source) (hrelative : ¬ source.isAbsolute)
      (hdirectory : file.path.parent? = some directory) (hnamed : ¬ directory.isEmpty) :
      SetsSource file (directory.join source)

def LoadedFile.SetsPrefixWidth (file : LoadedFile) (width : Nat) : Prop :=
  ∃ layer, file.layer? = .ok layer ∧ layer.prefixWidth? = some width

section Settled

variable {β α : Type} {sets : β → α → Prop}

/-- What some files, the last of which counts most, make of a field. -/
inductive Settled (sets : β → α → Prop) (initial : α) : List β → α → Prop
  | unset {files : List β} (hunset : ∀ file ∈ files, ∀ value, ¬ sets file value) :
      Settled sets initial files initial
  | last {before after : List β} {file : β} {value : α}
      (hsets : sets file value) (hlater : ∀ later ∈ after, ∀ value, ¬ sets later value) :
      Settled sets initial (before ++ file :: after) value

theorem Settled.concat_set {initial value : α} {file : β} (hsets : sets file value)
    (files : List β) : Settled sets initial (files ++ [file]) value :=
  .last hsets fun _ hlater => absurd hlater List.not_mem_nil

theorem Settled.concat_unset {initial value : α} {files : List β} {file : β}
    (hunset : ∀ value, ¬ sets file value) (hsettled : Settled sets initial files value) :
    Settled sets initial (files ++ [file]) value := by
  cases hsettled with
  | unset hfiles =>
      refine .unset fun found hfound => ?_
      rcases List.mem_append.mp hfound with hmem | hmem
      · exact hfiles found hmem
      · rwa [List.mem_singleton.mp hmem]
  | @last before after setter value hsets hlater =>
      rw [List.append_assoc, List.cons_append]
      refine .last hsets fun later hmem => ?_
      rcases List.mem_append.mp hmem with hmem | hmem
      · exact hlater later hmem
      · rwa [List.mem_singleton.mp hmem]

theorem settled_map_iff {γ : Type} {make : γ → β} {initial value : α} {files : List γ} :
    Settled sets initial (files.map make) value ↔
      Settled (fun file => sets (make file)) initial files value := by
  constructor
  · intro hsettled
    generalize hfiles : files.map make = made at hsettled
    cases hsettled with
    | unset hunset =>
        subst hfiles
        exact .unset (List.forall_mem_map.mp hunset)
    | last hsets hlater =>
        obtain ⟨before, rest, rfl, rfl, hrest⟩ := List.map_eq_append_iff.mp hfiles
        obtain ⟨file, after, rfl, rfl, rfl⟩ := List.map_eq_cons_iff.mp hrest
        exact .last hsets (List.forall_mem_map.mp hlater)
  · intro hsettled
    cases hsettled with
    | unset hunset => exact .unset (List.forall_mem_map.mpr hunset)
    | last hsets hlater =>
        rw [List.map_append, List.map_cons]
        exact .last hsets (List.forall_mem_map.mpr hlater)

end Settled

section Governs

variable {α : Type} {sets : LoadedFile → α → Prop} {field : Config → α}

/-- A field of a configuration takes the value that a file sets, and is kept by any other file. -/
structure Governs (sets : LoadedFile → α → Prop) (field : Config → α) : Prop where
  taken : ∀ {file value}, sets file value →
    ∀ config : Config, field (config.applyFile file) = value
  kept : ∀ {file}, (∀ value, ¬ sets file value) →
    ∀ config : Config, field (config.applyFile file) = field config

theorem Governs.settled (hgoverns : Governs sets field) (files : List LoadedFile) :
    Settled sets (field initial) files (field (ofFiles files)) := by
  induction files using List.reverseRecOn with
  | nil => exact .unset fun _ hfile => absurd hfile List.not_mem_nil
  | append_singleton files file ih =>
      rw [ofFiles, List.foldl_append, List.foldl_cons, List.foldl_nil, ← ofFiles]
      by_cases hset : ∃ value, sets file value
      · obtain ⟨value, hvalue⟩ := hset
        rw [hgoverns.taken hvalue]
        exact .concat_set hvalue files
      · have hunset := not_exists.mp hset
        rw [hgoverns.kept hunset]
        exact ih.concat_unset hunset

theorem Governs.exists_sets (hgoverns : Governs sets field) {files : List LoadedFile}
    (hset : ∃ file ∈ files, ∃ value, sets file value) :
    ∃ file ∈ files, sets file (field (ofFiles files)) := by
  have hsettled := hgoverns.settled files
  generalize field (ofFiles files) = settled at hsettled
  cases hsettled with
  | unset hunset =>
      obtain ⟨file, hfile, value, hvalue⟩ := hset
      exact absurd hvalue (hunset file hfile value)
  | @last before after file value hsets hlater =>
      exact ⟨file, List.mem_append_right _ List.mem_cons_self, hsets⟩

theorem Governs.foldl_of_unset (hgoverns : Governs sets field) {files : List LoadedFile}
    (hunset : ∀ file ∈ files, ∀ value, ¬ sets file value) (config : Config) :
    field (files.foldl applyFile config) = field config := by
  induction files generalizing config with
  | nil => rfl
  | cons file files ih =>
      rw [List.foldl_cons, ih fun found hfound => hunset found (List.mem_cons_of_mem _ hfound),
        hgoverns.kept (hunset file List.mem_cons_self)]

theorem Governs.settled_iff (hgoverns : Governs sets field) {files : List LoadedFile} {value : α} :
    Settled sets (field initial) files value ↔ field (ofFiles files) = value := by
  constructor
  · intro hsettled
    cases hsettled with
    | unset hunset => exact hgoverns.foldl_of_unset hunset initial
    | last hsets hlater =>
        rw [ofFiles, List.foldl_append, List.foldl_cons, hgoverns.foldl_of_unset hlater,
          hgoverns.taken hsets]
  · intro hvalue
    rw [← hvalue]
    exact hgoverns.settled files

theorem Governs.foldl_congr (hgoverns : Governs sets field) (files : List LoadedFile)
    {first second : Config} (hsame : field first = field second) :
    field (files.foldl applyFile first) = field (files.foldl applyFile second) := by
  induction files generalizing first second with
  | nil => exact hsame
  | cons file files ih =>
      refine ih ?_
      by_cases hset : ∃ value, sets file value
      · obtain ⟨value, hvalue⟩ := hset
        rw [hgoverns.taken hvalue, hgoverns.taken hvalue]
      · have hunset := not_exists.mp hset
        rw [hgoverns.kept hunset, hgoverns.kept hunset, hsame]

theorem Governs.ofFiles_of_set (hgoverns : Governs sets field) {file : LoadedFile} {value : α}
    (hsets : sets file value) (before other after : List LoadedFile) :
    field (ofFiles (before ++ file :: after)) = field (ofFiles (other ++ file :: after)) := by
  simp only [ofFiles, List.foldl_append, List.foldl_cons]
  refine hgoverns.foldl_congr after ?_
  rw [hgoverns.taken hsets, hgoverns.taken hsets]

end Governs

section Fields

variable {file : LoadedFile} {layer : Layer}

theorem applyFile_of_layer (hload : file.layer? = .ok layer) (config : Config) :
    config.applyFile file = config.apply file.path.parent? layer := by
  rw [applyFile, hload]

theorem LoadedFile.setsSource_resolve (hload : file.layer? = .ok layer) {source : Path}
    (hset : layer.source? = some source) :
    file.SetsSource (resolve file.path.parent? source) := by
  cases hparent : file.path.parent? with
  | none =>
      refine .asWritten hload hset (.inr fun directory hsome => ?_)
      rw [hparent] at hsome
      cases hsome
  | some directory =>
      rw [resolve]
      split
      · next hwritten =>
          refine .asWritten hload hset ?_
          rcases (Bool.or_eq_true_iff ..).mp hwritten with habsolute | hempty
          · exact .inl habsolute
          · refine .inr fun found hfound => ?_
            rw [hparent] at hfound
            rwa [← Option.some.inj hfound]
      · next hrelative =>
          obtain ⟨hsource, hnamed⟩ := not_or.mp (mt (Bool.or_eq_true_iff ..).mpr hrelative)
          exact .inDirectory hload hset hsource hparent hnamed

theorem LoadedFile.SetsSource.resolve_eq {value : Path} (hsets : file.SetsSource value) :
    ∃ layer source, file.layer? = .ok layer ∧ layer.source? = some source ∧
      value = resolve file.path.parent? source := by
  cases hsets with
  | asWritten hload hset hwritten =>
      refine ⟨_, _, hload, hset, ?_⟩
      cases hparent : file.path.parent? with
      | none => rfl
      | some directory =>
          rw [resolve, if_pos]
          rw [Bool.or_eq_true_iff]
          exact hwritten.imp_right fun hempty => hempty directory hparent
  | inDirectory hload hset hrelative hdirectory hnamed =>
      refine ⟨_, _, hload, hset, ?_⟩
      rw [hdirectory, resolve, if_neg]
      rw [Bool.or_eq_true_iff]
      exact not_or.mpr ⟨hrelative, hnamed⟩

theorem governs_source : Governs LoadedFile.SetsSource Config.source where
  taken {file value} hsets config := by
    obtain ⟨layer, source, hload, hset, rfl⟩ := hsets.resolve_eq
    simp only [applyFile_of_layer hload, apply, hset, Option.map_some, Option.getD_some]
  kept {file} hunset config := by
    cases hload : file.layer? with
    | error error => rw [applyFile, hload]
    | ok layer =>
        cases hset : layer.source? with
        | none =>
            simp only [applyFile_of_layer hload, apply, hset, Option.map_none, Option.getD_none]
        | some source => exact absurd (LoadedFile.setsSource_resolve hload hset) (hunset _)

theorem governs_prefixWidth : Governs LoadedFile.SetsPrefixWidth Config.prefixWidth where
  taken {file value} hsets config := by
    obtain ⟨layer, hload, hset⟩ := hsets
    simp only [applyFile_of_layer hload, apply, hset, Option.getD_some]
  kept {file} hunset config := by
    cases hload : file.layer? with
    | error error => rw [applyFile, hload]
    | ok layer =>
        cases hset : layer.prefixWidth? with
        | none => simp only [applyFile_of_layer hload, apply, hset, Option.getD_none]
        | some width => exact absurd ⟨layer, hload, hset⟩ (hunset width)

end Fields

theorem ofFiles_filter_of_loads {files : List LoadedFile} {keep : LoadedFile → Bool}
    (hkeep : ∀ file ∈ files, file.loads → keep file) :
    ofFiles (files.filter keep) = ofFiles files := by
  rw [← ofFiles_filter, ← ofFiles_filter files, List.filter_filter]
  refine congrArg ofFiles (List.filter_congr fun file hfile => ?_)
  cases hloads : file.loads with
  | false => rfl
  | true => rw [hkeep file hfile hloads, Bool.and_true]

end GrammarListing.Config
