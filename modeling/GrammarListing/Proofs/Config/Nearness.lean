import GrammarListing.Proofs.Config.Files
import GrammarListing.Proofs.Config.Loading
import GrammarListing.Proofs.Stream.Dump
namespace GrammarListing.Host

/-! The nearer file wins.  Of two ancestors that hold a file, the outer one's comes first, and what
the nearer one's sets is not overridden by it.  The file in the home directory is the exception: it
comes before all others, however near the home directory is. -/

variable {host : Host} {start near far : Path}

theorem isFile_of_layer? {path : Path} {layer : Config.Layer}
    (hload : host.layer? path = .ok layer) :
    host.isFile path := by
  rw [layer?] at hload
  cases hcontents : host.contents path with
  | error fault =>
      rw [hcontents] at hload
      cases hload
  | ok contents =>
      rw [isFile, contents_eq_ok_iff.mp hcontents]
      rfl

theorem depth_lt_of_nearer (hnearer : [near, far].Sublist start.ancestors) :
    far.depth < near.depth :=
  List.pairwise_iff_forall_sublist.mp start.pairwise_ancestors hnearer

theorem not_same_of_nearer (hnearer : [near, far].Sublist start.ancestors) :
    ¬ (near.join Config.fileName).same (far.join Config.fileName) := by
  intro hsame
  have hdepth : (near.join Config.fileName).depth = (far.join Config.fileName).depth :=
    congrArg List.length (Path.same_iff.mp hsame)
  rw [depth_join_fileName, depth_join_fileName, Nat.add_right_cancel_iff] at hdepth
  exact absurd hdepth (Nat.ne_of_gt (depth_lt_of_nearer hnearer))

theorem mem_ancestors_of_nearer (hnearer : [near, far].Sublist start.ancestors) :
    near ∈ start.ancestors ∧ far ∈ start.ancestors :=
  ⟨hnearer.subset (by simp), hnearer.subset (by simp)⟩

theorem sublist_ancestorConfigFiles (hnearer : [near, far].Sublist start.ancestors)
    (hnear : host.isFile (near.join Config.fileName))
    (hfar : host.isFile (far.join Config.fileName))
    (hnearHome : ¬ host.isHomeConfigFile (near.join Config.fileName))
    (hfarHome : ¬ host.isHomeConfigFile (far.join Config.fileName)) :
    [far.join Config.fileName, near.join Config.fileName].Sublist
      (host.ancestorConfigFiles start) := by
  have hkept : ([near, far].reverse.map (·.join Config.fileName)).filter
      (fun path => host.isFile path && !host.isHomeConfigFile path) =
      [far.join Config.fileName, near.join Config.fileName] := by
    simp [hnear, hfar, hnearHome, hfarHome]
  rw [← hkept]
  exact (hnearer.reverse.map _).filter _

theorem mem_ancestorConfigFiles_join {ancestor : Path} (hancestor : ancestor ∈ start.ancestors)
    (hfile : host.isFile (ancestor.join Config.fileName))
    (hhome : ¬ host.isHomeConfigFile (ancestor.join Config.fileName)) :
    ancestor.join Config.fileName ∈ host.ancestorConfigFiles start :=
  mem_ancestorConfigFiles.mpr ⟨⟨ancestor, hancestor, rfl⟩, hfile, hhome⟩

theorem home_before_ancestor {home path : Path} (hhome : home ∈ host.homeConfigFile?)
    (hpath : path ∈ host.ancestorConfigFiles start) :
    [home, path].Sublist (host.configFiles start) := by
  rw [configFiles_eq, Option.mem_def.mp hhome]
  exact List.Sublist.cons_cons home (List.singleton_sublist.mpr hpath)

theorem exists_before (hnearer : [near, far].Sublist start.ancestors)
    (hnear : host.isFile (near.join Config.fileName))
    (hfar : host.isFile (far.join Config.fileName))
    (hhome : ¬ host.isHomeConfigFile (near.join Config.fileName)) :
    ∃ farFile, farFile.same (far.join Config.fileName) ∧
      [farFile, near.join Config.fileName].Sublist (host.configFiles start) := by
  obtain ⟨hnearMem, hfarMem⟩ := mem_ancestors_of_nearer hnearer
  cases hfarHome : host.isHomeConfigFile (far.join Config.fileName) with
  | true =>
      obtain ⟨home, hmem, hsame⟩ := isHomeConfigFile_iff.mp hfarHome
      exact ⟨home, hsame,
        home_before_ancestor hmem (mem_ancestorConfigFiles_join hnearMem hnear hhome)⟩
  | false =>
      refine ⟨_, Path.same_iff.mpr rfl, ?_⟩
      rw [configFiles_eq]
      exact (sublist_ancestorConfigFiles hnearer hnear hfar hhome (by simp [hfarHome])).trans
        (List.sublist_append_right _ _)

theorem exists_home_before (hnearer : [near, far].Sublist start.ancestors)
    (hfar : host.isFile (far.join Config.fileName))
    (hhome : host.isHomeConfigFile (near.join Config.fileName)) :
    ∃ nearFile, nearFile.same (near.join Config.fileName) ∧
      [nearFile, far.join Config.fileName].Sublist (host.configFiles start) := by
  obtain ⟨home, hmem, hsame⟩ := isHomeConfigFile_iff.mp hhome
  refine ⟨home, hsame, home_before_ancestor hmem ?_⟩
  refine mem_ancestorConfigFiles_join (mem_ancestors_of_nearer hnearer).2 hfar fun hfarHome => ?_
  obtain ⟨found, hfound, hfoundSame⟩ := isHomeConfigFile_iff.mp hfarHome
  have hfound : found = home := Option.mem_unique hfound hmem
  rw [hfound] at hfoundSame
  refine not_same_of_nearer hnearer (Path.same_iff.mpr ?_)
  exact (Path.same_iff.mp hsame).symm.trans (Path.same_iff.mp hfoundSame)

theorem exists_split_of_sublist {α : Type} {first second : α} {list : List α}
    (hbefore : [first, second].Sublist list) :
    ∃ before after, list = before ++ second :: after ∧ first ∈ before := by
  obtain ⟨front, back, rfl, hfirst, hsecond⟩ := List.cons_sublist_iff.mp hbefore
  obtain ⟨middle, after, rfl⟩ := List.append_of_mem (List.singleton_sublist.mp hsecond)
  exact ⟨front ++ middle, after, by rw [List.append_assoc], List.mem_append_left _ hfirst⟩

theorem field_without_before {α : Type} {sets : Config.LoadedFile → α → Prop}
    {field : Config → α} (hgoverns : Config.Governs sets field) {farFile nearFile : Path}
    {value : α} (hbefore : [farFile, nearFile].Sublist (host.configFiles start))
    (hsets : sets (host.loadedFile nearFile) value) :
    field (Config.ofFiles ((host.loadedFiles start).filter fun file => !file.path.same farFile)) =
      field (host.discoveredConfig start) := by
  have hdistinct := pairwise_configFiles host start
  obtain ⟨before, after, hsplit, hmem⟩ := exists_split_of_sublist hbefore
  rw [hsplit, List.pairwise_append] at hdistinct
  obtain ⟨_, _, hother⟩ := hdistinct
  -- No two files are the same, so the file that is left out does not come again behind the other.
  have hlater : ∀ path ∈ nearFile :: after, path.same farFile = false := fun path hpath =>
    Bool.eq_false_iff.mpr fun hsame => hother farFile hmem path hpath (Path.same_symm hsame)
  have hkept : ((nearFile :: after).map host.loadedFile).filter
      (fun file => !file.path.same farFile) = (nearFile :: after).map host.loadedFile := by
    rw [List.filter_eq_self]
    intro file hfile
    obtain ⟨path, hpath, rfl⟩ := List.mem_map.mp hfile
    rw [loadedFile, hlater path hpath, Bool.not_false]
  rw [discoveredConfig, loadedFiles_eq, hsplit, List.map_append, List.filter_append, hkept]
  exact hgoverns.ofFiles_of_set hsets _ _ _

theorem configFiles_nearest {nearLayer farLayer : Config.Layer}
    (hnearer : [near, far].Sublist start.ancestors)
    (hnear : host.layer? (near.join Config.fileName) = .ok nearLayer)
    (hfar : host.layer? (far.join Config.fileName) = .ok farLayer) :
    (¬ host.isHomeConfigFile (near.join Config.fileName) →
      ∃ farFile, farFile.same (far.join Config.fileName) ∧
        [farFile, near.join Config.fileName].Sublist (host.configFiles start) ∧
        (nearLayer.source?.isSome →
          (Config.ofFiles ((host.loadedFiles start).filter fun file =>
            !file.path.same farFile)).source = (host.discoveredConfig start).source) ∧
        (nearLayer.prefixWidth?.isSome →
          (Config.ofFiles ((host.loadedFiles start).filter fun file =>
            !file.path.same farFile)).prefixWidth = (host.discoveredConfig start).prefixWidth)) ∧
    (host.isHomeConfigFile (near.join Config.fileName) →
      ∃ nearFile, nearFile.same (near.join Config.fileName) ∧
        [nearFile, far.join Config.fileName].Sublist (host.configFiles start)) := by
  have hnearFile := isFile_of_layer? hnear
  have hfarFile := isFile_of_layer? hfar
  refine ⟨fun hhome => ?_, exists_home_before hnearer hfarFile⟩
  obtain ⟨farFile, hsame, hbefore⟩ := exists_before hnearer hnearFile hfarFile hhome
  refine ⟨farFile, hsame, hbefore, fun hset => ?_, fun hset => ?_⟩
  · obtain ⟨source, hsource⟩ := Option.isSome_iff_exists.mp hset
    exact field_without_before Config.governs_source hbefore
      (Config.LoadedFile.setsSource_resolve hnear hsource)
  · obtain ⟨width, hwidth⟩ := Option.isSome_iff_exists.mp hset
    exact field_without_before Config.governs_prefixWidth hbefore ⟨nearLayer, hnear, hwidth⟩

def nested (home : String) : Host where
  files := Snapshot.fileSystem
    [(.ofString "/u/dumpgrammar.toml",
        .ok (.file (.ofBytes (Text.encode "prefix_width = 5".toList)))),
      (.ofString "/u/a/dumpgrammar.toml",
        .ok (.file (.ofBytes (Text.encode "prefix_width = 2".toList))))]
  directory := .ofString "/u/a"
  home := some (Text.encode home.toList)
  userProfile := none

theorem configFiles_nearest_nested :
    [Path.ofString "/u/a", .ofString "/u"].Sublist (Path.ofString "/u/a").ancestors ∧
    (nested "/h").layer? ((Path.ofString "/u/a").join Config.fileName) = .ok ⟨none, some 2⟩ ∧
    (nested "/h").layer? ((Path.ofString "/u").join Config.fileName) = .ok ⟨none, some 5⟩ ∧
    ¬ (nested "/h").isHomeConfigFile ((Path.ofString "/u/a").join Config.fileName) ∧
    ∃ farFile, farFile.same ((Path.ofString "/u").join Config.fileName) ∧
      [farFile, (Path.ofString "/u/a").join Config.fileName].Sublist
        ((nested "/h").configFiles (.ofString "/u/a")) ∧
      (Config.ofFiles (((nested "/h").loadedFiles (.ofString "/u/a")).filter fun file =>
        !file.path.same farFile)).prefixWidth =
          ((nested "/h").discoveredConfig (.ofString "/u/a")).prefixWidth := by
  have hnearer : [Path.ofString "/u/a", .ofString "/u"].Sublist
      (Path.ofString "/u/a").ancestors := by decide +kernel
  have hnear : (nested "/h").layer? ((Path.ofString "/u/a").join Config.fileName) =
      .ok ⟨none, some 2⟩ := by decide +kernel
  have hfar : (nested "/h").layer? ((Path.ofString "/u").join Config.fileName) =
      .ok ⟨none, some 5⟩ := by decide +kernel
  have hhome : ¬ (nested "/h").isHomeConfigFile ((Path.ofString "/u/a").join Config.fileName) := by
    decide +kernel
  obtain ⟨farFile, hsame, hbefore, _, hwidth⟩ :=
    (configFiles_nearest hnearer hnear hfar).1 hhome
  exact ⟨hnearer, hnear, hfar, hhome, farFile, hsame, hbefore, hwidth rfl⟩

/-- Where the nearer directory is the home directory, the outer file's value counts. -/
theorem home_overridden :
    [Path.ofString "/u/a", .ofString "/u"].Sublist (Path.ofString "/u/a").ancestors ∧
    (nested "/u/a").layer? (.ofString "/u/a/dumpgrammar.toml") = .ok ⟨none, some 2⟩ ∧
    (nested "/u/a").layer? (.ofString "/u/dumpgrammar.toml") = .ok ⟨none, some 5⟩ ∧
    (nested "/u/a").configFiles (.ofString "/u/a") =
      [.ofString "/u/a/dumpgrammar.toml", .ofString "/u/dumpgrammar.toml"] ∧
    ((nested "/u/a").discoveredConfig (.ofString "/u/a")).prefixWidth = 5 := by
  decide +kernel

end GrammarListing.Host
