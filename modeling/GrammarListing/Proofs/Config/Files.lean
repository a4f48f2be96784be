import GrammarListing.Config.Discovery
import GrammarListing.Proofs.Path.Ancestors
import GrammarListing.Proofs.Text.Encoding
namespace GrammarListing

/-! The files that are discovered.  Two ancestors never hold the same file, so a file is left out
only where it is the one in the home directory, which is listed before. -/

theorem Config.isName_fileName : Config.fileName.IsName where
  unslashed := by decide
  named := by decide

namespace Host

/-- The directory that counts as home: what the first variable is set to if that is text, or else
what the second is, and otherwise none. -/
inductive Home (host : Host) : Option Path → Prop
  | home {text : Text} (hset : host.home = some text.encode) : Home host (some ⟨text.encode⟩)
  | userProfile {text : Text} (hhome : ∀ text : Text, host.home ≠ some text.encode)
      (hset : host.userProfile = some text.encode) : Home host (some ⟨text.encode⟩)
  | none (hhome : ∀ text : Text, host.home ≠ some text.encode)
      (hprofile : ∀ text : Text, host.userProfile ≠ some text.encode) : Home host none

theorem filter_decode?_cases (value? : Option Bytes) :
    (∃ text : Text, value? = some text.encode ∧
      value?.filter (fun value => value.decode?.isSome) = some text.encode) ∨
    ((∀ text : Text, value? ≠ some text.encode) ∧
      value?.filter (fun value => value.decode?.isSome) = none) := by
  cases value? with
  | none => exact .inr ⟨fun _ hsome => Option.some_ne_none _ hsome.symm, rfl⟩
  | some value =>
      cases hdecode : value.decode? with
      | some text =>
          have hvalue := Bytes.decode?_eq_some_iff.mp hdecode
          exact .inl ⟨text, congrArg some hvalue, by simp [Option.filter, ← hvalue, hdecode]⟩
      | none =>
          refine .inr ⟨fun text hsome => ?_, by simp [Option.filter, hdecode]⟩
          have hvalue := Bytes.decode?_eq_some_iff.mpr (Option.some.inj hsome)
          rw [hdecode] at hvalue
          cases hvalue

theorem home_homeDirectory? (host : Host) : host.Home host.homeDirectory? := by
  unfold homeDirectory?
  dsimp only
  rcases filter_decode?_cases host.home with ⟨text, hset, hfilter⟩ | ⟨hhome, hfilter⟩
  · rw [hfilter]
    exact .home hset
  · rw [hfilter]
    rcases filter_decode?_cases host.userProfile with
      ⟨text, hset, hfilter⟩ | ⟨hprofile, hfilter⟩
    · rw [hfilter]
      exact .userProfile hhome hset
    · rw [hfilter]
      exact .none hhome hprofile

def homeConfigFile? (host : Host) : Option Path :=
  (host.homeDirectory?.map (·.join Config.fileName)).filter host.isFile

def isHomeConfigFile (host : Host) (path : Path) : Bool :=
  host.homeConfigFile?.any path.same

/-- The configuration files in the ancestors of a directory, the outermost first, but for the one
in the home directory. -/
def ancestorConfigFiles (host : Host) (start : Path) : List Path :=
  (start.ancestors.reverse.map (·.join Config.fileName)).filter fun path =>
    host.isFile path && !host.isHomeConfigFile path

variable {host : Host} {start : Path}

theorem isHomeConfigFile_iff {path : Path} :
    host.isHomeConfigFile path ↔ ∃ home ∈ host.homeConfigFile?, home.same path := by
  rw [isHomeConfigFile]
  cases host.homeConfigFile? with
  | none =>
      refine ⟨fun hany => absurd hany Bool.false_ne_true, ?_⟩
      rintro ⟨home, hhome, _⟩
      cases hhome
  | some home =>
      rw [Option.any_some]
      refine ⟨fun hsame => ⟨home, rfl, Path.same_symm hsame⟩, ?_⟩
      rintro ⟨found, hfound, hsame⟩
      cases hfound
      exact Path.same_symm hsame

theorem foldl_addConfigFile {paths : List Path}
    (hdistinct : paths.Pairwise fun first second => first.depth < second.depth)
    (found : List Path) :
    paths.foldl host.addConfigFile found =
      found ++ paths.filter fun path => host.isFile path && !found.any path.same := by
  induction paths generalizing found with
  | nil => simp
  | cons path paths ih =>
      obtain ⟨hpath, hpaths⟩ := List.pairwise_cons.mp hdistinct
      rw [List.foldl_cons, ih hpaths, addConfigFile]
      by_cases hadd : host.isFile path && !found.any path.same
      · -- What is added is not the same as any later path, for that is deeper.
        have hrest : (paths.filter fun other =>
              host.isFile other && !(found ++ [path]).any other.same) =
            paths.filter fun other => host.isFile other && !found.any other.same := by
          refine List.filter_congr fun other hother => ?_
          have hother : other.same path = false := by
            rw [Bool.eq_false_iff, ne_eq, Path.same_iff]
            intro hsame
            exact absurd (congrArg List.length hsame) (Nat.ne_of_gt (hpath other hother))
          rw [List.any_append, List.any_cons, List.any_nil, hother, Bool.or_false, Bool.or_false]
        rw [if_pos hadd, hrest, List.filter_cons, if_pos hadd, List.append_assoc,
          List.singleton_append]
      · rw [if_neg hadd, List.filter_cons, if_neg hadd]

theorem depth_join_fileName (base : Path) : (base.join Config.fileName).depth = base.depth + 1 := by
  rw [Path.depth, Config.isName_fileName.components_join, List.length_append]
  rfl

theorem pairwise_ancestorPaths (start : Path) :
    (start.ancestors.reverse.map (·.join Config.fileName)).Pairwise
      fun outer inner => outer.depth < inner.depth := by
  rw [List.pairwise_map, List.pairwise_reverse]
  refine start.pairwise_ancestors.imp fun hdepth => ?_
  rw [depth_join_fileName, depth_join_fileName]
  exact Nat.add_lt_add_right hdepth 1

theorem configFiles_eq (host : Host) (start : Path) :
    host.configFiles start = host.homeConfigFile?.toList ++ host.ancestorConfigFiles start := by
  have hhome : host.homeConfigPath?.filter host.isFile = host.homeConfigFile? := rfl
  rw [configFiles, Config.ancestorPaths, hhome, foldl_addConfigFile (pairwise_ancestorPaths start),
    ancestorConfigFiles]
  congr 2
  funext path
  rw [isHomeConfigFile]
  cases host.homeConfigFile? <;> simp

theorem isFile_of_mem_homeConfigFile? {path : Path} (hpath : path ∈ host.homeConfigFile?) :
    host.isFile path :=
  (Option.mem_filter_iff.mp hpath).2

theorem mem_ancestorConfigFiles {path : Path} :
    path ∈ host.ancestorConfigFiles start ↔
      (∃ ancestor ∈ start.ancestors, ancestor.join Config.fileName = path) ∧
        host.isFile path ∧ ¬ host.isHomeConfigFile path := by
  rw [ancestorConfigFiles, List.mem_filter, List.mem_map]
  simp only [List.mem_reverse, Bool.and_eq_true, Bool.not_eq_true', Bool.not_eq_true]

theorem pairwise_ancestorConfigFiles (host : Host) (start : Path) :
    (host.ancestorConfigFiles start).Pairwise fun outer inner => outer.depth < inner.depth :=
  (pairwise_ancestorPaths start).filter _

theorem isFile_of_mem_configFiles {path : Path} (hpath : path ∈ host.configFiles start) :
    host.isFile path := by
  rw [configFiles_eq, List.mem_append, Option.mem_toList] at hpath
  cases hpath with
  | inl hhome => exact isFile_of_mem_homeConfigFile? hhome
  | inr hancestor => exact (mem_ancestorConfigFiles.mp hancestor).2.1

theorem pairwise_configFiles (host : Host) (start : Path) :
    (host.configFiles start).Pairwise fun first second => ¬ first.same second := by
  rw [configFiles_eq, List.pairwise_append]
  refine ⟨?_, ?_, fun home hhome path hpath hsame => ?_⟩
  · cases host.homeConfigFile? with
    | none => exact List.Pairwise.nil
    | some home => exact List.pairwise_singleton _ _
  · refine (pairwise_ancestorConfigFiles host start).imp fun hdepth hsame => ?_
    exact absurd (congrArg List.length (Path.same_iff.mp hsame)) (Nat.ne_of_lt hdepth)
  · refine (mem_ancestorConfigFiles.mp hpath).2.2 ?_
    exact isHomeConfigFile_iff.mpr ⟨home, Option.mem_toList.mp hhome, hsame⟩

theorem exists_same_of_mem_ancestors {ancestor : Path} (hancestor : ancestor ∈ start.ancestors)
    (hfile : host.isFile (ancestor.join Config.fileName)) :
    ∃ path ∈ host.configFiles start, path.same (ancestor.join Config.fileName) := by
  rw [configFiles_eq]
  cases hhome : host.isHomeConfigFile (ancestor.join Config.fileName) with
  | false =>
      refine ⟨_, List.mem_append_right _ (mem_ancestorConfigFiles.mpr ?_),
        Path.same_iff.mpr rfl⟩
      exact ⟨⟨ancestor, hancestor, rfl⟩, hfile, by simp [hhome]⟩
  | true =>
      obtain ⟨home, hmem, hsame⟩ := isHomeConfigFile_iff.mp hhome
      exact ⟨home, List.mem_append_left _ (Option.mem_toList.mpr hmem), hsame⟩

theorem configFiles_exact (host : Host) (start : Path) :
    host.Home host.homeDirectory? ∧
    host.configFiles start =
      ((host.homeDirectory?.map (·.join Config.fileName)).filter host.isFile).toList ++
        (start.ancestors.reverse.map (·.join Config.fileName)).filter (fun path =>
          host.isFile path && !host.isHomeConfigFile path) ∧
    ((host.configFiles start).Pairwise fun first second => ¬ first.same second) ∧
    (∀ path ∈ host.configFiles start, host.isFile path) ∧
    (∀ ancestor ∈ start.ancestors, host.isFile (ancestor.join Config.fileName) →
      ∃ path ∈ host.configFiles start, path.same (ancestor.join Config.fileName)) ∧
    (host.ancestorConfigFiles start).Pairwise fun outer inner => outer.depth < inner.depth :=
  ⟨host.home_homeDirectory?, configFiles_eq host start, pairwise_configFiles host start,
    fun _ => isFile_of_mem_configFiles, fun _ => exists_same_of_mem_ancestors,
    pairwise_ancestorConfigFiles host start⟩

end Host

end GrammarListing
