import GrammarListing.Proofs.Path.Ancestors
namespace GrammarListing.Path

/-! Absolute directories.  The ancestors of an absolute path are absolute, and so is what is joined
to it.  A directory as it is reported has no piece too many, so what a name is joined to is the
parent. -/

variable {path base name : Path}

theorem isAbsolute_iff : path.isAbsolute ↔ ∃ rest, path.bytes = slash :: rest := by
  rw [isAbsolute, beq_iff_eq, List.head?_eq_some_iff]

theorem isAbsolute_rooted (rest : Bytes) : isAbsolute ⟨slash :: rest⟩ :=
  isAbsolute_iff.mpr ⟨rest, rfl⟩

theorem anchor_rooted (rest : Bytes) : anchor ⟨slash :: rest⟩ = [slash] := by
  cases rest <;> simp [anchor]

theorem anchor_of_isAbsolute (habsolute : path.isAbsolute) : path.anchor = [slash] := by
  obtain ⟨bytes⟩ := path
  obtain ⟨rest, rfl⟩ := isAbsolute_iff.mp habsolute
  exact anchor_rooted rest

theorem not_isEmpty_of_isAbsolute (habsolute : path.isAbsolute) : ¬ path.isEmpty := by
  obtain ⟨rest, hbytes⟩ := isAbsolute_iff.mp habsolute
  rw [isEmpty, hbytes]
  exact Bool.false_ne_true

theorem isAbsolute_join (hbase : base.isAbsolute) (path : Path) : (base.join path).isAbsolute := by
  obtain ⟨rest, hbytes⟩ := isAbsolute_iff.mp hbase
  rw [join]
  split
  · next habsolute => exact habsolute
  · split
    · rw [hbytes]
      exact isAbsolute_rooted _
    · rw [hbytes]
      exact isAbsolute_rooted _

theorem isAbsolute_of_parent? {parent : Path} (habsolute : path.isAbsolute)
    (hparent : path.parent? = some parent) : parent.isAbsolute := by
  have hanchor := anchor_of_isAbsolute habsolute
  unfold parent? at hparent
  split at hparent
  · rw [hanchor] at hparent
    cases hparent
  · rw [hanchor] at hparent
    cases hparent
    exact isAbsolute_rooted _

theorem isAbsolute_of_mem_ancestors {ancestor : Path} (habsolute : path.isAbsolute)
    (hmem : ancestor ∈ path.ancestors) : ancestor.isAbsolute := by
  induction path using ancestors.induct with
  | case1 path ih =>
      cases hparent : path.parent? with
      | none =>
          rw [ancestors_of_none hparent, List.mem_singleton] at hmem
          rwa [hmem]
      | some parent =>
          rw [ancestors_of_some hparent, List.mem_cons] at hmem
          cases hmem with
          | inl hself => rwa [hself]
          | inr hmem => exact ih parent hparent (isAbsolute_of_parent? habsolute hparent) hmem

theorem getLast?_components_of_parent?_none (hparent : path.parent? = none) (segment : Bytes) :
    path.components.getLast? ≠ some (.name segment) := by
  have hnone : dropTrivialEnd path.segments = [] := by
    unfold parent? at hparent
    split at hparent
    · next hnone => exact hnone
    · cases hparent
  have hsegments : path.segments.filterMap Component.ofSegment? = [] := by
    rw [← filterMap_dropTrivialEnd, hnone]
    rfl
  rw [components, hsegments, List.append_nil]
  split
  · exact nofun
  · split
    · exact nofun
    · exact nofun

theorem IsName.exists_parent?_join (hname : name.IsName) (base : Path) :
    ∃ parent, (base.join name).parent? = some parent := by
  cases hparent : (base.join name).parent? with
  | none =>
      refine absurd ?_ (getLast?_components_of_parent?_none hparent name.bytes)
      rw [hname.components_join, List.getLast?_concat]
  | some parent => exact ⟨parent, rfl⟩

theorem IsName.not_isTrivial (hname : name.IsName) : ¬ isTrivial name.bytes := by
  intro htrivial
  have hnamed := hname.named
  rw [Component.ofSegment?, if_pos htrivial] at hnamed
  cases hnamed

theorem joinSlashes_concat {front : List Bytes} (hne : front ≠ []) (last : Bytes) :
    joinSlashes (front ++ [last]) = joinSlashes front ++ slash :: last := by
  induction front with
  | nil => exact absurd rfl hne
  | cons segment rest ih =>
      cases rest with
      | nil => rfl
      | cons next rest =>
          have hrest := List.cons_ne_nil next rest
          have hmore : next :: rest ++ [last] ≠ [] := List.cons_ne_nil _ _
          rw [List.cons_append, joinSlashes_cons_of_ne_nil hmore, ih hrest,
            joinSlashes_cons_of_ne_nil hrest, List.append_assoc, List.cons_append]

theorem IsName.ne_nil (hname : name.IsName) : name.bytes ≠ [] := by
  intro hempty
  apply hname.not_isTrivial
  rw [hempty]
  rfl

theorem dropTrivialEnd_names {names : List Bytes} (hnames : ∀ name ∈ names, IsName ⟨name⟩) :
    dropTrivialEnd names = names := by
  rcases List.eq_nil_or_concat' names with rfl | ⟨front, last, rfl⟩
  · rfl
  · rw [dropTrivialEnd_concat, if_neg (hnames last List.mem_concat_self).not_isTrivial]

def rooted (names : List Bytes) : Path :=
  ⟨slash :: joinSlashes names⟩

section Rooted

variable {names : List Bytes}

theorem names_concat (hnames : ∀ name ∈ names, IsName ⟨name⟩) (hname : name.IsName) :
    ∀ other ∈ names ++ [name.bytes], IsName ⟨other⟩ :=
  List.forall_mem_append.mpr ⟨hnames, List.forall_mem_singleton.mpr hname⟩

theorem getLast?_rooted_concat (front : List Bytes) (hname : name.IsName) :
    (rooted (front ++ [name.bytes])).bytes.getLast? ≠ some slash := by
  obtain ⟨byte, rest, hbytes⟩ := List.exists_cons_of_ne_nil hname.ne_nil
  have hslash : name.bytes.getLast? ≠ some slash := fun hslash =>
    hname.unslashed (List.mem_of_getLast? hslash)
  rw [hbytes] at hslash ⊢
  cases front with
  | nil => exact hslash
  | cons segment front =>
      rwa [rooted, joinSlashes_concat (List.cons_ne_nil _ _), ← List.cons_append,
        List.getLast?_append_of_ne_nil _ (List.cons_ne_nil _ _), List.getLast?_cons_cons]

theorem join_rooted (hnames : ∀ name ∈ names, IsName ⟨name⟩) (hname : name.IsName) :
    (rooted names).join name = rooted (names ++ [name.bytes]) := by
  rw [join, if_neg hname.not_absolute]
  rcases List.eq_nil_or_concat' names with rfl | ⟨front, last, rfl⟩
  · rfl
  · have hslash := getLast?_rooted_concat front (hnames last List.mem_concat_self)
    rw [if_neg, rooted, rooted, joinSlashes_concat (List.concat_ne_nil _ _), List.cons_append]
    rw [Bool.or_eq_true, beq_iff_eq]
    exact not_or.mpr ⟨Bool.false_ne_true, hslash⟩

theorem segments_rooted (hnames : ∀ name ∈ names, IsName ⟨name⟩) (hne : names ≠ []) :
    (rooted names).segments = names := by
  rw [segments, rooted, anchor_rooted]
  exact cutSlashes_joinSlashes hne fun name hname => (hnames name hname).unslashed

theorem parent?_rooted (hnames : ∀ name ∈ names, IsName ⟨name⟩) (hname : name.IsName) :
    (rooted (names ++ [name.bytes])).parent? = some (rooted names) := by
  have hconcat := names_concat hnames hname
  have hsegments := segments_rooted hconcat (List.concat_ne_nil _ _)
  have hanchor : (rooted (names ++ [name.bytes])).anchor = [slash] := anchor_rooted _
  unfold parent?
  rw [hsegments, dropTrivialEnd_names hconcat, hanchor]
  split
  · next hnil => exact absurd hnil (List.concat_ne_nil _ _)
  · rw [List.dropLast_concat, dropTrivialEnd_names hnames]
    rfl

end Rooted

/-- A directory as it is reported: the root, or what a name is joined to such a directory. -/
inductive Reported : Path → Prop
  | root : Reported ⟨[slash]⟩
  | child {directory name : Path} (hdirectory : Reported directory) (hname : name.IsName) :
      Reported (directory.join name)

namespace Reported

variable {directory : Path}

theorem exists_rooted (hdirectory : directory.Reported) :
    ∃ names, (∀ name ∈ names, IsName ⟨name⟩) ∧ directory = rooted names := by
  induction hdirectory with
  | root => exact ⟨[], nofun, rfl⟩
  | @child directory name _ hname ih =>
      obtain ⟨names, hnames, rfl⟩ := ih
      exact ⟨names ++ [name.bytes], names_concat hnames hname, join_rooted hnames hname⟩

theorem isAbsolute (hdirectory : directory.Reported) : directory.isAbsolute := by
  induction hdirectory with
  | root => exact isAbsolute_rooted []
  | child _ _ ih => exact isAbsolute_join ih _

theorem parent?_join (hdirectory : directory.Reported) (hname : name.IsName) :
    (directory.join name).parent? = some directory := by
  obtain ⟨names, hnames, rfl⟩ := hdirectory.exists_rooted
  rw [join_rooted hnames hname]
  exact parent?_rooted hnames hname

theorem ancestors_join (hdirectory : directory.Reported) (hname : name.IsName) :
    (directory.join name).ancestors = directory.join name :: directory.ancestors :=
  ancestors_of_some (hdirectory.parent?_join hname)

theorem foldl_join (hdirectory : directory.Reported) {names : List Path}
    (hnames : ∀ name ∈ names, name.IsName) : (names.foldl join directory).Reported := by
  induction names generalizing directory with
  | nil => exact hdirectory
  | cons name names ih =>
      obtain ⟨hname, hrest⟩ := List.forall_mem_cons.mp hnames
      exact ih (hdirectory.child hname) hrest

end Reported

end GrammarListing.Path
