import GrammarListing.Proofs.Path.Components
import Mathlib.Data.List.Induction
namespace GrammarListing.Path

/-! The parent of a path has one component less, so the ancestors of a path stand at different
depths, and what is found in one of them is not what is found in another. -/

theorem dropTrivialEnd_concat (segments : List Bytes) (last : Bytes) :
    dropTrivialEnd (segments ++ [last]) =
      if isTrivial last then dropTrivialEnd segments else segments ++ [last] := by
  unfold dropTrivialEnd
  rw [List.reverse_concat, List.dropWhile_cons]
  split
  · rfl
  · rw [List.reverse_cons, List.reverse_reverse]

theorem filterMap_dropTrivialEnd (segments : List Bytes) :
    (dropTrivialEnd segments).filterMap Component.ofSegment? =
      segments.filterMap Component.ofSegment? := by
  induction segments using List.reverseRecOn with
  | nil => rfl
  | append_singleton segments last ih =>
      rw [dropTrivialEnd_concat]
      by_cases htrivial : isTrivial last
      · have hnone : Component.ofSegment? last = none := if_pos htrivial
        rw [if_pos htrivial, ih, List.filterMap_append, List.filterMap_cons, hnone]
        simp
      · rw [if_neg htrivial]

theorem exists_ofSegment? {segment : Bytes} (hsegment : ¬ isTrivial segment) :
    ∃ component, Component.ofSegment? segment = some component := by
  rw [Component.ofSegment?, if_neg hsegment]
  split
  · exact ⟨_, rfl⟩
  · exact ⟨_, rfl⟩

theorem dropTrivialEnd_cases (segments : List Bytes) :
    dropTrivialEnd segments = [] ∨
      ∃ front last, dropTrivialEnd segments = front ++ [last] ∧ ¬ isTrivial last := by
  induction segments using List.reverseRecOn with
  | nil => exact .inl rfl
  | append_singleton segments last ih =>
      rw [dropTrivialEnd_concat]
      by_cases htrivial : isTrivial last
      · rw [if_pos htrivial]
        exact ih
      · rw [if_neg htrivial]
        exact .inr ⟨segments, last, rfl, htrivial⟩

theorem prefix_dropTrivialEnd (segments : List Bytes) : dropTrivialEnd segments <+: segments := by
  obtain ⟨trivial, htrivial⟩ := dropTrivialEnd_append_trivial segments
  exact ⟨trivial, htrivial.symm⟩

theorem components_anchor_append {path : Path} {front : List Bytes}
    (hfront : front <+: path.segments) :
    components ⟨path.anchor ++ joinSlashes front⟩ =
      lead (cutSlashes path.bytes) ++ front.filterMap Component.ofSegment? := by
  have hcut : front ≠ [] → cutSlashes (joinSlashes front) = front := fun hne =>
    cutSlashes_joinSlashes hne fun segment hsegment =>
      unslashed_of_mem_cutSlashes (hfront.subset hsegment)
  -- The anchor comes from the first two pieces, and these may change when segments are taken away.
  have hform := path.form
  rw [components_eq]
  dsimp only
  generalize path.anchor = anchor at hform
  generalize path.segments = segments at hform hfront
  generalize cutSlashes path.bytes = pieces at hform
  cases hform with
  | @rooted tail htail =>
      obtain ⟨next, later, rfl⟩ := List.exists_cons_of_ne_nil htail
      cases front with
      | nil => rfl
      | cons segment rest =>
          rw [List.singleton_append, cutSlashes_slash, hcut (List.cons_ne_nil _ _)]
          rfl
  | dotted tail =>
      cases front with
      | nil => rfl
      | cons segment rest =>
          obtain ⟨rfl, _⟩ := List.cons_prefix_cons.mp hfront
          cases rest with
          | nil => rfl
          | cons next rest =>
              have hpieces : cutSlashes ([dot] ++ joinSlashes ([] :: next :: rest)) =
                  [dot] :: next :: rest :=
                cutSlashes_cons (by decide) (hcut (List.cons_ne_nil _ _))
              rw [hpieces]
              rfl
  | @plain first later hdot hempty =>
      have hlead : lead (first :: later) = [] := by
        cases first with
        | nil =>
            rw [hempty rfl]
            rfl
        | cons byte first => exact if_neg hdot
      cases front with
      | nil =>
          rw [hlead]
          rfl
      | cons segment rest =>
          obtain ⟨rfl, hrest⟩ := List.cons_prefix_cons.mp hfront
          have hplain : lead (segment :: rest) = [] := by
            cases segment with
            | nil =>
                rw [hempty rfl] at hrest
                rw [List.prefix_nil.mp hrest]
                rfl
            | cons byte segment => exact if_neg hdot
          rw [List.nil_append, hcut (List.cons_ne_nil _ _), hlead, hplain]

theorem components_of_parent? {path parent : Path} (hparent : path.parent? = some parent) :
    ∃ last, path.components = parent.components ++ [last] := by
  have hsegments : path.components = lead (cutSlashes path.bytes) ++
      (dropTrivialEnd path.segments).filterMap Component.ofSegment? := by
    rw [filterMap_dropTrivialEnd, ← components_anchor_append (List.prefix_refl _),
      ← bytes_eq_anchor_append]
  rcases dropTrivialEnd_cases path.segments with hnone | ⟨front, last, hsome, hlast⟩
  · have hanchor : path.anchor = [dot] := by
      by_contra hne
      rw [parent?, hnone] at hparent
      simp [hne] at hparent
    have hempty : parent = ⟨[]⟩ := by
      rw [parent?, hnone] at hparent
      simpa [hanchor] using hparent.symm
    have hlead : lead (cutSlashes path.bytes) = [.here] := by
      have hform := path.form
      rw [hanchor] at hform
      generalize path.segments = segments at hform
      generalize cutSlashes path.bytes = pieces at hform
      cases hform with
      | dotted tail => rfl
    rw [hsegments, hnone, hlead, hempty]
    exact ⟨.here, rfl⟩
  · have hpath : parent = ⟨path.anchor ++ joinSlashes (dropTrivialEnd front)⟩ := by
      rw [parent?, hsome] at hparent
      simpa using hparent.symm
    have hprefix : dropTrivialEnd front <+: path.segments :=
      (prefix_dropTrivialEnd front).trans
        ((List.prefix_append front [last]).trans (hsome ▸ prefix_dropTrivialEnd path.segments))
    obtain ⟨component, hcomponent⟩ := exists_ofSegment? hlast
    refine ⟨component, ?_⟩
    rw [hsegments, hpath, components_anchor_append hprefix, filterMap_dropTrivialEnd front, hsome,
      List.filterMap_append, List.append_assoc]
    simp [hcomponent]

theorem depth_of_parent? {path parent : Path} (hparent : path.parent? = some parent) :
    path.depth = parent.depth + 1 := by
  obtain ⟨last, hlast⟩ := components_of_parent? hparent
  rw [depth, hlast, List.length_append]
  rfl

theorem ancestors_of_none {path : Path} (hparent : path.parent? = none) :
    path.ancestors = [path] := by
  rw [ancestors]
  split
  · rfl
  · next parent hsome => rw [hsome] at hparent; cases hparent

theorem ancestors_of_some {path parent : Path} (hparent : path.parent? = some parent) :
    path.ancestors = path :: parent.ancestors := by
  rw [ancestors]
  split
  · next hnone => rw [hnone] at hparent; cases hparent
  · next found hsome => rw [Option.some.inj (hparent.symm.trans hsome)]

theorem depth_of_mem_ancestors {path ancestor : Path} (hmem : ancestor ∈ path.ancestors) :
    ancestor.depth ≤ path.depth := by
  induction path using ancestors.induct with
  | case1 path ih =>
      cases hparent : path.parent? with
      | none =>
          rw [ancestors_of_none hparent, List.mem_singleton] at hmem
          exact Nat.le_of_eq (congrArg depth hmem)
      | some parent =>
          rw [ancestors_of_some hparent, List.mem_cons] at hmem
          cases hmem with
          | inl hself => exact Nat.le_of_eq (congrArg depth hself)
          | inr hmem =>
              rw [depth_of_parent? hparent]
              exact Nat.le_add_right_of_le (ih parent hparent hmem)

theorem pairwise_ancestors (path : Path) :
    path.ancestors.Pairwise fun inner outer => outer.depth < inner.depth := by
  induction path using ancestors.induct with
  | case1 path ih =>
      cases hparent : path.parent? with
      | none =>
          rw [ancestors_of_none hparent]
          exact List.pairwise_singleton _ _
      | some parent =>
          have hdepth : parent.depth < path.depth := by
            rw [depth_of_parent? hparent]
            exact Nat.lt_add_one _
          rw [ancestors_of_some hparent]
          exact List.pairwise_cons.mpr ⟨fun ancestor hmem =>
            Nat.lt_of_le_of_lt (depth_of_mem_ancestors hmem) hdepth, ih parent hparent⟩

end GrammarListing.Path
