import GrammarListing.Path
import Mathlib.Data.List.Basic
namespace GrammarListing.Path

@[simp] theorem cutSlashes_nil : cutSlashes [] = [[]] := rfl

@[simp] theorem cutSlashes_slash (bytes : Bytes) :
    cutSlashes (slash :: bytes) = [] :: cutSlashes bytes :=
  rfl

theorem cutSlashes_cons {byte : UInt8} (hbyte : byte ≠ slash) {bytes first : Bytes}
    {rest : List Bytes} (hcut : cutSlashes bytes = first :: rest) :
    cutSlashes (byte :: bytes) = (byte :: first) :: rest := by
  rw [show cutSlashes (byte :: bytes) = cutStep byte (cutSlashes bytes) from rfl, hcut, cutStep,
    if_neg hbyte]

theorem exists_cutSlashes_eq_cons (bytes : Bytes) :
    ∃ first rest, cutSlashes bytes = first :: rest :=
  List.exists_cons_of_ne_nil (cutSlashes_ne_nil bytes)

theorem cutSlashes_append (front back : Bytes) :
    cutSlashes (front ++ slash :: back) = cutSlashes front ++ cutSlashes back := by
  induction front with
  | nil => rfl
  | cons byte front ih =>
      by_cases hbyte : byte = slash
      · rw [hbyte, List.cons_append, cutSlashes_slash, cutSlashes_slash, ih, List.cons_append]
      · obtain ⟨first, rest, hcut⟩ := exists_cutSlashes_eq_cons front
        rw [hcut, List.cons_append] at ih
        rw [List.cons_append, cutSlashes_cons hbyte ih, cutSlashes_cons hbyte hcut,
          List.cons_append]

theorem cutSlashes_of_unslashed {bytes : Bytes} (hslash : slash ∉ bytes) :
    cutSlashes bytes = [bytes] := by
  induction bytes with
  | nil => rfl
  | cons byte bytes ih =>
      have hbyte : byte ≠ slash := Ne.symm (List.ne_of_not_mem_cons hslash)
      exact cutSlashes_cons hbyte (ih (List.not_mem_of_not_mem_cons hslash))

theorem unslashed_of_mem_cutSlashes {bytes segment : Bytes}
    (hsegment : segment ∈ cutSlashes bytes) : slash ∉ segment := by
  induction bytes generalizing segment with
  | nil =>
      rw [List.mem_singleton.mp hsegment]
      exact List.not_mem_nil
  | cons byte bytes ih =>
      obtain ⟨first, rest, hcut⟩ := exists_cutSlashes_eq_cons bytes
      by_cases hbyte : byte = slash
      · rw [hbyte, cutSlashes_slash, List.mem_cons] at hsegment
        cases hsegment with
        | inl hempty =>
            rw [hempty]
            exact List.not_mem_nil
        | inr hmem => exact ih hmem
      · rw [hcut] at ih
        rw [cutSlashes_cons hbyte hcut, List.mem_cons] at hsegment
        cases hsegment with
        | inl hfirst =>
            rw [hfirst]
            exact List.not_mem_cons_of_ne_of_not_mem (Ne.symm hbyte) (ih List.mem_cons_self)
        | inr hmem => exact ih (List.mem_cons_of_mem _ hmem)

theorem cutSlashes_joinSlashes {segments : List Bytes} (hne : segments ≠ [])
    (hslash : ∀ segment ∈ segments, slash ∉ segment) :
    cutSlashes (joinSlashes segments) = segments := by
  induction segments with
  | nil => exact absurd rfl hne
  | cons segment rest ih =>
      have hfirst := cutSlashes_of_unslashed (hslash segment List.mem_cons_self)
      cases rest with
      | nil => exact hfirst
      | cons next rest =>
          have hrest : next :: rest ≠ [] := List.cons_ne_nil next rest
          have hcut := ih hrest fun found hfound => hslash found (List.mem_cons_of_mem _ hfound)
          rw [joinSlashes_cons_of_ne_nil hrest, cutSlashes_append, hfirst, hcut,
            List.singleton_append]

/-- The component that no segment stands for, as the pieces of a path tell it. -/
def lead : List Bytes → List Component
  | [] :: _ :: _ => [.root]
  | first :: _ => if first = [dot] then [.here] else []
  | [] => []

/-- How the anchor and the segments of a path make up its pieces. -/
inductive Form : (anchor : Bytes) → (segments pieces : List Bytes) → Prop
  | rooted {tail : List Bytes} (htail : tail ≠ []) : Form [slash] tail ([] :: tail)
  | dotted (tail : List Bytes) : Form [dot] ([] :: tail) ([dot] :: tail)
  | plain {first : Bytes} {rest : List Bytes} (hdot : first ≠ [dot])
      (hempty : first = [] → rest = []) : Form [] (first :: rest) (first :: rest)

theorem form (path : Path) : Form path.anchor path.segments (cutSlashes path.bytes) := by
  obtain ⟨bytes⟩ := path
  unfold segments
  cases bytes with
  | nil => exact .plain (List.cons_ne_nil _ _).symm fun _ => rfl
  | cons byte bytes =>
      by_cases hslash : byte = slash
      · subst hslash
        have hanchor : anchor ⟨slash :: bytes⟩ = [slash] := by
          cases bytes <;> simp [anchor]
        rw [hanchor]
        exact .rooted (cutSlashes_ne_nil bytes)
      cases bytes with
      | nil =>
          by_cases hdot : byte = dot
          · subst hdot
            exact .dotted []
          · have hanchor : anchor ⟨[byte]⟩ = [] := by simp [anchor, hslash, hdot]
            have hcut : cutSlashes [byte] = [[byte]] := cutSlashes_cons hslash cutSlashes_nil
            simp only [hanchor, List.length_nil, List.drop_zero, hcut]
            exact .plain (by simp [hdot]) fun _ => rfl
      | cons second bytes =>
          by_cases hhere : byte = dot ∧ second = slash
          · obtain ⟨rfl, rfl⟩ := hhere
            exact .dotted (cutSlashes bytes)
          · have hanchor : anchor ⟨byte :: second :: bytes⟩ = [] := by
              simp [anchor, hslash, hhere]
            obtain ⟨first, rest, hcut⟩ := exists_cutSlashes_eq_cons (second :: bytes)
            have hdot : byte :: first ≠ [dot] := by
              intro heq
              obtain ⟨hbyte, hfirst⟩ := List.cons.inj heq
              refine hhere ⟨hbyte, by_contra fun hsecond => ?_⟩
              obtain ⟨inner, later, hinner⟩ := exists_cutSlashes_eq_cons bytes
              rw [cutSlashes_cons hsecond hinner, hfirst] at hcut
              exact absurd (List.cons.inj hcut).1 (List.cons_ne_nil _ _)
            simp only [hanchor, List.length_nil, List.drop_zero, cutSlashes_cons hslash hcut]
            exact .plain hdot fun hempty => absurd hempty (List.cons_ne_nil _ _)

theorem components_eq (path : Path) :
    path.components =
      lead (cutSlashes path.bytes) ++ (cutSlashes path.bytes).filterMap Component.ofSegment? := by
  have hform := path.form
  unfold components
  generalize path.anchor = anchor at hform
  generalize path.segments = segments at hform
  generalize cutSlashes path.bytes = pieces at hform
  cases hform with
  | @rooted tail htail =>
      obtain ⟨next, rest, rfl⟩ := List.exists_cons_of_ne_nil htail
      rfl
  | dotted tail => rfl
  | @plain first rest hdot hempty =>
      cases first with
      | nil => rw [hempty rfl]; rfl
      | cons byte first => simp [lead, hdot]

theorem same_iff {first second : Path} :
    first.same second ↔ first.components = second.components := by
  simp [same]

theorem same_symm {first second : Path} (hsame : first.same second) : second.same first :=
  same_iff.mpr (same_iff.mp hsame).symm

def depth (path : Path) : Nat :=
  path.components.length

structure IsName (path : Path) : Prop where
  unslashed : slash ∉ path.bytes
  named : Component.ofSegment? path.bytes = some (.name path.bytes)

theorem lead_concat_concat (first : Bytes) (rest : List Bytes) (last other : Bytes) :
    lead (first :: rest ++ [last]) = lead (first :: rest ++ [other]) := by
  cases first <;> cases rest <;> rfl

theorem lead_concat {first : Bytes} {rest : List Bytes} (hne : first :: rest ≠ [[]])
    (last : Bytes) : lead (first :: rest ++ [last]) = lead (first :: rest) := by
  cases first with
  | nil =>
      cases rest with
      | nil => exact absurd rfl hne
      | cons next rest => rfl
  | cons byte first => rfl

namespace IsName

variable {name : Path}

theorem not_absolute (hname : name.IsName) : ¬ name.isAbsolute := by
  intro habsolute
  have hslash : name.bytes.head? = some slash := by simpa [isAbsolute] using habsolute
  exact hname.unslashed (List.mem_of_mem_head? hslash)

theorem components_join (hname : name.IsName) (base : Path) :
    (base.join name).components = base.components ++ [.name name.bytes] := by
  have hcut := cutSlashes_of_unslashed hname.unslashed
  have hnamed : [name.bytes].filterMap Component.ofSegment? = [.name name.bytes] := by
    simp [hname.named]
  obtain ⟨bytes⟩ := base
  rw [join, if_neg hname.not_absolute]
  rcases List.eq_nil_or_concat' bytes with rfl | ⟨front, last, rfl⟩
  · have hlead : lead [name.bytes] = [] := by
      have hne : name.bytes ≠ [dot] := by
        intro heq
        have htrivial := hname.named
        rw [heq] at htrivial
        cases htrivial
      cases hbytes : name.bytes with
      | nil => rfl
      | cons byte bytes =>
          rw [hbytes] at hne
          exact if_neg hne
    have hjoin : (if isEmpty ⟨[]⟩ || ([] : Bytes).getLast? == some slash then ⟨[] ++ name.bytes⟩
        else ⟨[] ++ slash :: name.bytes⟩ : Path) = name := rfl
    rw [hjoin, components_eq, hcut, hlead, hnamed]
    rfl
  · obtain ⟨first, rest, hfront⟩ := exists_cutSlashes_eq_cons front
    by_cases hlast : last = slash
    · subst hlast
      have hbase : cutSlashes (front ++ [slash]) = first :: rest ++ [[]] := by
        rw [cutSlashes_append, hfront, cutSlashes_nil]
      have hjoin : cutSlashes (front ++ [slash] ++ name.bytes) = first :: rest ++ [name.bytes] := by
        rw [List.append_assoc, List.singleton_append, cutSlashes_append, hfront, hcut]
      rw [if_pos (by simp), components_eq, components_eq, hbase, hjoin,
        lead_concat_concat first rest name.bytes [], List.filterMap_append, List.filterMap_append,
        hnamed]
      simp [Component.ofSegment?, isTrivial]
    · have hbase : cutSlashes (front ++ [last]) ≠ [[]] := by
        intro hempty
        have hbytes := joinSlashes_cutSlashes (front ++ [last])
        rw [hempty] at hbytes
        exact List.concat_ne_nil _ _ hbytes.symm
      obtain ⟨first, rest, hpieces⟩ := exists_cutSlashes_eq_cons (front ++ [last])
      rw [hpieces] at hbase
      rw [if_neg (by simp [isEmpty, hlast]), components_eq, components_eq, cutSlashes_append,
        hcut, hpieces, lead_concat hbase, List.filterMap_append, hnamed, List.append_assoc]

end IsName

theorem not_isEmpty_join {base : Path} (hbase : ¬ base.isEmpty) (path : Path) :
    ¬ (base.join path).isEmpty := by
  obtain ⟨bytes⟩ := base
  cases bytes with
  | nil => exact absurd rfl hbase
  | cons byte bytes =>
      rw [join]
      split
      · next habsolute =>
          intro hempty
          rw [isAbsolute, List.isEmpty_iff.mp hempty] at habsolute
          cases habsolute
      · split <;> exact Bool.false_ne_true

end GrammarListing.Path
