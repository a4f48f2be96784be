import GrammarListing.Text.Basic
namespace GrammarListing

/-! Paths are bytes cut at slashes.  A path is read as its anchor — the root, a leading dot, or
nothing — and the segments after it, of which the empty ones and the dots name nothing.  Two
paths are the same when their components are, but every operation keeps the spelling. -/

structure Path where
  bytes : Bytes
deriving DecidableEq

namespace Path

def slash : UInt8 := 47

def dot : UInt8 := 46

def ofString (name : String) : Path :=
  ⟨Text.encode name.toList⟩

def display (path : Path) : String :=
  String.ofList path.bytes.decodeLossy

def isEmpty (path : Path) : Bool :=
  path.bytes.isEmpty

def isAbsolute (path : Path) : Bool :=
  path.bytes.head? == some slash

def cutStep (byte : UInt8) (segments : List Bytes) : List Bytes :=
  if byte = slash then [] :: segments
  else
    match segments with
    | [] => [[byte]]
    | first :: rest => (byte :: first) :: rest

def cutSlashes (bytes : Bytes) : List Bytes :=
  bytes.foldr cutStep [[]]

def joinSlashes : List Bytes → Bytes
  | [] => []
  | [segment] => segment
  | segment :: rest => segment ++ slash :: joinSlashes rest

theorem joinSlashes_cons_of_ne_nil {segment : Bytes} {rest : List Bytes} (hrest : rest ≠ []) :
    joinSlashes (segment :: rest) = segment ++ slash :: joinSlashes rest := by
  cases rest with
  | nil => exact absurd rfl hrest
  | cons _ _ => rfl

theorem cutSlashes_ne_nil (bytes : Bytes) : cutSlashes bytes ≠ [] := by
  cases bytes with
  | nil => simp [cutSlashes]
  | cons byte bytes =>
      simp only [cutSlashes, List.foldr_cons, cutStep]
      split
      · simp
      · split <;> simp

@[simp] theorem joinSlashes_cutSlashes (bytes : Bytes) :
    joinSlashes (cutSlashes bytes) = bytes := by
  induction bytes with
  | nil => rfl
  | cons byte bytes ih =>
      have hne := cutSlashes_ne_nil bytes
      rw [show cutSlashes (byte :: bytes) = cutStep byte (cutSlashes bytes) from rfl]
      unfold cutStep
      split
      · next hslash =>
          rw [joinSlashes_cons_of_ne_nil hne, ih, hslash]
          rfl
      · cases hcut : cutSlashes bytes with
        | nil => exact absurd hcut hne
        | cons first rest =>
            rw [hcut] at ih
            cases rest with
            | nil => simpa [joinSlashes] using ih
            | cons _ _ => simpa [joinSlashes] using ih

theorem length_joinSlashes_le_append (front back : List Bytes) :
    (joinSlashes front).length ≤ (joinSlashes (front ++ back)).length := by
  induction front with
  | nil => simp [joinSlashes]
  | cons segment rest ih =>
      cases rest with
      | nil =>
          cases back with
          | nil => simp
          | cons _ _ => simp [joinSlashes]
      | cons next rest =>
          simp only [List.cons_append, joinSlashes, List.length_append, List.length_cons] at ih ⊢
          omega

theorem length_joinSlashes_lt_concat (front : List Bytes) {last : Bytes} (hlast : last ≠ []) :
    (joinSlashes front).length < (joinSlashes (front ++ [last])).length := by
  have hpos : 0 < last.length := List.length_pos_iff.mpr hlast
  induction front with
  | nil => simpa [joinSlashes] using hpos
  | cons segment rest ih =>
      cases rest with
      | nil =>
          simp only [List.cons_append, List.nil_append, joinSlashes, List.length_append,
            List.length_cons]
          omega
      | cons next rest =>
          simp only [List.cons_append, joinSlashes, List.length_append, List.length_cons] at ih ⊢
          omega

def isTrivial (segment : Bytes) : Bool :=
  segment == [] || segment == [dot]

/-- The part that no segment belongs to: the root slash or a leading dot. -/
def anchor (path : Path) : Bytes :=
  match path.bytes with
  | [] => []
  | [first] => if first = slash ∨ first = dot then [first] else []
  | first :: second :: _ =>
      if first = slash ∨ first = dot ∧ second = slash then [first] else []

def segments (path : Path) : List Bytes :=
  cutSlashes (path.bytes.drop path.anchor.length)

def dropTrivialEnd (segments : List Bytes) : List Bytes :=
  (segments.reverse.dropWhile isTrivial).reverse

theorem dropTrivialEnd_append_trivial (segments : List Bytes) :
    ∃ trivial, segments = dropTrivialEnd segments ++ trivial := by
  refine ⟨(segments.reverse.takeWhile isTrivial).reverse, ?_⟩
  rw [dropTrivialEnd, ← List.reverse_append, List.takeWhile_append_dropWhile,
    List.reverse_reverse]

theorem dropTrivialEnd_getLast_ne_nil {segments : List Bytes}
    (h : dropTrivialEnd segments ≠ []) : (dropTrivialEnd segments).getLast h ≠ [] := by
  have hne : segments.reverse.dropWhile isTrivial ≠ [] := by
    simpa [dropTrivialEnd] using h
  have hhead := List.head_dropWhile_not isTrivial hne
  intro hnil
  have : (segments.reverse.dropWhile isTrivial).head hne = [] := by
    simpa [dropTrivialEnd, List.getLast_reverse] using hnil
  rw [this] at hhead
  simp [isTrivial] at hhead

inductive Component where
  | root
  | here
  | up
  | name (segment : Bytes)
deriving DecidableEq

def Component.ofSegment? (segment : Bytes) : Option Component :=
  if isTrivial segment then none
  else if segment = [dot, dot] then some .up
  else some (.name segment)

def components (path : Path) : List Component :=
  (match path.anchor with
    | [] => []
    | first :: _ => if first = slash then [.root] else [.here]) ++
    path.segments.filterMap Component.ofSegment?

def same (first second : Path) : Bool :=
  first.components == second.components

/-- The path without its last component; a leading dot alone leaves the empty path. -/
def parent? (path : Path) : Option Path :=
  match dropTrivialEnd path.segments with
  | [] => if path.anchor = [dot] then some ⟨[]⟩ else none
  | named =>
      some ⟨path.anchor ++ joinSlashes (dropTrivialEnd named.dropLast)⟩

theorem bytes_eq_anchor_append (path : Path) :
    path.bytes = path.anchor ++ joinSlashes path.segments := by
  have hanchor : path.anchor = path.bytes.take path.anchor.length := by
    unfold anchor
    split
    · rfl
    · next hbytes => split <;> simp [hbytes]
    · next hbytes => split <;> simp [hbytes]
  rw [segments, joinSlashes_cutSlashes]
  conv => lhs; rw [← List.take_append_drop path.anchor.length path.bytes]
  rw [← hanchor]

theorem length_lt_of_parent? {path parent : Path} (h : path.parent? = some parent) :
    parent.bytes.length < path.bytes.length := by
  have hbytes := congrArg List.length path.bytes_eq_anchor_append
  obtain ⟨trivial, htrivial⟩ := dropTrivialEnd_append_trivial path.segments
  unfold parent? at h
  split at h
  · split at h
    · next hanchor =>
        cases h
        rw [hanchor] at hbytes
        simp at hbytes ⊢
        omega
    · cases h
  · next named hne =>
      have hnamed : dropTrivialEnd path.segments ≠ [] := hne
      cases h
      obtain ⟨inner, hinner⟩ :=
        dropTrivialEnd_append_trivial (dropTrivialEnd path.segments).dropLast
      have hlast := dropTrivialEnd_getLast_ne_nil hnamed
      have hconcat := List.dropLast_concat_getLast hnamed
      have h1 := length_joinSlashes_le_append
        (dropTrivialEnd (dropTrivialEnd path.segments).dropLast) inner
      rw [← hinner] at h1
      have h2 := length_joinSlashes_lt_concat (dropTrivialEnd path.segments).dropLast hlast
      rw [hconcat] at h2
      have h3 := length_joinSlashes_le_append (dropTrivialEnd path.segments) trivial
      rw [← htrivial] at h3
      simp only [List.length_append] at hbytes ⊢
      omega

def ancestors (path : Path) : List Path :=
  path ::
    match _h : path.parent? with
    | none => []
    | some parent => parent.ancestors
termination_by path.bytes.length
decreasing_by exact length_lt_of_parent? _h

def fileName? (path : Path) : Option Bytes :=
  match path.components.getLast? with
  | some (.name segment) => some segment
  | _ => none

/-- A relative path is put behind another with one slash between them; an absolute one stands
for itself. -/
def join (base path : Path) : Path :=
  if path.isAbsolute then path
  else if base.isEmpty || base.bytes.getLast? == some slash then ⟨base.bytes ++ path.bytes⟩
  else ⟨base.bytes ++ slash :: path.bytes⟩

end Path

end GrammarListing
