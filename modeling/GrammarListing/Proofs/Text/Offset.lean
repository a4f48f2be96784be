import GrammarListing.Proofs.Rule.Extraction
import GrammarListing.Proofs.Text.Encoding
import Mathlib.Order.Bounds.Basic
import Mathlib.Order.Nat
namespace GrammarListing

namespace Text

theorem exists_of_indexAtFrom? {start offset place : Nat} {text : Text}
    (hplace : text.indexAtFrom? start offset = some place) :
    ∃ before after : Text, text = before ++ after ∧ offset = before.byteLength ∧
      place = start + before.length := by
  induction text generalizing start offset with
  | nil =>
      unfold indexAtFrom? at hplace
      split at hplace
      · next hzero => exact ⟨[], [], rfl, hzero, (Option.some.inj hplace).symm⟩
      · cases hplace
  | cons c text ih =>
      unfold indexAtFrom? at hplace
      split at hplace
      · next hzero => exact ⟨[], c :: text, rfl, hzero, (Option.some.inj hplace).symm⟩
      split at hplace
      · cases hplace
      · next hinside =>
          obtain ⟨before, after, rfl, hoffset, hindex⟩ := ih hplace
          refine ⟨c :: before, after, rfl, ?_, ?_⟩
          · rw [byteLength_cons]
            omega
          · rw [List.length_cons]
            omega

theorem splitAtByte?_eq_some_iff {text : Text} {offset : Nat} {before after : Text} :
    text.splitAtByte? offset = some (before, after) ↔
      text = before ++ after ∧ offset = before.encode.length := by
  rw [length_encode]
  constructor
  · intro hsplit
    obtain ⟨place, hplace, hsides⟩ := Option.map_eq_some_iff.mp hsplit
    obtain ⟨front, back, rfl, hoffset, hindex⟩ := exists_of_indexAtFrom? hplace
    rw [hindex, Nat.zero_add, List.take_left, List.drop_left] at hsides
    cases hsides
    exact ⟨rfl, hoffset⟩
  · rintro ⟨rfl, rfl⟩
    exact splitAtByte?_byteLength before after

def byteOffset? (text : Text) (index : Nat) : Option Nat :=
  if index < text.length then some (byteLength (text.take index)) else none

/-- What a cut at the byte offset of a character leaves, if the cut can be made; nothing is left
where the text has no such character. -/
def dropAtByte? (text : Text) (count : Nat) : Option Text :=
  match text.byteOffset? count with
  | some offset => (text.splitAtByte? offset).map (·.2)
  | none => some []

theorem dropAtByte?_eq (text : Text) (count : Nat) :
    text.dropAtByte? count = some (text.drop count) := by
  unfold dropAtByte? byteOffset?
  by_cases hinside : count < text.length
  · rw [if_pos hinside]
    exact congrArg (Option.map _) (text.splitAtByte?_take count)
  · rw [if_neg hinside, List.drop_of_length_le (Nat.le_of_not_lt hinside)]

theorem byteLength_le_of_sublist {part text : Text} (hpart : part.Sublist text) :
    part.byteLength ≤ text.byteLength := by
  induction hpart with
  | slnil => exact Nat.le_refl 0
  | cons c _ ih =>
      rw [byteLength_cons]
      omega
  | cons_cons c _ ih =>
      rw [byteLength_cons, byteLength_cons]
      omega

theorem byteLength_le_mul_length (text : Text) : text.byteLength ≤ 4 * text.length := by
  induction text with
  | nil => exact Nat.le_refl 0
  | cons c text ih =>
      have hsize := c.utf8Size_le_four
      rw [byteLength_cons, List.length_cons]
      omega

theorem infix_trim (text : Text) : text.trim <:+: text := by
  obtain ⟨_, before, after, _, _, heq⟩ := trimsTo_iff.mpr (Eq.refl text.trim)
  refine ⟨before, after, ?_⟩
  rw [List.append_assoc, ← heq]

end Text

theorem Pieces.infix_of_mem_texts {pieces : Pieces} {piece : Text} (hpiece : piece ∈ pieces.texts) :
    piece <:+: pieces.source := by
  obtain ⟨first, rest⟩ := pieces
  rcases List.mem_cons.mp hpiece with rfl | hrest
  · exact (List.prefix_append _ _).isInfix
  · obtain ⟨item, hitem, rfl⟩ := List.mem_map.mp hrest
    obtain ⟨front, back, rfl⟩ := List.append_of_mem hitem
    refine ⟨first ++ (front.flatMap fun piece => piece.1.text ++ piece.2) ++ item.1.text,
      back.flatMap fun piece => piece.1.text ++ piece.2, ?_⟩
    simp [source]

theorem Text.infix_of_mem_lines {text line : Text} (hline : line ∈ text.lines) :
    line <:+: text := by
  rw [lines_eq] at hline
  have hinfix := Pieces.infix_of_mem_texts (Pieces.mem_texts_of_mem_lines hline)
  rwa [Pieces.source_ofText] at hinfix

def Bytes.offsetOf? (bytes sought : Bytes) : Option Nat :=
  (List.range bytes.length).find? fun offset => sought.isPrefixOf (bytes.drop offset)

theorem Bytes.offsetOf?_eq_some_iff {bytes sought : Bytes} (hne : sought ≠ []) {offset : Nat} :
    bytes.offsetOf? sought = some offset ↔
      IsLeast {place | sought <+: bytes.drop place} offset := by
  rw [offsetOf?, List.find?_range_eq_some]
  simp only [List.isPrefixOf_iff_prefix, Bool.not_eq_true', ← Bool.not_eq_true]
  constructor
  · rintro ⟨hstands, _, hfirst⟩
    exact ⟨hstands, fun place hplace => Nat.le_of_not_lt fun hlt => hfirst place hlt hplace⟩
  · rintro ⟨hstands, hleast⟩
    refine ⟨hstands, ?_, fun place hlt hplace => Nat.not_le_of_lt hlt (hleast hplace)⟩
    have hlength := List.IsPrefix.length_le hstands
    rw [List.length_drop] at hlength
    have hpos := List.length_pos_iff.mpr hne
    rw [List.mem_range]
    omega

namespace Text

theorem exists_of_encode_ascii {text : Text} {front back : Bytes} {byte : UInt8}
    (hascii : byte < 0x80) (hencode : text.encode = front ++ byte :: back) :
    ∃ before after : Text, text = before ++ Char.ofNat byte.toNat :: after ∧
      front = before.encode ∧ back = after.encode := by
  have hunits : text.map some =
      front.units ++ (some (Char.ofNat byte.toNat) :: back.units) := by
    rw [← Bytes.units_encode, hencode, List.append_cons, Bytes.units_ascii_append front hascii,
      Bytes.units_concat_ascii front hascii]
    simp
  obtain ⟨before, rest, rfl, hfront, hrest⟩ := List.map_eq_append_iff.mp hunits
  obtain ⟨c, after, rfl, hc, hback⟩ := List.map_eq_cons_iff.mp hrest
  rw [← Option.some.inj hc]
  exact ⟨before, after, rfl, Bytes.eq_encode_of_units hfront.symm,
    Bytes.eq_encode_of_units hback.symm⟩

theorem exists_of_encode_cons_ascii {text : Text} {back : Bytes} {byte : UInt8}
    (hascii : byte < 0x80) (hencode : text.encode = byte :: back) :
    ∃ after : Text, text = Char.ofNat byte.toNat :: after ∧ back = after.encode := by
  obtain ⟨before, after, rfl, hempty, hback⟩ :=
    @exists_of_encode_ascii text [] back byte hascii hencode
  cases encode_eq_nil_iff.mp hempty.symm
  exact ⟨after, rfl, hback⟩

/-- The bytes of a delimiter stand where a delimiter stands, and nowhere else. -/
theorem encode_delimiter_prefix_iff {text : Text} {offset : Nat} :
    delimiter.encode <+: text.encode.drop offset ↔
      ∃ index, text.DelimiterAt index ∧ offset = byteLength (text.take index) := by
  constructor
  · rintro ⟨back, hback⟩
    have hlength := congrArg List.length hback
    have hdelimiter : delimiter.encode.length = 3 := rfl
    rw [List.length_append, List.length_drop, hdelimiter] at hlength
    have hencode : text.encode = text.encode.take offset ++ (0x3A :: 0x3A :: 0x3D :: back) := by
      conv_lhs => rw [← List.take_append_drop offset text.encode, ← hback]
      rfl
    obtain ⟨before, _, rfl, hbefore, hfirst⟩ := exists_of_encode_ascii (by decide) hencode
    obtain ⟨_, rfl, hsecond⟩ := exists_of_encode_cons_ascii (by decide) hfirst.symm
    obtain ⟨after, rfl, _⟩ := exists_of_encode_cons_ascii (by decide) hsecond.symm
    refine ⟨before.length, ?_, ?_⟩
    · rw [DelimiterAt, List.drop_left]
      exact List.prefix_append delimiter after
    · rw [List.take_left, ← length_encode, ← hbefore, List.length_take]
      omega
  · rintro ⟨index, ⟨after, hafter⟩, rfl⟩
    have hencode : text.encode = encode (text.take index) ++ encode (text.drop index) := by
      rw [← encode_append, List.take_append_drop]
    rw [hencode, List.drop_left' (length_encode _), ← hafter, encode_append]
    exact List.prefix_append _ _

theorem FirstDelimiter.isLeast_offset {text : Text} {column : Nat}
    (hfirst : text.FirstDelimiter column) :
    IsLeast {offset | delimiter.encode <+: text.encode.drop offset}
      (byteLength (text.take column)) := by
  constructor
  · exact encode_delimiter_prefix_iff.mpr ⟨column, hfirst.holds, rfl⟩
  · intro offset hoffset
    obtain ⟨index, hstands, rfl⟩ := encode_delimiter_prefix_iff.mp hoffset
    have hle : column ≤ index := Nat.le_of_not_lt fun hlt => hfirst.first index hlt hstands
    exact byteLength_le_of_sublist (List.take_sublist_take_left hle)

def delimiterOffset? (text : Text) : Option Nat :=
  text.encode.offsetOf? delimiter.encode

theorem delimiterOffset?_eq (text : Text) :
    text.delimiterOffset? =
      text.delimiterColumn?.map fun column => byteLength (text.take column) := by
  have hne : delimiter.encode ≠ [] := by decide
  cases hcolumn : text.delimiterColumn? with
  | some column =>
      exact (Bytes.offsetOf?_eq_some_iff hne).mpr
        (delimiterColumn?_eq_some_iff.mp hcolumn).isLeast_offset
  | none =>
      rw [Option.map_none, Option.eq_none_iff_forall_ne_some]
      intro offset hoffset
      obtain ⟨index, hstands, _⟩ :=
        encode_delimiter_prefix_iff.mp ((Bytes.offsetOf?_eq_some_iff hne).mp hoffset).1
      have hsome := delimiterColumn?_isSome_iff.mpr ⟨index, hstands⟩
      rw [hcolumn] at hsome
      cases hsome

end Text

end GrammarListing
