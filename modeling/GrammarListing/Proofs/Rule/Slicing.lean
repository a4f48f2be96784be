import GrammarListing.Proofs.Alignment
namespace GrammarListing

namespace Rule

/-- The rule of a text, if it has a delimiter, with its column counted in what a cut at the
delimiter's byte offset leaves in front; `none` if the cut cannot be made. -/
def ofTextByCut? (lineNumber : Nat) (text : Text) : Option (Option Rule) :=
  match text.delimiterOffset? with
  | none => some none
  | some offset => (text.splitAtByte? offset).map fun sides =>
      some ⟨lineNumber, text, offset, sides.1.length⟩

def ofLineByCuts? (prefixWidth : Nat) (lineNumber : Nat) (line : Text) : Option (Option Rule) :=
  if line.isRuleComment then
    (line.trim.dropAtByte? prefixWidth).bind (ofTextByCut? lineNumber)
  else some none

theorem ofTextByCut?_eq (lineNumber : Nat) (text : Text) :
    ofTextByCut? lineNumber text = some (ofText? lineNumber text) := by
  rw [ofTextByCut?, ofText?, Text.delimiterOffset?_eq]
  cases hcolumn : text.delimiterColumn? with
  | none => rfl
  | some column =>
      have hlength := (Text.delimiterColumn?_eq_some_iff.mp hcolumn).length_take
      simp only [Option.map_some, Text.splitAtByte?_take, hlength]

theorem ofLineByCuts?_eq (prefixWidth lineNumber : Nat) (line : Text) :
    ofLineByCuts? prefixWidth lineNumber line = some (ofLine? prefixWidth lineNumber line) := by
  unfold ofLineByCuts? ofLine?
  split
  · rw [Text.dropAtByte?_eq, Option.bind_some, ofTextByCut?_eq]
  · rfl

end Rule

def Text.rulesByCuts? (source : Text) (prefixWidth : Nat) : Option (List Rule) :=
  ((source.lines.zipIdx 1).mapM fun line =>
    Rule.ofLineByCuts? prefixWidth line.2 line.1).map (·.filterMap id)

theorem Text.rulesByCuts?_eq (source : Text) (prefixWidth : Nat) :
    source.rulesByCuts? prefixWidth = some (source.rules prefixWidth) := by
  have hlines : (source.lines.zipIdx 1).mapM
      (fun line => Rule.ofLineByCuts? prefixWidth line.2 line.1) =
        some ((source.lines.zipIdx 1).map fun line => Rule.ofLine? prefixWidth line.2 line.1) := by
    simp only [Rule.ofLineByCuts?_eq]
    exact List.mapM_pure
  rw [rulesByCuts?, hlines, Option.map_some, List.filterMap_map]
  rfl

namespace Rule

structure Halves (rule : Rule) (head tail : Text) : Prop where
  head_eq : rule.head? = some head
  tail_eq : rule.tail? = some tail
  text_eq : head ++ tail = rule.text
  delimited : Text.delimiter <+: tail
  first : ¬ Text.delimiter <:+: head
  offset_eq : head.encode.length = rule.offset
  column_eq : head.length = rule.column

theorem Genuine.halves {rule : Rule} (hgenuine : rule.Genuine) :
    rule.Halves (rule.text.take rule.column) (rule.text.drop rule.column) where
  head_eq := by rw [head?, hgenuine.sides?, Option.map_some]
  tail_eq := by rw [tail?, hgenuine.sides?, Option.map_some]
  text_eq := List.take_append_drop rule.column rule.text
  delimited := hgenuine.firstDelimiter.holds
  first := Text.FirstDelimiter.not_infix_take hgenuine.firstDelimiter
  offset_eq := by rw [(genuine_iff.mp hgenuine).2, Text.length_encode]
  column_eq := hgenuine.length_take_column

/-- What a rule of a text of `size` bytes measures, and what alignment to a column adds to it. -/
structure Bounded (rule : Rule) (column size : Nat) : Prop where
  column_le : rule.column ≤ size
  padding_le : rule.padding column ≤ size
  text_le : rule.text.encode.length ≤ size
  total_le : rule.text.encode.length + rule.padding column ≤ 2 * size

theorem Genuine.bounded {rule : Rule} (hgenuine : rule.Genuine) {column size : Nat}
    (htext : rule.text.byteLength ≤ size) (hcolumn : column ≤ size) :
    rule.Bounded column size := by
  have hmark := Text.FirstDelimiter.add_three_le hgenuine.firstDelimiter
  have hlength := rule.text.length_le_byteLength
  have hpadding : rule.padding column ≤ size := Nat.le_trans (Nat.sub_le _ _) hcolumn
  have hencode := rule.text.length_encode
  exact ⟨by omega, hpadding, by omega, by omega⟩

end Rule

theorem Text.byteLength_le_of_mem_rules {source : Text} {prefixWidth : Nat} {rule : Rule}
    (hrule : rule ∈ source.rules prefixWidth) : rule.text.byteLength ≤ source.byteLength := by
  obtain ⟨line, hline, hlifted⟩ := List.mem_filterMap.mp hrule
  rw [(Rule.LiftedFrom.of_ofLine? hlifted).text]
  have hinfix := infix_of_mem_lines (List.fst_mem_of_mem_zipIdx hline)
  exact byteLength_le_of_sublist
    ((List.drop_sublist _ _).trans ((infix_trim line.1).sublist.trans hinfix.sublist))

theorem Text.bounded_of_mem_rules {source : Text} {prefixWidth : Nat} {rule : Rule}
    (hrule : rule ∈ source.rules prefixWidth) :
    rule.Bounded (Rule.commonColumn (source.rules prefixWidth)) source.byteLength := by
  have hbounded : ∀ other ∈ source.rules prefixWidth, other.column ≤ source.byteLength :=
    fun other hother => ((genuine_of_mem_rules hother).bounded
      (byteLength_le_of_mem_rules hother) (Nat.zero_le _)).column_le
  exact (genuine_of_mem_rules hrule).bounded (byteLength_le_of_mem_rules hrule)
    (Rule.commonColumn_le hbounded)

namespace Bytes

theorem byteLength_decodeLossy_le (contents : Bytes) :
    contents.decodeLossy.byteLength ≤ 4 * contents.length :=
  Nat.le_trans (Text.byteLength_le_mul_length _)
    (Nat.mul_le_mul_left 4 contents.length_decodeLossy_le)

theorem alignHeld?_eq {contents : Bytes} (hle : contents.length ≤ maxSourceSize)
    (prefixWidth : Nat) :
    Rule.alignHeld? (contents.rules prefixWidth)
        (Rule.commonColumn (contents.rules prefixWidth)) =
      Rule.alignAll? (contents.rules prefixWidth)
        (Rule.commonColumn (contents.rules prefixWidth)) := by
  have hsize : 2 * (4 * maxSourceSize) ≤ Text.longest := by decide
  have hdecoded := contents.byteLength_decodeLossy_le
  refine if_pos (List.all_eq_true.mpr fun rule hrule => decide_eq_true ?_)
  have htotal := (Text.bounded_of_mem_rules hrule).total_le
  rw [Text.length_encode] at htotal
  refine Nat.le_trans htotal ?_
  omega

theorem rules_cut_within (contents : Bytes) (prefixWidth : Nat) :
    (∀ (text : Text) (offset : Nat) (before after : Text),
      text.splitAtByte? offset = some (before, after) ↔
        text = before ++ after ∧ offset = before.encode.length) ∧
    contents.decodeLossy.rulesByCuts? prefixWidth = some (contents.rules prefixWidth) ∧
    ∃ listing, contents.listing? prefixWidth = some listing ∧
      (∀ rule ∈ contents.rules prefixWidth,
        (∃ head tail, rule.Halves head tail) ∧
        rule.Bounded listing.column contents.decodeLossy.encode.length ∧
        (contents.decodeLossy.encode.length ≤ Text.longest →
          rule.text.encode.length + rule.padding listing.column < Nat.pow 2 64)) ∧
      (contents.length ≤ maxSourceSize →
        Rule.alignHeld? (contents.rules prefixWidth) listing.column = some listing.lines) := by
  refine ⟨fun _ _ _ _ => Text.splitAtByte?_eq_some_iff, Text.rulesByCuts?_eq _ prefixWidth, _,
    contents.listing?_eq prefixWidth, fun rule hrule => ?_, fun hle => ?_⟩
  · have hbounded := Text.bounded_of_mem_rules hrule
    rw [← Text.length_encode] at hbounded
    refine ⟨⟨_, _, (Text.genuine_of_mem_rules hrule).halves⟩, hbounded, fun hlongest => ?_⟩
    have htotal := hbounded.total_le
    have hdouble : 2 * Text.longest < Nat.pow 2 64 := by decide
    exact Nat.lt_of_le_of_lt (Nat.le_trans htotal (Nat.mul_le_mul_left 2 hlongest)) hdouble
  · exact (alignHeld?_eq hle prefixWidth).trans
      (Rule.alignAll?_genuine (fun _ => Text.genuine_of_mem_rules) _)

/-- The prefix takes five bytes of a text that a malformed byte has made longer. -/
theorem rules_cut_within_malformed :
    ∃ contents : Bytes, contents.decodeLossy = "\uFFFD// é::= b\n// ::= c".toList ∧
      contents.decodeLossy.rulesByCuts? 3 =
        some [⟨1, " é::= b".toList, 3, 2⟩, ⟨2, "::= c".toList, 0, 0⟩] ∧
      (∃ head tail, Rule.Halves ⟨1, " é::= b".toList, 3, 2⟩ head tail) ∧
      Rule.Bounded ⟨2, "::= c".toList, 0, 0⟩ 2 contents.decodeLossy.encode.length ∧
      (Text.encode "::= c".toList).length + 2 < Nat.pow 2 64 ∧
      Rule.alignHeld? (contents.rules 3) 2 = some [" é::= b".toList, "  ::= c".toList] := by
  have hdecoded : decodeLossy (0xFF :: Text.encode "// é::= b\n// ::= c".toList) =
      "\uFFFD// é::= b\n// ::= c".toList := by decide
  have hrules : rules (0xFF :: Text.encode "// é::= b\n// ::= c".toList) 3 =
      [⟨1, " é::= b".toList, 3, 2⟩, ⟨2, "::= c".toList, 0, 0⟩] := by
    rw [rules, hdecoded]
    decide
  obtain ⟨_, hcuts, listing, hlisting, hparts, hheld⟩ :=
    rules_cut_within (0xFF :: Text.encode "// é::= b\n// ::= c".toList) 3
  have hknown : listing? (0xFF :: Text.encode "// é::= b\n// ::= c".toList) 3 =
      some ⟨[" é::= b".toList, "  ::= c".toList], [1, 2], 2⟩ := by
    rw [listing?_eq, hrules]
    decide
  cases hlisting.symm.trans hknown
  rw [hrules] at hcuts hparts
  obtain ⟨hhalves, _⟩ := hparts ⟨1, " é::= b".toList, 3, 2⟩ (by decide)
  obtain ⟨_, hbounded, hshort⟩ := hparts ⟨2, "::= c".toList, 0, 0⟩ (by decide)
  refine ⟨_, hdecoded, hcuts, hhalves, hbounded, hshort ?_, hheld (by decide)⟩
  rw [hdecoded]
  decide

end Bytes

end GrammarListing
