import GrammarListing.Proofs.Rule.Annotation
import Mathlib.Data.List.Nodup
namespace GrammarListing

namespace Rule

def narrow? (rule : Rule) (count : Nat) : Option Rule :=
  ofText? rule.lineNumber (rule.text.drop count)

theorem narrow?_isSome_iff {rule : Rule} {count : Nat} :
    (rule.narrow? count).isSome ↔ ∃ index ≥ count, rule.text.DelimiterAt index := by
  rw [narrow?, ofText?_isSome_iff, Text.exists_delimiterAt_drop_iff]

theorem ofText?_drop_add (lineNumber width count : Nat) (text : Text) :
    ofText? lineNumber (text.drop (width + count)) =
      (ofText? lineNumber (text.drop width)).bind (·.narrow? count) := by
  cases hrule : ofText? lineNumber (text.drop width) with
  | some rule =>
      obtain ⟨rfl, htext, _⟩ := ofText?_eq_some_iff.mp hrule
      rw [Option.bind_some, narrow?, htext, List.drop_drop]
  | none =>
      -- A delimiter behind the wider prefix stands behind the narrower one too.
      rw [Option.bind_none, ← Option.isNone_iff_eq_none, ← Option.not_isSome, Bool.not_eq_true',
        ← Bool.not_eq_true, ofText?_isSome_iff, Text.exists_delimiterAt_drop_iff]
      rintro ⟨index, hindex, hstands⟩
      have hsome : (ofText? lineNumber (text.drop width)).isSome :=
        ofText?_isSome_iff.mpr (Text.exists_delimiterAt_drop_iff.mpr ⟨index, by omega, hstands⟩)
      rw [hrule] at hsome
      cases hsome

theorem ofLine?_widen (width count lineNumber : Nat) (line : Text) :
    ofLine? (width + count) lineNumber line =
      (ofLine? width lineNumber line).bind (·.narrow? count) := by
  unfold ofLine?
  split
  · exact ofText?_drop_add lineNumber width count line.trim
  · rfl

theorem map_filterMap_eq {α : Type} {make : α → Option Rule} {number : α → Nat} {items : List α}
    (hnumber : ∀ item rule, make item = some rule → rule.lineNumber = number item) :
    (items.filterMap make).map lineNumber =
      (items.filter fun item => (make item).isSome).map number := by
  induction items with
  | nil => rfl
  | cons item items ih =>
      cases hmake : make item with
      | none =>
          rw [List.filterMap_cons_none hmake, List.filter_cons_of_neg (by simp [hmake]), ih]
      | some rule =>
          rw [List.filterMap_cons_some hmake, List.filter_cons_of_pos (by simp [hmake]),
            List.map_cons, List.map_cons, hnumber item rule hmake, ih]

end Rule

namespace Text

theorem rules_add (source : Text) (width count : Nat) :
    source.rules (width + count) = (source.rules width).filterMap (·.narrow? count) := by
  rw [rules, rules, Rule.ofLines, Rule.ofLines, List.filterMap_filterMap]
  exact List.filterMap_congr fun line _ => Rule.ofLine?_widen width count line.2 line.1

theorem eq_of_lineNumber_eq {source : Text} {width : Nat} {rule other : Rule}
    (hrule : rule ∈ source.rules width) (hother : other ∈ source.rules width)
    (hnumber : rule.lineNumber = other.lineNumber) : rule = other := by
  have hincreasing : ((source.rules width).map Rule.lineNumber).Pairwise (· < ·) :=
    List.pairwise_map.mpr (Rule.pairwise_ofLines width source.lines)
  exact List.inj_on_of_nodup_map (hincreasing.imp Nat.ne_of_lt) hrule hother hnumber

theorem map_lineNumber_rules_add (source : Text) (width count : Nat) :
    (source.rules (width + count)).map Rule.lineNumber =
      ((source.rules width).filter fun rule => (rule.narrow? count).isSome).map
        Rule.lineNumber := by
  rw [rules_add]
  refine Rule.map_filterMap_eq fun rule narrowed hnarrowed => ?_
  exact (Rule.ofText?_eq_some_iff.mp hnarrowed).1

theorem lineNumber_mem_rules_add {source : Text} {width count : Nat} {rule : Rule}
    (hrule : rule ∈ source.rules width) :
    rule.lineNumber ∈ (source.rules (width + count)).map Rule.lineNumber ↔
      ∃ index ≥ count, rule.text.DelimiterAt index := by
  rw [map_lineNumber_rules_add, List.mem_map, ← Rule.narrow?_isSome_iff]
  constructor
  · rintro ⟨other, hother, hnumber⟩
    obtain ⟨hmem, hkept⟩ := List.mem_filter.mp hother
    rwa [← eq_of_lineNumber_eq hmem hrule hnumber]
  · intro hkept
    exact ⟨rule, List.mem_filter.mpr ⟨hrule, hkept⟩, rfl⟩

theorem text_of_mem_rules_add {source : Text} {width count : Nat} {rule narrowed : Rule}
    (hrule : rule ∈ source.rules width) (hnarrowed : narrowed ∈ source.rules (width + count))
    (hnumber : narrowed.lineNumber = rule.lineNumber) :
    narrowed.text = rule.text.drop count := by
  rw [rules_add] at hnarrowed
  obtain ⟨other, hother, hnarrow⟩ := List.mem_filterMap.mp hnarrowed
  obtain ⟨hsame, htext, _⟩ := Rule.ofText?_eq_some_iff.mp hnarrow
  rw [htext, eq_of_lineNumber_eq hother hrule (hsame.symm.trans hnumber)]

/-- The delimiter of a rule comment stands behind two slashes and a white character, also in the
trimmed line. -/
theorem ofLine?_isSome_of_le {width lineNumber : Nat} (hwidth : width ≤ 3) {line : Text}
    (hunbroken : line.Unbroken) :
    (Rule.ofLine? width lineNumber line).isSome ↔ line.isRuleComment := by
  rw [Rule.ofLine?_isSome_iff hunbroken, hunbroken.isRuleComment_iff]
  constructor
  · exact (·.delimited)
  · intro hannotated
    obtain ⟨index, _, later, hlater, hstands⟩ := Annotated.trim hannotated
    exact ⟨hannotated, later, by omega, hstands⟩

theorem map_lineNumber_rules_of_le (source : Text) {width : Nat} (hwidth : width ≤ 3) :
    (source.rules width).map Rule.lineNumber =
      ((source.lines.zipIdx 1).filter (·.1.isRuleComment)).map (·.2) := by
  have hnumber : ∀ (line : Text × Nat) rule,
      Rule.ofLine? width line.2 line.1 = some rule → rule.lineNumber = line.2 :=
    fun _ _ hrule => (Rule.LiftedFrom.of_ofLine? hrule).lineNumber
  rw [rules, Rule.ofLines, Rule.map_filterMap_eq hnumber]
  congr 1
  refine List.filter_congr fun line hline => ?_
  rw [Bool.eq_iff_iff]
  exact ofLine?_isSome_of_le hwidth (unbroken_of_mem_lines (List.fst_mem_of_mem_zipIdx hline))

theorem rules_widened (source : Text) :
    (∀ width wider, width ≤ wider →
      ((source.rules wider).map Rule.lineNumber).Sublist
        ((source.rules width).map Rule.lineNumber) ∧
      (∀ rule ∈ source.rules width, ∀ narrowed ∈ source.rules wider,
        narrowed.lineNumber = rule.lineNumber →
          narrowed.text = rule.text.drop (wider - width)) ∧
      ∀ rule ∈ source.rules width,
        rule.lineNumber ∉ (source.rules wider).map Rule.lineNumber ↔
          ¬ ∃ index ≥ wider - width, rule.text.DelimiterAt index) ∧
    ∀ width ≤ 3, (source.rules width).map Rule.lineNumber =
      ((source.lines.zipIdx 1).filter (·.1.isRuleComment)).map (·.2) := by
  refine ⟨fun width wider hle => ?_, fun width hwidth => source.map_lineNumber_rules_of_le hwidth⟩
  obtain ⟨count, rfl⟩ := Nat.exists_eq_add_of_le hle
  rw [Nat.add_sub_cancel_left]
  refine ⟨?_, fun rule hrule narrowed hnarrowed => text_of_mem_rules_add hrule hnarrowed,
    fun rule hrule => not_congr (lineNumber_mem_rules_add hrule)⟩
  rw [map_lineNumber_rules_add]
  exact List.filter_sublist.map _

/-- A delimiter that the wider prefix cuts into gives way to a later one, or its line is dropped. -/
theorem rules_widened_torn :
    ∃ source : Text,
      source.rules 3 = [⟨1, "a::= b ::= c".toList, 1, 1⟩, ⟨2, "::= d".toList, 0, 0⟩] ∧
      source.rules 5 = [⟨1, ":= b ::= c".toList, 5, 5⟩] ∧
      ((source.rules 5).map Rule.lineNumber).Sublist ((source.rules 3).map Rule.lineNumber) ∧
      ":= b ::= c".toList = "a::= b ::= c".toList.drop (5 - 3) ∧
      (2 ∉ (source.rules 5).map Rule.lineNumber ↔
        ¬ ∃ index ≥ 5 - 3, DelimiterAt "::= d".toList index) ∧
      (source.rules 3).map Rule.lineNumber =
        ((source.lines.zipIdx 1).filter (·.1.isRuleComment)).map (·.2) := by
  obtain ⟨hwidened, hall⟩ := rules_widened "\t// a::= b ::= c\r// ::= d".toList
  obtain ⟨hsublist, htext, hdropped⟩ := hwidened 3 5 (by decide)
  refine ⟨_, by decide, by decide, hsublist, ?_, ?_, hall 3 (by decide)⟩
  · exact htext ⟨1, "a::= b ::= c".toList, 1, 1⟩ (by decide)
      ⟨1, ":= b ::= c".toList, 5, 5⟩ (by decide) rfl
  · exact hdropped ⟨2, "::= d".toList, 0, 0⟩ (by decide)

end Text

end GrammarListing
