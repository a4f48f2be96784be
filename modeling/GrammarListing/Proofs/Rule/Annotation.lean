import GrammarListing.Proofs.Alignment
namespace GrammarListing

namespace Text

structure Blank (text : Text) : Prop where
  white : text.White
  unbroken : text.Unbroken

instance (text : Text) : Decidable text.Blank :=
  decidable_of_iff (text.White ∧ text.Unbroken)
    ⟨fun hblank => ⟨hblank.1, hblank.2⟩, fun hblank => ⟨hblank.white, hblank.unbroken⟩⟩

structure Introducer (text : Text) (width : Nat) : Prop where
  opens : text.CommentAt 0
  length : text.length = width
  unbroken : text.Unbroken

structure RuleText (text : Text) : Prop where
  delimited : ∃ index, text.DelimiterAt index
  unbroken : text.Unbroken
  last : ∀ c ∈ text.getLast?, ¬ isWhite c

theorem blank_nil : Blank [] :=
  ⟨fun _ hc => absurd hc List.not_mem_nil, unbroken_nil⟩

theorem RuleText.ne_nil {text : Text} (htext : text.RuleText) : text ≠ [] := by
  rintro rfl
  obtain ⟨index, hstands⟩ := htext.delimited
  exact not_delimiterAt_nil index hstands

theorem RuleText.trimmed_append {introducer text : Text} {width : Nat}
    (hintroducer : introducer.Introducer width) (htext : text.RuleText) :
    Trimmed (introducer ++ text) := by
  obtain ⟨white, body, _, hopens⟩ := commentAt_iff.mp hintroducer.opens
  rw [List.drop_zero] at hopens
  constructor
  · intro c hc
    rw [hopens] at hc
    cases hc
    decide
  · intro c hc
    rw [List.getLast?_append_of_ne_nil _ htext.ne_nil] at hc
    exact htext.last c hc

end Text

structure CommentLine (width : Nat) where
  indent : Text
  introducer : Text
  body : Text
  trailing : Text
  indent_blank : indent.Blank
  introducer_opens : introducer.Introducer width
  body_rule : body.RuleText
  trailing_blank : trailing.Blank

namespace CommentLine

variable {width : Nat}

def text (line : CommentLine width) : Text :=
  line.indent ++ (line.introducer ++ line.body ++ line.trailing)

theorem unbroken_text (line : CommentLine width) : line.text.Unbroken := by
  simp only [text, Text.unbroken_append]
  exact ⟨line.indent_blank.unbroken,
    ⟨line.introducer_opens.unbroken, line.body_rule.unbroken⟩, line.trailing_blank.unbroken⟩

theorem trim_text (line : CommentLine width) : line.text.trim = line.introducer ++ line.body := by
  rw [text, Text.trim_white_around line.indent_blank.white line.trailing_blank.white]
  exact (line.body_rule.trimmed_append line.introducer_opens).trim

theorem isRuleComment_text (line : CommentLine width) : line.text.isRuleComment := by
  obtain ⟨index, hstands⟩ := line.body_rule.delimited
  have hwidth := line.introducer_opens.opens.le_length
  have hannotated : Text.Annotated (line.introducer ++ line.body) :=
    ⟨0, line.introducer_opens.opens.append line.body, line.introducer.length + index, by omega,
      (Text.delimiterAt_append_right line.introducer line.body index).mpr hstands⟩
  exact line.unbroken_text.isRuleComment_iff.mpr
    ((hannotated.append line.trailing).append_left line.indent)

theorem ofLine?_text (line : CommentLine width) (lineNumber : Nat) :
    Rule.ofLine? width lineNumber line.text = Rule.ofText? lineNumber line.body := by
  rw [Rule.ofLine?, if_pos line.isRuleComment_text, line.trim_text,
    List.drop_left' line.introducer_opens.length]

def source (ended : List (CommentLine width × Break)) (last : Option (CommentLine width)) : Text :=
  Text.joinLines (ended.map (Prod.map text id)) ++ last.elim [] text

theorem text_ne_nil (line : CommentLine width) : line.text ≠ [] := by
  simp [text, line.body_rule.ne_nil]

theorem lines_source (ended : List (CommentLine width × Break))
    (last : Option (CommentLine width)) :
    (source ended last).lines = (ended.map (·.1) ++ last.toList).map text := by
  have hended : ∀ line ∈ ended.map (Prod.map text id),
      Text.Unbroken line.1 ∧ line.1 ≠ [] := by
    intro line hline
    obtain ⟨⟨carried, br⟩, _, rfl⟩ := List.mem_map.mp hline
    exact ⟨carried.unbroken_text, carried.text_ne_nil⟩
  have hmap : (ended.map (Prod.map text id)).map (·.1) = (ended.map (·.1)).map text := by
    rw [List.map_map, List.map_map]
    rfl
  cases last with
  | none =>
      have hempty : ([] : Text).head? ≠ some '\n' := by simp
      rw [source, Option.elim_none, Text.lines_joinLines_append hended hempty, hmap]
      simp
  | some last =>
      rw [source, Option.elim_some,
        Text.lines_joinLines_append hended last.unbroken_text.head?_ne,
        last.unbroken_text.lines_eq last.text_ne_nil, hmap]
      simp

end CommentLine

theorem Rule.map_some_ofLines {prefixWidth : Nat} {lines : List Text}
    (hrules : ∀ lineNumber, ∀ line ∈ lines, (ofLine? prefixWidth lineNumber line).isSome) :
    (ofLines prefixWidth lines).map some =
      (lines.zipIdx 1).map fun line => ofLine? prefixWidth line.2 line.1 := by
  rw [ofLines, List.map_filterMap, ← List.filterMap_eq_map]
  refine List.filterMap_congr fun line hline => ?_
  obtain ⟨rule, hrule⟩ := Option.isSome_iff_exists.mp
    (hrules line.2 line.1 (List.fst_mem_of_mem_zipIdx hline))
  simp [hrule]

theorem CommentLine.rules_source {width : Nat} (ended : List (CommentLine width × Break))
    (last : Option (CommentLine width)) :
    ((source ended last).rules width).map some =
      ((ended.map (·.1) ++ last.toList).zipIdx 1).map fun line =>
        Rule.ofText? line.2 line.1.body := by
  have hrules : ∀ lineNumber, ∀ line ∈ (ended.map (·.1) ++ last.toList).map text,
      (Rule.ofLine? width lineNumber line).isSome := by
    intro lineNumber line hline
    obtain ⟨carried, _, rfl⟩ := List.mem_map.mp hline
    rw [carried.ofLine?_text, Rule.ofText?_isSome_iff]
    exact carried.body_rule.delimited
  rw [Text.rules, lines_source, Rule.map_some_ofLines hrules, List.zipIdx_map, List.map_map]
  refine List.map_congr_left fun line _ => ?_
  exact line.1.ofLine?_text line.2

-- The end of the introducer and the start of the text make up a delimiter that is no part of it.
example : Text.rules "\t// ::= a ::= b \r".toList 4 = [⟨1, ":= a ::= b".toList, 5, 5⟩] := by
  decide

namespace Text

theorem White.length_le {before after : Text} (hwhite : before.White) {index : Nat} {c : Char}
    (hstands : (before ++ after)[index]? = some c) (hblack : ¬ isWhite c) :
    before.length ≤ index := by
  by_contra hlt
  rw [List.getElem?_append_left (Nat.lt_of_not_le hlt)] at hstands
  exact hblack (hwhite c (List.mem_of_getElem? hstands))

theorem White.lt_length {before after : Text} (hwhite : after.White) {index : Nat} {c : Char}
    (hstands : (before ++ after)[index]? = some c) (hblack : ¬ isWhite c) :
    index < before.length := by
  by_contra hle
  rw [List.getElem?_append_right (Nat.le_of_not_lt hle)] at hstands
  exact hblack (hwhite c (List.mem_of_getElem? hstands))

theorem Annotated.of_white_append {before text : Text} (hwhite : before.White)
    (hannotated : Annotated (before ++ text)) : text.Annotated := by
  obtain ⟨index, hopens, later, hlater, hstands⟩ := hannotated
  have hle := hwhite.length_le (commentAt_iff_getElem?.mp hopens).1 (by decide)
  obtain ⟨place, rfl⟩ := Nat.exists_eq_add_of_le hle
  obtain ⟨farther, rfl⟩ := Nat.exists_eq_add_of_le (show before.length ≤ later by omega)
  exact ⟨place, (commentAt_append_right before text place).mp hopens, farther, by omega,
    (delimiterAt_append_right before text farther).mp hstands⟩

theorem Annotated.of_append_white {text after : Text} (hwhite : after.White)
    (hannotated : Annotated (text ++ after)) : text.Annotated := by
  obtain ⟨index, hopens, later, hlater, hstands⟩ := hannotated
  have hplaces := delimiterAt_iff_getElem?.mp hstands
  have hlt := hwhite.lt_length hplaces.2.2 (by decide)
  refine ⟨index, ?_, later, hlater, ?_⟩
  · have hopens := commentAt_iff_getElem?.mp hopens
    rw [commentAt_iff_getElem?]
    simpa only [List.getElem?_append_left (show index < text.length by omega),
      List.getElem?_append_left (show index + 1 < text.length by omega),
      List.getElem?_append_left (show index + 2 < text.length by omega)] using hopens
  · rw [delimiterAt_iff_getElem?]
    simpa only [List.getElem?_append_left (show later < text.length by omega),
      List.getElem?_append_left (show later + 1 < text.length by omega),
      List.getElem?_append_left hlt] using hplaces

theorem Annotated.trim {text : Text} (hannotated : text.Annotated) : text.trim.Annotated := by
  obtain ⟨_, before, after, hbefore, hafter, heq⟩ := trimsTo_iff.mpr (Eq.refl text.trim)
  rw [heq] at hannotated
  exact (hannotated.of_white_append hbefore).of_append_white hafter

theorem Unbroken.trim {line : Text} (hunbroken : line.Unbroken) : line.trim.Unbroken := by
  obtain ⟨_, before, after, _, _, heq⟩ := trimsTo_iff.mpr (Eq.refl line.trim)
  rw [heq, unbroken_append, unbroken_append] at hunbroken
  exact hunbroken.2.1

theorem blank_replicate (count : Nat) : Blank (List.replicate count ' ') := by
  constructor
  · intro c hc
    rw [List.eq_of_mem_replicate hc]
    decide
  · exact unbroken_replicate (by decide) count

theorem ruleText_of_mem_rules {source : Text} {prefixWidth : Nat} {rule : Rule}
    (hrule : rule ∈ source.rules prefixWidth) : rule.text.RuleText := by
  obtain ⟨line, _, hplace, _, hlifted⟩ := exists_line_of_mem_rules hrule
  have hunbroken := unbroken_of_mem_lines (List.mem_of_getElem? hplace)
  refine ⟨⟨rule.column, (genuine_of_mem_rules hrule).firstDelimiter.holds⟩, ?_, ?_⟩
  · rw [hlifted.text]
    exact fun c hc => hunbroken.trim c (List.mem_of_mem_drop hc)
  · intro c hc
    rw [hlifted.text, List.getLast?_drop] at hc
    split at hc
    · cases hc
    · exact (trimmed_trim line).last c hc

theorem trimmed_of_mem_rules {source : Text} {rule : Rule} (hrule : rule ∈ source.rules 0) :
    rule.text.Trimmed ∧ rule.text.Annotated := by
  obtain ⟨line, _, _, hholds, hlifted⟩ := exists_line_of_mem_rules hrule
  have hannotated : line.Annotated := hholds.delimited
  rw [hlifted.text, List.drop_zero]
  exact ⟨trimmed_trim line, hannotated.trim⟩

end Text

namespace Rule.Genuine

variable {rule : Rule}

/-- Spaces before the first delimiter go before a comment or between its start and the
delimiter. -/
theorem annotated_aligned (hgenuine : rule.Genuine) {column : Nat}
    (hle : rule.column ≤ column) (hannotated : rule.text.Annotated) :
    (rule.aligned column).Annotated := by
  obtain ⟨index, hopens, later, hlater, hstands⟩ := hannotated
  have hcolon := (Text.delimiterAt_iff_getElem?.mp hgenuine.firstDelimiter.holds).1
  obtain ⟨hfirst, hsecond, white, hwhite, hthird⟩ := Text.commentAt_iff_getElem?.mp hopens
  by_cases hbefore : index < rule.column
  · -- The white character too stands before the first delimiter, and the spaces come behind it.
    have hbehind : index + 2 < rule.column := by
      have hnotSecond : rule.column ≠ index + 1 := by
        intro heq
        rw [heq, hsecond] at hcolon
        exact absurd hcolon (by decide)
      have hnotThird : rule.column ≠ index + 2 := by
        intro heq
        rw [heq, hthird] at hcolon
        cases hcolon
        exact absurd hwhite (by decide)
      omega
    have hkept : Text.CommentAt (rule.text.take rule.column) index := by
      rw [Text.commentAt_iff_getElem?]
      simp only [List.getElem?_take, if_pos (show index < rule.column by omega),
        if_pos (show index + 1 < rule.column by omega), if_pos hbehind]
      exact ⟨hfirst, hsecond, white, hwhite, hthird⟩
    exact ⟨index, hkept.append _, column, by omega, (hgenuine.firstDelimiter_aligned hle).holds⟩
  · -- The comment stands behind the first delimiter and moves with it.
    obtain ⟨place, rfl⟩ := Nat.exists_eq_add_of_le (Nat.le_of_not_lt hbefore)
    obtain ⟨farther, rfl⟩ := Nat.exists_eq_add_of_le (show rule.column ≤ later by omega)
    have hmoved : Text.Annotated (rule.text.drop rule.column) :=
      ⟨place, (Text.commentAt_drop rule.text rule.column place).mpr hopens, farther, by omega,
        (Text.delimiterAt_drop rule.text rule.column farther).mpr hstands⟩
    exact (hmoved.append_left _).append_left _

theorem getLast?_aligned (hgenuine : rule.Genuine) (column : Nat) :
    (rule.aligned column).getLast? = rule.text.getLast? := by
  have hdelimited : Text.DelimiterAt rule.text rule.column := hgenuine.firstDelimiter.holds
  have hne : rule.text.drop rule.column ≠ [] := by
    intro hempty
    rw [Text.DelimiterAt, hempty] at hdelimited
    exact absurd (List.prefix_nil.mp hdelimited) (by decide)
  have htext : (rule.text.take rule.column ++ rule.text.drop rule.column).getLast? =
      (rule.text.drop rule.column).getLast? :=
    List.getLast?_append_of_ne_nil _ hne
  rw [List.take_append_drop] at htext
  rw [aligned, List.getLast?_append_of_ne_nil _ (List.append_ne_nil_of_right_ne_nil _ hne),
    List.getLast?_append_of_ne_nil _ hne, htext]

theorem ruleText_aligned (hgenuine : rule.Genuine) {column : Nat} (hle : rule.column ≤ column)
    (htext : rule.text.RuleText) : (rule.aligned column).RuleText := by
  refine ⟨⟨column, (hgenuine.firstDelimiter_aligned hle).holds⟩, ?_, ?_⟩
  · have hunbroken := htext.unbroken
    rw [← List.take_append_drop rule.column rule.text, Text.unbroken_append] at hunbroken
    rw [aligned, Text.unbroken_append, Text.unbroken_append]
    exact ⟨hunbroken.1, (Text.blank_replicate _).unbroken, hunbroken.2⟩
  · rw [hgenuine.getLast?_aligned]
    exact htext.last

theorem trimmed_aligned (hgenuine : rule.Genuine) (hinside : rule.column ≠ 0)
    (htrimmed : rule.text.Trimmed) (column : Nat) : (rule.aligned column).Trimmed := by
  constructor
  · have hhead : (rule.text.take rule.column).head? = rule.text.head? := by
      rw [List.head?_take, if_neg hinside]
    have hne : rule.text.take rule.column ≠ [] := by
      rw [← List.length_pos_iff, hgenuine.length_take_column]
      exact Nat.pos_of_ne_zero hinside
    rw [aligned, List.head?_append_of_ne_nil _ hne, hhead]
    exact htrimmed.head
  · rw [hgenuine.getLast?_aligned]
    exact htrimmed.last

end Rule.Genuine

end GrammarListing
