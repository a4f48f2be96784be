import GrammarListing.Proofs.Text.Lines
import GrammarListing.Proofs.Text.Search
import Mathlib.Data.List.Forall2
namespace GrammarListing

namespace Text

def CommentAt (text : Text) (index : Nat) : Prop :=
  ∃ white, isWhite white ∧ ['/', '/', white] <+: text.drop index

/-- A comment opens at a character index, and behind its white character there is a delimiter and
no line feed. -/
structure RuleCommentAt (text : Text) (index : Nat) : Prop where
  opens : text.CommentAt index
  delimited : ∃ later ≥ index + 3, text.DelimiterAt later
  unended : ∀ later ≥ index + 3, text[later]? ≠ some '\n'

theorem commentAt_iff {text : Text} {index : Nat} :
    text.CommentAt index ↔
      ∃ white body, isWhite white ∧ text.drop index = '/' :: '/' :: white :: body := by
  simp only [CommentAt, List.prefix_iff_exists_eq_append, List.cons_append, List.nil_append]
  exact exists_congr fun white => exists_and_left.symm

theorem commentAt_iff_getElem? {text : Text} {index : Nat} :
    text.CommentAt index ↔
      text[index]? = some '/' ∧ text[index + 1]? = some '/' ∧
        ∃ white, isWhite white ∧ text[index + 2]? = some white := by
  simp only [CommentAt, List.prefix_iff_getElem?, List.getElem?_drop]
  constructor
  · rintro ⟨white, hwhite, hstands⟩
    exact ⟨hstands 0 (by simp), hstands 1 (by simp), white, hwhite, hstands 2 (by simp)⟩
  · rintro ⟨hfirst, hsecond, white, hwhite, hthird⟩
    refine ⟨white, hwhite, fun place hplace => ?_⟩
    match place, hplace with
    | 0, _ => exact hfirst
    | 1, _ => exact hsecond
    | 2, _ => exact hthird

theorem commentAt_drop (text : Text) (count index : Nat) :
    CommentAt (text.drop count) index ↔ text.CommentAt (count + index) := by
  rw [CommentAt, CommentAt, List.drop_drop]

theorem commentAt_append_right (before after : Text) (index : Nat) :
    CommentAt (before ++ after) (before.length + index) ↔ after.CommentAt index := by
  rw [← commentAt_drop, List.drop_left]

theorem CommentAt.append {text : Text} {index : Nat} (hopens : text.CommentAt index)
    (after : Text) : CommentAt (text ++ after) index := by
  obtain ⟨white, hwhite, hstands⟩ := hopens
  refine ⟨white, hwhite, ?_⟩
  rw [List.drop_append]
  exact hstands.trans (List.prefix_append _ _)

theorem CommentAt.le_length {text : Text} {index : Nat} (hopens : text.CommentAt index) :
    index + 3 ≤ text.length := by
  obtain ⟨_, _, white, _, hthird⟩ := commentAt_iff_getElem?.mp hopens
  obtain ⟨hlt, _⟩ := List.getElem?_eq_some_iff.mp hthird
  exact hlt

def Annotated (text : Text) : Prop :=
  ∃ index, text.CommentAt index ∧ ∃ later ≥ index + 3, text.DelimiterAt later

theorem Annotated.append {text : Text} (hannotated : text.Annotated) (after : Text) :
    Annotated (text ++ after) := by
  obtain ⟨index, hopens, later, hlater, hstands⟩ := hannotated
  exact ⟨index, hopens.append after, later, hlater, hstands.append after⟩

theorem Annotated.append_left {text : Text} (hannotated : text.Annotated) (before : Text) :
    Annotated (before ++ text) := by
  obtain ⟨index, hopens, later, hlater, hstands⟩ := hannotated
  exact ⟨before.length + index, (commentAt_append_right before text index).mpr hopens,
    before.length + later, by omega, (delimiterAt_append_right before text later).mpr hstands⟩

theorem not_mem_drop_iff {text : Text} {c : Char} {count : Nat} :
    c ∉ text.drop count ↔ ∀ later ≥ count, text[later]? ≠ some c := by
  simp only [List.mem_iff_getElem?, List.getElem?_drop, not_exists]
  constructor
  · intro habsent later hle
    have hlater := habsent (later - count)
    rwa [Nat.add_sub_cancel' hle] at hlater
  · exact fun habsent index => habsent (count + index) (Nat.le_add_right _ _)

theorem opensRuleComment_iff {text : Text} :
    text.opensRuleComment ↔
      ∃ white body, isWhite white ∧ text = '/' :: '/' :: white :: body ∧
        (∃ index, DelimiterAt body index) ∧ '\n' ∉ body := by
  unfold opensRuleComment
  split
  · next white body =>
      simp only [Bool.and_eq_true, Bool.not_eq_true', List.contains_eq_mem, decide_eq_false_iff_not,
        delimiterColumn?_isSome_iff]
      constructor
      · rintro ⟨⟨hwhite, hline⟩, hdelimiter⟩
        exact ⟨white, body, hwhite, rfl, hdelimiter, hline⟩
      · rintro ⟨_, _, hwhite, heq, hdelimiter, hline⟩
        cases heq
        exact ⟨⟨hwhite, hline⟩, hdelimiter⟩
  · next hother =>
      constructor
      · intro hfalse
        cases hfalse
      · rintro ⟨white, body, _, rfl, _⟩
        exact absurd rfl (hother white body)

theorem eq_drop_of_drop_eq {text body : Text} {index : Nat} {white : Char}
    (hdrop : text.drop index = '/' :: '/' :: white :: body) : body = text.drop (index + 3) := by
  rw [← List.drop_drop, hdrop]
  rfl

theorem opensRuleComment_drop_iff {text : Text} {index : Nat} :
    opensRuleComment (text.drop index) ↔ text.RuleCommentAt index := by
  rw [opensRuleComment_iff]
  constructor
  · rintro ⟨white, body, hwhite, hdrop, hdelimiter, hline⟩
    rw [eq_drop_of_drop_eq hdrop] at hdelimiter hline
    exact ⟨commentAt_iff.mpr ⟨white, body, hwhite, hdrop⟩,
      exists_delimiterAt_drop_iff.mp hdelimiter, not_mem_drop_iff.mp hline⟩
  · rintro ⟨hopens, hdelimited, hunended⟩
    obtain ⟨white, body, hwhite, hdrop⟩ := commentAt_iff.mp hopens
    refine ⟨white, body, hwhite, hdrop, ?_⟩
    rw [eq_drop_of_drop_eq hdrop]
    exact ⟨exists_delimiterAt_drop_iff.mpr hdelimited, not_mem_drop_iff.mpr hunended⟩

theorem countsOn_ruleCommentIndexFrom? :
    CountsOn ruleCommentIndexFrom? (·.opensRuleComment) where
  absent := by simp [opensRuleComment]
  nil := fun _ => rfl
  stop := by
    intro start c text hfound
    rw [ruleCommentIndexFrom?, if_pos hfound]
  step := by
    intro start c text habsent
    rw [ruleCommentIndexFrom?, if_neg habsent]

theorem isRuleComment_iff {text : Text} :
    text.isRuleComment ↔ ∃ index, text.RuleCommentAt index := by
  rw [isRuleComment, ruleCommentIndex?, countsOn_ruleCommentIndexFrom?.isSome_iff]
  exact exists_congr fun _ => opensRuleComment_drop_iff

theorem isRuleComment_iff_annotated {text : Text} (hline : '\n' ∉ text) :
    text.isRuleComment ↔ text.Annotated := by
  rw [isRuleComment_iff]
  constructor
  · rintro ⟨index, hopens, hdelimited, _⟩
    exact ⟨index, hopens, hdelimited⟩
  · rintro ⟨index, hopens, hdelimited⟩
    exact ⟨index, hopens, hdelimited, fun later _ hlater => hline (List.mem_of_getElem? hlater)⟩

end Text

/-! Genuine rules.  The byte offset of a genuine rule's mark is the length of what stands before
its column, so the mark is a place and the two sides are the text cut there. -/

namespace Text

@[simp] theorem length_encode (text : Text) : text.encode.length = text.byteLength := by
  induction text with
  | nil => rfl
  | cons c text ih => simp [ih]

theorem length_le_byteLength (text : Text) : text.length ≤ text.byteLength := by
  induction text with
  | nil => exact Nat.le_refl 0
  | cons c text ih =>
      have hpos := c.utf8Size_pos
      rw [List.length_cons, byteLength_cons]
      omega

theorem encode_eq_nil_iff {text : Text} : text.encode = [] ↔ text = [] := by
  refine ⟨fun hencode => ?_, fun htext => by rw [htext, encode_nil]⟩
  have hlength := text.length_le_byteLength
  rw [← length_encode, hencode] at hlength
  exact List.length_eq_zero_iff.mp (Nat.le_zero.mp hlength)

theorem byteLength_replicate (count : Nat) (c : Char) :
    byteLength (List.replicate count c) = count * c.utf8Size := by
  induction count with
  | zero => simp
  | succ count ih =>
      rw [List.replicate_succ, byteLength_cons, ih, Nat.succ_mul]
      omega

theorem byteLength_append (first second : Text) :
    byteLength (first ++ second) = first.byteLength + second.byteLength := by
  rw [← length_encode, encode_append, List.length_append, length_encode, length_encode]

theorem indexAtFrom?_byteLength (index : Nat) (before after : Text) :
    indexAtFrom? index before.byteLength (before ++ after) = some (index + before.length) := by
  induction before generalizing index with
  | nil => cases after <;> simp [indexAtFrom?]
  | cons c before ih =>
      have hpos := c.utf8Size_pos
      have hplace : c.utf8Size + byteLength before ≠ 0 := by omega
      have hinside : ¬ c.utf8Size + byteLength before < c.utf8Size := by omega
      rw [List.cons_append, byteLength_cons, indexAtFrom?, if_neg hplace, if_neg hinside,
        Nat.add_sub_cancel_left, ih, List.length_cons]
      congr 1
      omega

theorem splitAtByte?_byteLength (before after : Text) :
    splitAtByte? (before ++ after) before.byteLength = some (before, after) := by
  rw [splitAtByte?, indexAt?, indexAtFrom?_byteLength]
  simp

theorem splitAtByte?_take (text : Text) (index : Nat) :
    text.splitAtByte? (byteLength (text.take index)) =
      some (text.take index, text.drop index) := by
  have hsplit := splitAtByte?_byteLength (text.take index) (text.drop index)
  rwa [List.take_append_drop] at hsplit

end Text

namespace Rule

theorem genuine_iff {rule : Rule} :
    rule.Genuine ↔
      rule.text.FirstDelimiter rule.column ∧
        rule.offset = Text.byteLength (rule.text.take rule.column) := by
  rw [Genuine, ofText?, Option.map_eq_some_iff]
  constructor
  · rintro ⟨column, hcolumn, hrule⟩
    have hcolumnEq : column = rule.column := congrArg Rule.column hrule
    subst hcolumnEq
    exact ⟨Text.delimiterColumn?_eq_some_iff.mp hcolumn, (congrArg Rule.offset hrule).symm⟩
  · rintro ⟨hfirst, hoffset⟩
    exact ⟨rule.column, Text.delimiterColumn?_eq_some_iff.mpr hfirst, by rw [← hoffset]⟩

theorem ofText?_eq_some_iff {lineNumber : Nat} {text : Text} {rule : Rule} :
    ofText? lineNumber text = some rule ↔
      rule.lineNumber = lineNumber ∧ rule.text = text ∧ rule.Genuine := by
  constructor
  · intro hrule
    have hgenuine := Genuine.of_ofText? hrule
    obtain ⟨column, _, rfl⟩ := Option.map_eq_some_iff.mp hrule
    exact ⟨rfl, rfl, hgenuine⟩
  · rintro ⟨rfl, rfl, hgenuine⟩
    exact hgenuine

theorem ofText?_isSome_iff {lineNumber : Nat} {text : Text} :
    (ofText? lineNumber text).isSome ↔ ∃ index, text.DelimiterAt index := by
  rw [ofText?, Option.isSome_map, Text.delimiterColumn?_isSome_iff]

theorem exists_ofText? {text : Text} {column : Nat} (hfirst : text.FirstDelimiter column)
    (lineNumber : Nat) :
    ∃ rule, ofText? lineNumber text = some rule ∧ rule.text = text ∧ rule.column = column := by
  rw [ofText?, Text.delimiterColumn?_eq_some_iff.mpr hfirst]
  exact ⟨_, rfl, rfl, rfl⟩

theorem Genuine.firstDelimiter {rule : Rule} (hgenuine : rule.Genuine) :
    rule.text.FirstDelimiter rule.column :=
  (genuine_iff.mp hgenuine).1

theorem Genuine.sides? {rule : Rule} (hgenuine : rule.Genuine) :
    rule.sides? = some (rule.text.take rule.column, rule.text.drop rule.column) := by
  rw [Rule.sides?, (genuine_iff.mp hgenuine).2, Text.splitAtByte?_take]

end Rule

/-- A comment opens in the line with a delimiter anywhere behind its white character, and a
delimiter is left when the trimmed line loses its first `prefixWidth` characters. -/
structure Text.HoldsRule (line : Text) (prefixWidth : Nat) : Prop where
  delimited : ∃ index, line.CommentAt index ∧ ∃ later ≥ index + 3, line.DelimiterAt later
  kept : ∃ index ≥ prefixWidth, line.trim.DelimiterAt index

theorem Text.Unbroken.isRuleComment_iff {line : Text} (hunbroken : line.Unbroken) :
    line.isRuleComment ↔
      ∃ index, line.CommentAt index ∧ ∃ later ≥ index + 3, line.DelimiterAt later :=
  Text.isRuleComment_iff_annotated fun hline => (hunbroken '\n' hline).2 rfl

namespace Rule

/-- The rule of a line: the trimmed line without its first `prefixWidth` characters, marked at the
first delimiter that is left. -/
structure LiftedFrom (rule : Rule) (prefixWidth lineNumber : Nat) (line : Text) : Prop where
  lineNumber : rule.lineNumber = lineNumber
  text : rule.text = line.trim.drop prefixWidth
  column : rule.text.FirstDelimiter rule.column
  offset : rule.offset = (Text.encode (rule.text.take rule.column)).length

theorem LiftedFrom.of_ofLine? {prefixWidth lineNumber : Nat} {line : Text} {rule : Rule}
    (hrule : ofLine? prefixWidth lineNumber line = some rule) :
    rule.LiftedFrom prefixWidth lineNumber line := by
  unfold ofLine? at hrule
  split at hrule
  · obtain ⟨hnumber, htext, hgenuine⟩ := ofText?_eq_some_iff.mp hrule
    obtain ⟨hfirst, hoffset⟩ := genuine_iff.mp hgenuine
    exact ⟨hnumber, htext, hfirst, by rw [hoffset, Text.length_encode]⟩
  · cases hrule

theorem LiftedFrom.genuine {rule : Rule} {prefixWidth lineNumber : Nat} {line : Text}
    (hlifted : rule.LiftedFrom prefixWidth lineNumber line) : rule.Genuine := by
  apply genuine_iff.mpr
  exact ⟨hlifted.column, by rw [hlifted.offset, Text.length_encode]⟩

theorem ofLine?_isSome_iff {prefixWidth lineNumber : Nat} {line : Text}
    (hunbroken : line.Unbroken) :
    (ofLine? prefixWidth lineNumber line).isSome ↔ line.HoldsRule prefixWidth := by
  unfold ofLine?
  split
  · next hcomment =>
      rw [ofText?_isSome_iff, Text.exists_delimiterAt_drop_iff]
      exact ⟨fun hkept => ⟨hunbroken.isRuleComment_iff.mp hcomment, hkept⟩, (·.kept)⟩
  · next hcomment =>
      simp only [Option.isSome_none, Bool.false_eq_true, false_iff]
      exact fun hholds => hcomment (hunbroken.isRuleComment_iff.mpr hholds.delimited)

open Classical in
private theorem forall₂_filterMap_filter {α β : Type} {related : β → α → Prop}
    {make : α → Option β} {kept : α → Prop} {items : List α}
    (hkept : ∀ item ∈ items, (make item).isSome ↔ kept item)
    (hrelated : ∀ item result, make item = some result → related result item) :
    List.Forall₂ related (items.filterMap make) (items.filter fun item => kept item) := by
  induction items with
  | nil => exact .nil
  | cons item items ih =>
      obtain ⟨hitem, hitems⟩ := List.forall_mem_cons.mp hkept
      cases hmake : make item with
      | none =>
          have hdropped : ¬ kept item := by simp [← hitem, hmake]
          rw [List.filterMap_cons_none hmake, List.filter_cons_of_neg (by simpa using hdropped)]
          exact ih hitems
      | some result =>
          have hheld : kept item := by simp [← hitem, hmake]
          rw [List.filterMap_cons_some hmake, List.filter_cons_of_pos (by simpa using hheld)]
          exact .cons (hrelated item result hmake) (ih hitems)

theorem pairwise_ofLines (prefixWidth : Nat) (lines : List Text) :
    (ofLines prefixWidth lines).Pairwise fun former latter =>
      former.lineNumber < latter.lineNumber := by
  have hnumbers : (lines.zipIdx 1).Pairwise fun former latter => former.2 < latter.2 := by
    rw [← List.pairwise_map (f := Prod.snd), List.zipIdx_map_snd]
    exact List.pairwise_lt_range'
  rw [ofLines, List.pairwise_filterMap]
  refine hnumbers.imp fun hlt former hformer latter hlatter => ?_
  rw [(LiftedFrom.of_ofLine? hformer).lineNumber, (LiftedFrom.of_ofLine? hlatter).lineNumber]
  exact hlt

end Rule

theorem Text.exists_line_of_mem_rules {source : Text} {prefixWidth : Nat} {rule : Rule}
    (hrule : rule ∈ source.rules prefixWidth) :
    ∃ line, 1 ≤ rule.lineNumber ∧ source.lines[rule.lineNumber - 1]? = some line ∧
      line.HoldsRule prefixWidth ∧ rule.LiftedFrom prefixWidth rule.lineNumber line := by
  obtain ⟨⟨line, lineNumber⟩, hline, hmade⟩ := List.mem_filterMap.mp hrule
  have hunbroken := unbroken_of_mem_lines (List.fst_mem_of_mem_zipIdx hline)
  have hholds := (Rule.ofLine?_isSome_iff hunbroken).mp (Option.isSome_of_eq_some hmade)
  have hlifted := Rule.LiftedFrom.of_ofLine? hmade
  obtain ⟨hfirst, hplace⟩ := List.mem_zipIdx_iff_le_and_getElem?_sub.mp hline
  rw [← hlifted.lineNumber] at hfirst hplace hlifted
  exact ⟨line, hfirst, hplace, hholds, hlifted⟩

open Classical in
theorem Text.forall₂_rules (source : Text) (prefixWidth : Nat) :
    List.Forall₂ (fun rule line => rule.LiftedFrom prefixWidth line.2 line.1)
      (source.rules prefixWidth)
      ((source.lines.zipIdx 1).filter fun line => line.1.HoldsRule prefixWidth) := by
  refine Rule.forall₂_filterMap_filter (fun line hline => ?_)
    fun line rule hrule => .of_ofLine? hrule
  exact Rule.ofLine?_isSome_iff (unbroken_of_mem_lines (List.fst_mem_of_mem_zipIdx hline))

open Classical in
theorem Text.rules_exact (source : Text) (prefixWidth : Nat) :
    (∀ lines, source.HasLines lines ↔ lines = source.lines) ∧
      (∀ line trimmed : Text, line.TrimsTo trimmed ↔ trimmed = line.trim) ∧
      List.Forall₂ (fun rule line => rule.LiftedFrom prefixWidth line.2 line.1)
        (source.rules prefixWidth)
        ((source.lines.zipIdx 1).filter fun line => line.1.HoldsRule prefixWidth) ∧
      (source.rules prefixWidth).Pairwise
        (fun former latter => former.lineNumber < latter.lineNumber) ∧
      ∀ rule ∈ source.rules prefixWidth,
        1 ≤ rule.lineNumber ∧ rule.lineNumber ≤ source.lines.length := by
  refine ⟨fun _ => hasLines_iff, fun _ _ => trimsTo_iff, ?_,
    Rule.pairwise_ofLines prefixWidth source.lines, ?_⟩
  · exact source.forall₂_rules prefixWidth
  · intro rule hrule
    obtain ⟨line, hline, hlifted⟩ := List.mem_filterMap.mp hrule
    rw [(Rule.LiftedFrom.of_ofLine? hlifted).lineNumber]
    have hbounds := List.mem_zipIdx hline
    omega

end GrammarListing
