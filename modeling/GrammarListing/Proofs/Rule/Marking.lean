import GrammarListing.Proofs.Alignment
namespace GrammarListing

/-! Rules with a mark of any kind.  Nothing ties the mark of a rule given by hand to its text or to
its column.  Such a rule is aligned if its mark is a place of the text, and is then padded at that
place by what its own column lacks to the common one. -/

namespace Text

def InsideCharacter (text : Text) (offset : Nat) : Prop :=
  ∃ (before : Text) (c : Char) (after : Text), text = before ++ c :: after ∧
    before.encode.length < offset ∧ offset < (before ++ [c]).encode.length

theorem not_insideCharacter_nil (offset : Nat) : ¬ InsideCharacter [] offset := by
  rintro ⟨before, c, after, hnil, _⟩
  exact absurd hnil.symm (List.append_ne_nil_of_right_ne_nil before (List.cons_ne_nil c after))

theorem insideCharacter_cons_iff {c : Char} {text : Text} {offset : Nat} :
    InsideCharacter (c :: text) offset ↔
      (0 < offset ∧ offset < c.utf8Size) ∨
        (c.utf8Size ≤ offset ∧ text.InsideCharacter (offset - c.utf8Size)) := by
  simp only [InsideCharacter, length_encode, byteLength_append, byteLength_cons, byteLength_nil]
  constructor
  · rintro ⟨before, d, after, htext, hlow, hhigh⟩
    cases before with
    | nil =>
        cases htext
        exact .inl ⟨hlow, by rwa [byteLength_nil, Nat.zero_add] at hhigh⟩
    | cons first before =>
        cases htext
        rw [byteLength_cons] at hlow hhigh
        exact .inr ⟨by omega, before, d, after, rfl, by omega, by omega⟩
  · rintro (⟨hlow, hhigh⟩ | ⟨hle, before, d, after, rfl, hlow, hhigh⟩)
    · exact ⟨[], c, text, rfl, hlow, by rwa [byteLength_nil, Nat.zero_add]⟩
    · refine ⟨c :: before, d, after, rfl, ?_, ?_⟩
      · rw [byteLength_cons]
        omega
      · rw [byteLength_cons]
        omega

theorem indexAtFrom?_eq_none_iff {start offset : Nat} {text : Text} :
    text.indexAtFrom? start offset = none ↔
      text.byteLength < offset ∨ text.InsideCharacter offset := by
  induction text generalizing start offset with
  | nil =>
      rw [indexAtFrom?, or_iff_left (not_insideCharacter_nil offset), byteLength_nil]
      split
      · next hzero => simp [hzero]
      · next hpos => exact iff_of_true rfl (Nat.pos_of_ne_zero hpos)
  | cons c text ih =>
      have hsize := c.utf8Size_pos
      rw [indexAtFrom?, insideCharacter_cons_iff, byteLength_cons]
      split
      · next hzero =>
          subst hzero
          refine iff_of_false (Option.some_ne_none start) ?_
          rintro (hpast | ⟨hlow, _⟩ | ⟨hle, _⟩)
          · exact absurd hpast (Nat.not_lt_zero _)
          · exact absurd hlow (Nat.lt_irrefl 0)
          · omega
      split
      · next hpos hinside =>
          exact iff_of_true rfl (.inr (.inl ⟨Nat.pos_of_ne_zero hpos, hinside⟩))
      · next hbehind =>
          rw [ih]
          constructor
          · rintro (hpast | hinside)
            · exact .inl (by omega)
            · exact .inr (.inr ⟨Nat.le_of_not_lt hbehind, hinside⟩)
          · rintro (hpast | ⟨_, hinside⟩ | ⟨_, hinside⟩)
            · exact .inl (by omega)
            · exact absurd hinside hbehind
            · exact .inr hinside

theorem splitAtByte?_eq_none_iff {text : Text} {offset : Nat} :
    text.splitAtByte? offset = none ↔
      text.encode.length < offset ∨ text.InsideCharacter offset := by
  rw [splitAtByte?, Option.map_eq_none_iff, indexAt?, indexAtFrom?_eq_none_iff, length_encode]

end Text

namespace Rule

def Astray (rule : Rule) : Prop :=
  rule.text.encode.length < rule.offset ∨ rule.text.InsideCharacter rule.offset

/-- A rule's text with spaces at its mark, as many as its own column lacks to another. -/
def PaddedAtMark (rule : Rule) (column : Nat) (line : Text) : Prop :=
  ∃ head tail : Text, rule.text = head ++ tail ∧ rule.offset = head.encode.length ∧
    line = head ++ (List.replicate (column - rule.column) ' ' ++ tail)

theorem align?_eq_none_iff {rule : Rule} {column : Nat} :
    rule.align? column = none ↔ rule.Astray := by
  rw [align?, Option.map_eq_none_iff, sides?, Text.splitAtByte?_eq_none_iff, Astray]

theorem align?_eq_some_iff {rule : Rule} {column : Nat} {line : Text} :
    rule.align? column = some line ↔ rule.PaddedAtMark column line := by
  rw [align?, Option.map_eq_some_iff]
  constructor
  · rintro ⟨⟨head, tail⟩, hsides, rfl⟩
    obtain ⟨htext, hoffset⟩ := Text.splitAtByte?_eq_some_iff.mp hsides
    refine ⟨head, tail, htext, hoffset, ?_⟩
    rw [Text.pushSpaces_eq, List.append_assoc]
    rfl
  · rintro ⟨head, tail, htext, hoffset, rfl⟩
    refine ⟨(head, tail), Text.splitAtByte?_eq_some_iff.mpr ⟨htext, hoffset⟩, ?_⟩
    rw [Text.pushSpaces_eq, List.append_assoc]
    rfl

theorem alignAll?_cons (rule : Rule) (rules : List Rule) (column : Nat) :
    alignAll? (rule :: rules) column =
      (rule.align? column).bind fun line => (alignAll? rules column).map (line :: ·) := by
  rw [alignAll?, List.mapM_cons, alignAll?]
  cases rule.align? column with
  | none => rfl
  | some line => cases rules.mapM (·.align? column) <;> rfl

theorem alignAll?_eq_none_iff {rules : List Rule} {column : Nat} :
    alignAll? rules column = none ↔ ∃ rule ∈ rules, rule.Astray := by
  induction rules with
  | nil => simp [alignAll?]
  | cons rule rules ih =>
      rw [alignAll?_cons, List.exists_mem_cons_iff, ← ih, ← @align?_eq_none_iff rule column]
      cases rule.align? column with
      | none => simp
      | some line => simp

theorem alignAll?_eq_some_iff {rules : List Rule} {column : Nat} {lines : List Text} :
    alignAll? rules column = some lines ↔
      List.Forall₂ (fun rule line => rule.PaddedAtMark column line) rules lines := by
  induction rules generalizing lines with
  | nil => simp [alignAll?, eq_comm]
  | cons rule rules ih =>
      simp only [alignAll?_cons, Option.bind_eq_some_iff, Option.map_eq_some_iff, ih,
        List.forall₂_cons_left_iff, align?_eq_some_iff]
      constructor
      · rintro ⟨line, hline, later, hlater, rfl⟩
        exact ⟨line, later, hline, hlater, rfl⟩
      · rintro ⟨line, later, hline, hlater, rfl⟩
        exact ⟨line, hline, later, hlater, rfl⟩

theorem alignHeld?_of_fits {rules : List Rule} {column : Nat}
    (hfits : ∀ rule ∈ rules, rule.fits column) :
    alignHeld? rules column = alignAll? rules column :=
  if_pos (List.all_eq_true.mpr hfits)

theorem PaddedAtMark.eq_text {rule : Rule} {column : Nat} {line : Text}
    (hpadded : rule.PaddedAtMark column line) (hle : column ≤ rule.column) :
    line = rule.text := by
  obtain ⟨head, tail, htext, _, rfl⟩ := hpadded
  rw [htext, Nat.sub_eq_zero_of_le hle, List.replicate_zero, List.nil_append]

theorem PaddedAtMark.firstDelimiter {rule : Rule} {column : Nat} {line : Text}
    (hpadded : rule.PaddedAtMark column line) (hgenuine : rule.Genuine) :
    line.FirstDelimiter (max column rule.column) := by
  by_cases hle : column ≤ rule.column
  · rw [hpadded.eq_text hle, Nat.max_eq_right hle]
    exact hgenuine.firstDelimiter
  · have hreached := Nat.le_of_not_le hle
    have hline := align?_eq_some_iff.mpr hpadded
    rw [hgenuine.align?, Option.some.injEq] at hline
    rw [← hline, Nat.max_eq_left hreached]
    exact hgenuine.firstDelimiter_aligned hreached

structure AlignedByMark (rule : Rule) (column : Nat) (line : Text) : Prop where
  padded : rule.PaddedAtMark column line
  delimited : rule.Genuine → line.FirstDelimiter (max column rule.column)
  kept : column ≤ rule.column → line = rule.text

theorem exists_alignAll? {rules : List Rule} (hplaced : ∀ rule ∈ rules, ¬ rule.Astray)
    (column : Nat) :
    ∃ lines, alignAll? rules column = some lines ∧
      List.Forall₂ (fun rule line => rule.AlignedByMark column line) rules lines := by
  cases hlines : alignAll? rules column with
  | none =>
      obtain ⟨rule, hrule, hastray⟩ := alignAll?_eq_none_iff.mp hlines
      exact absurd hastray (hplaced rule hrule)
  | some lines =>
      refine ⟨lines, rfl, (alignAll?_eq_some_iff.mp hlines).imp fun rule line hpadded => ?_⟩
      exact ⟨hpadded, hpadded.firstDelimiter, hpadded.eq_text⟩

theorem alignment_by_mark {rules others : List Rule}
    (hheld : ∀ rule ∈ rules ++ others, rule.fits (commonColumn rules)) :
    (rules = [] → commonColumn rules = 0) ∧
    (rules ≠ [] → IsGreatest {column | ∃ rule ∈ rules, rule.column = column}
      (commonColumn rules)) ∧
    (alignHeld? rules (commonColumn rules) = none ↔ ∃ rule ∈ rules, rule.Astray) ∧
    (alignHeld? others (commonColumn rules) = none ↔ ∃ rule ∈ others, rule.Astray) ∧
    ((∀ rule ∈ rules ++ others, ¬ rule.Astray) → ∃ lines otherLines,
      alignHeld? rules (commonColumn rules) = some lines ∧
      alignHeld? others (commonColumn rules) = some otherLines ∧
      List.Forall₂ (fun rule line => rule.AlignedByMark (commonColumn rules) line)
        rules lines ∧
      List.Forall₂ (fun rule line => rule.AlignedByMark (commonColumn rules) line)
        others otherLines) := by
  obtain ⟨hrules, hothers⟩ := List.forall_mem_append.mp hheld
  rw [alignHeld?_of_fits hrules, alignHeld?_of_fits hothers]
  refine ⟨?_, fun hne => ⟨exists_column_eq_commonColumn hne, ?_⟩, alignAll?_eq_none_iff,
    alignAll?_eq_none_iff, fun hplaced => ?_⟩
  · rintro rfl
    rfl
  · rintro column ⟨rule, hrule, rfl⟩
    exact le_commonColumn hrule
  · obtain ⟨hplacedRules, hplacedOthers⟩ := List.forall_mem_append.mp hplaced
    obtain ⟨lines, hlines, haligned⟩ := exists_alignAll? hplacedRules (commonColumn rules)
    obtain ⟨otherLines, hotherLines, hotherAligned⟩ :=
      exists_alignAll? hplacedOthers (commonColumn rules)
    exact ⟨lines, otherLines, hlines, hotherLines, haligned, hotherAligned⟩

/-- The columns given by hand are not those of the marks, a rule that was not measured is wider
than the common column, and an offset inside a character is no place. -/
theorem alignment_by_mark_unrelated :
    alignHeld? [⟨1, "é::= a".toList, 2, 4⟩, ⟨2, "xyz".toList, 3, 1⟩] 4 =
      some ["é::= a".toList, "xyz   ".toList] ∧
    (∃ otherLines, alignHeld? [⟨9, "abcde ::= ::=".toList, 6, 6⟩] 4 = some otherLines ∧
      List.Forall₂ (fun (rule : Rule) line => rule.AlignedByMark 4 line)
        [⟨9, "abcde ::= ::=".toList, 6, 6⟩] otherLines) ∧
    alignHeld? [⟨1, "é::= a".toList, 1, 4⟩] 4 = none ∧
    IsGreatest {column | ∃ rule ∈ [(⟨1, "é::= a".toList, 1, 4⟩ : Rule)], rule.column = column}
      4 := by
  obtain ⟨_, _, _, _, hplaced⟩ := @alignment_by_mark
    [⟨1, "é::= a".toList, 2, 4⟩, ⟨2, "xyz".toList, 3, 1⟩]
    [⟨9, "abcde ::= ::=".toList, 6, 6⟩] (by decide)
  have hfound : ∀ rule ∈ [(⟨1, "é::= a".toList, 2, 4⟩ : Rule), ⟨2, "xyz".toList, 3, 1⟩] ++
      [⟨9, "abcde ::= ::=".toList, 6, 6⟩], ¬ rule.Astray := by
    simp only [← @align?_eq_none_iff _ 4]
    decide
  obtain ⟨lines, otherLines, hlines, hotherLines, haligned, hotherAligned⟩ := hplaced hfound
  obtain ⟨_, hgreatest, hnone, _, _⟩ := @alignment_by_mark
    [⟨1, "é::= a".toList, 1, 4⟩] [] (by decide)
  refine ⟨hlines.trans (congrArg some ?_), ⟨otherLines, hotherLines, hotherAligned⟩, ?_,
    hgreatest (by simp)⟩
  · have hpadded : List.Forall₂ (fun (rule : Rule) line => rule.PaddedAtMark 4 line)
        [⟨1, "é::= a".toList, 2, 4⟩, ⟨2, "xyz".toList, 3, 1⟩]
        ["é::= a".toList, "xyz   ".toList] :=
      .cons ⟨"é".toList, "::= a".toList, by decide, by decide, by decide⟩
        (.cons ⟨"xyz".toList, [], by decide, by decide, by decide⟩ .nil)
    have hfirst := alignAll?_eq_some_iff.mpr (haligned.imp fun _ _ hline => hline.padded)
    exact Option.some.inj (hfirst.symm.trans (alignAll?_eq_some_iff.mpr hpadded))
  · refine hnone.mpr ⟨_, List.mem_cons_self, .inr ⟨[], 'é', "::= a".toList, by decide, ?_, ?_⟩⟩
    · decide
    · decide

end Rule

end GrammarListing
