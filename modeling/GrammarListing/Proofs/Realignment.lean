import GrammarListing.Proofs.Relisting
namespace GrammarListing.Rule

/-! Alignment composes.  The line of a rule hangs on the common column alone, and that is the same
for every list of the same rules.  A rule made from an aligned line stands at the column of that
line, and lacks as much to a later one as the first rule lacked beyond it. -/

theorem commonColumn_le_of_subset {rules others : List Rule} (hsubset : rules ⊆ others) :
    commonColumn rules ≤ commonColumn others :=
  commonColumn_le fun _ hrule => le_commonColumn (hsubset hrule)

theorem commonColumn_append (first second : List Rule) :
    commonColumn (first ++ second) = max (commonColumn first) (commonColumn second) := by
  apply Nat.le_antisymm
  · refine commonColumn_le fun rule hrule => ?_
    rcases List.mem_append.mp hrule with hfirst | hsecond
    · exact Nat.le_trans (le_commonColumn hfirst) (Nat.le_max_left _ _)
    · exact Nat.le_trans (le_commonColumn hsecond) (Nat.le_max_right _ _)
  · exact Nat.max_le.mpr ⟨commonColumn_le_of_subset (List.subset_append_left first second),
      commonColumn_le_of_subset (List.subset_append_right first second)⟩

theorem replicate_padding_append (rule : Rule) {column later : Nat} (hle : rule.column ≤ column)
    (hlater : column ≤ later) :
    List.replicate (rule.padding column) ' ' ++ List.replicate (later - column) ' ' =
      List.replicate (rule.padding later) ' ' := by
  rw [List.replicate_append_replicate, padding, padding]
  congr 1
  omega

structure Rebuilt (column : Nat) (rule again : Rule) : Prop where
  genuine : rule.Genuine
  reached : rule.column ≤ column
  made : again.Genuine
  text : again.text = rule.aligned column

namespace Rebuilt

variable {column : Nat} {rule again : Rule}

theorem column_eq (hrebuilt : Rebuilt column rule again) : again.column = column := by
  have hfirst := hrebuilt.made.firstDelimiter
  rw [hrebuilt.text] at hfirst
  exact hfirst.unique (hrebuilt.genuine.firstDelimiter_aligned hrebuilt.reached)

theorem aligned_eq (hrebuilt : Rebuilt column rule again) {later : Nat}
    (hlater : column ≤ later) : again.aligned later = rule.aligned later := by
  rw [aligned, padding, hrebuilt.column_eq, hrebuilt.text,
    hrebuilt.genuine.take_aligned hrebuilt.reached, hrebuilt.genuine.drop_aligned hrebuilt.reached,
    List.append_assoc, ← List.append_assoc (List.replicate _ ' '),
    rule.replicate_padding_append hrebuilt.reached hlater]
  rfl

theorem relisted (hrebuilt : Rebuilt column rule again) {later : Nat} (hlater : column ≤ later) :
    Relisted later rule again where
  line := hrebuilt.aligned_eq hlater
  reached := by rwa [hrebuilt.column_eq]
  widest := by
    rintro rfl
    rw [hrebuilt.column_eq]
    exact Nat.le_antisymm hlater hrebuilt.reached

end Rebuilt

theorem exists_rebuilt {rules : List Rule} {column : Nat}
    (hgenuine : ∀ rule ∈ rules, rule.Genuine) (hreached : ∀ rule ∈ rules, rule.column ≤ column)
    {numbers : List Nat} (hlength : numbers.length = rules.length) :
    ∃ rebuilt, List.zipWith ofText? numbers (rules.map (·.aligned column)) = rebuilt.map some ∧
      List.Forall₂ (Rebuilt column) rules rebuilt ∧ ∀ again ∈ rebuilt, again.Genuine := by
  induction rules generalizing numbers with
  | nil => exact ⟨[], by simp, .nil, by simp⟩
  | cons rule rules ih =>
      cases numbers with
      | nil => cases hlength
      | cons number numbers =>
          obtain ⟨hrule, hrules⟩ := List.forall_mem_cons.mp hgenuine
          obtain ⟨hle, hothers⟩ := List.forall_mem_cons.mp hreached
          obtain ⟨rebuilt, hzip, hforall, hmade⟩ := ih hrules hothers (Nat.succ.inj hlength)
          obtain ⟨again, hagain, htext, _⟩ :=
            exists_ofText? (hrule.firstDelimiter_aligned hle) number
          have hnew := Genuine.of_ofText? hagain
          refine ⟨again :: rebuilt, ?_, .cons ⟨hrule, hle, hnew, htext⟩ hforall,
            List.forall_mem_cons.mpr ⟨hnew, hmade⟩⟩
          rw [List.map_cons, List.zipWith_cons_cons, hagain, hzip, List.map_cons]

/-- Any list of the same rules has the same column, and with it the same line for each rule. -/
theorem aligned_of_same {rules others : List Rule} (hgenuine : ∀ rule ∈ rules, rule.Genuine)
    (hsame : ∀ rule, rule ∈ others ↔ rule ∈ rules) :
    commonColumn others = commonColumn rules ∧
      alignAll? others (commonColumn others) =
        some (others.map (·.aligned (commonColumn rules))) := by
  have hcolumn : commonColumn others = commonColumn rules :=
    Nat.le_antisymm (commonColumn_le_of_subset fun rule => (hsame rule).mp)
      (commonColumn_le_of_subset fun rule => (hsame rule).mpr)
  have hothers : ∀ rule ∈ others, rule.Genuine :=
    fun rule hrule => hgenuine rule ((hsame rule).mp hrule)
  exact ⟨hcolumn, by rw [hcolumn, alignAll?_genuine hothers]⟩

theorem alignment_composes {first second : List Rule}
    (hfirst : ∀ rule ∈ first, rule.Genuine) (hsecond : ∀ rule ∈ second, rule.Genuine) :
    ∃ lines, alignAll? first (commonColumn first) = some lines ∧
      (∀ others : List Rule, (∀ rule, rule ∈ others ↔ rule ∈ first) →
        commonColumn others = commonColumn first ∧
        ∃ otherLines, alignAll? others (commonColumn others) = some otherLines ∧
          otherLines.length = others.length ∧
          (∀ item ∈ others.zip otherLines, item ∈ first.zip lines) ∧
          (others.Perm first → (others.zip otherLines).Perm (first.zip lines))) ∧
      commonColumn (first ++ second) = max (commonColumn first) (commonColumn second) ∧
      ∀ numbers : List Nat, numbers.length = first.length →
        ∃ rebuilt, List.zipWith ofText? numbers lines = rebuilt.map some ∧
          alignAll? (rebuilt ++ second) (commonColumn (rebuilt ++ second)) =
            alignAll? (first ++ second) (commonColumn (first ++ second)) ∧
          (alignAll? (first ++ second) (commonColumn (first ++ second))).isSome ∧
          commonColumn rebuilt = commonColumn first ∧
          alignAll? rebuilt (commonColumn rebuilt) = some lines := by
  refine ⟨_, alignAll?_genuine hfirst _, fun others hsame => ?_, commonColumn_append first second,
    fun numbers hlength => ?_⟩
  · obtain ⟨hcolumn, hlines⟩ := aligned_of_same hfirst hsame
    refine ⟨hcolumn, _, hlines, List.length_map _, ?_, fun hperm => ?_⟩
    · simp only [← List.map_prod_left_eq_zip]
      exact fun item hitem => List.map_subset _ (fun rule => (hsame rule).mp) hitem
    · simp only [← List.map_prod_left_eq_zip]
      exact hperm.map _
  · obtain ⟨rebuilt, hzip, hrebuilt, hmade⟩ :=
      exists_rebuilt hfirst (fun rule hrule => le_commonColumn hrule) hlength
    have hrelisted : ∀ later, commonColumn first ≤ later →
        List.Forall₂ (Relisted later) first rebuilt :=
      fun later hlater => hrebuilt.imp fun rule again hagain => hagain.relisted hlater
    have hcolumn := commonColumn_of_relisted (hrelisted _ (Nat.le_refl _))
    have hboth := alignAll?_genuine (List.forall_mem_append.mpr ⟨hfirst, hsecond⟩)
    have hagain := alignAll?_genuine (List.forall_mem_append.mpr ⟨hmade, hsecond⟩)
    refine ⟨rebuilt, hzip, ?_, ?_, hcolumn, ?_⟩
    · rw [hboth, hagain, commonColumn_append, commonColumn_append, hcolumn, List.map_append,
        List.map_append, map_aligned_of_relisted (hrelisted _ (Nat.le_max_left _ _))]
    · rw [hboth]
      rfl
    · rw [alignAll?_genuine hmade, hcolumn, map_aligned_of_relisted (hrelisted _ (Nat.le_refl _))]

/-- The rules of the first stage come back with other numbers and in a wider company, and a list
with one of them twice is in another order. -/
theorem alignment_composes_staged :
    (∃ otherLines, alignAll? [⟨2, "bcd ::= e".toList, 4, 4⟩, ⟨1, "::= b".toList, 0, 0⟩,
        ⟨2, "bcd ::= e".toList, 4, 4⟩] 4 = some otherLines ∧ otherLines.length = 3 ∧
      ∀ item ∈ [(⟨2, "bcd ::= e".toList, 4, 4⟩ : Rule), ⟨1, "::= b".toList, 0, 0⟩,
          ⟨2, "bcd ::= e".toList, 4, 4⟩].zip otherLines,
        item ∈ [((⟨1, "::= b".toList, 0, 0⟩ : Rule), "    ::= b".toList),
          (⟨2, "bcd ::= e".toList, 4, 4⟩, "bcd ::= e".toList)]) ∧
    ∃ rebuilt, [ofText? 7 "    ::= b".toList, ofText? 7 "bcd ::= e".toList] =
        rebuilt.map some ∧
      alignAll? (rebuilt ++ [⟨3, "f ghi ::= j".toList, 6, 6⟩])
          (commonColumn (rebuilt ++ [⟨3, "f ghi ::= j".toList, 6, 6⟩])) =
        alignAll? [⟨1, "::= b".toList, 0, 0⟩, ⟨2, "bcd ::= e".toList, 4, 4⟩,
          ⟨3, "f ghi ::= j".toList, 6, 6⟩] 6 := by
  have hfirst : ∀ rule ∈ [(⟨1, "::= b".toList, 0, 0⟩ : Rule), ⟨2, "bcd ::= e".toList, 4, 4⟩],
      rule.Genuine := by decide
  have hsecond : ∀ rule ∈ [(⟨3, "f ghi ::= j".toList, 6, 6⟩ : Rule)], rule.Genuine := by decide
  have hsame : ∀ rule : Rule, rule ∈ [(⟨2, "bcd ::= e".toList, 4, 4⟩ : Rule),
      ⟨1, "::= b".toList, 0, 0⟩, ⟨2, "bcd ::= e".toList, 4, 4⟩] ↔
        rule ∈ [(⟨1, "::= b".toList, 0, 0⟩ : Rule), ⟨2, "bcd ::= e".toList, 4, 4⟩] := by
    simp [or_comm]
  obtain ⟨lines, hlines, hothers, _, hstaged⟩ := alignment_composes hfirst hsecond
  have hknown : lines = ["    ::= b".toList, "bcd ::= e".toList] :=
    Option.some.inj (hlines.symm.trans ((alignAll?_genuine hfirst _).trans (by decide)))
  subst hknown
  obtain ⟨_, otherLines, hotherLines, hlength, hzip, _⟩ := hothers _ hsame
  obtain ⟨rebuilt, hrebuilt, hagain, _⟩ := hstaged [7, 7] rfl
  exact ⟨⟨otherLines, hotherLines, hlength, hzip⟩, rebuilt, hrebuilt, hagain⟩

end GrammarListing.Rule
