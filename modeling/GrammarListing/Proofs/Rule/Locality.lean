import GrammarListing.Proofs.Alignment
namespace GrammarListing

namespace Rule

def raise (rule : Rule) (count : Nat) : Rule :=
  { rule with lineNumber := rule.lineNumber + count }

theorem map_raise_zero (rules : List Rule) : rules.map (·.raise 0) = rules :=
  List.map_id rules

theorem raise_raise (rule : Rule) (first second : Nat) :
    (rule.raise first).raise second = rule.raise (first + second) := by
  simp [raise, Nat.add_assoc]

theorem map_raise_raise (rules : List Rule) (first second : Nat) :
    (rules.map (·.raise first)).map (·.raise second) = rules.map (·.raise (first + second)) := by
  rw [List.map_map]
  exact List.map_congr_left fun rule _ => rule.raise_raise first second

theorem commonColumn_append_raise (rules moved : List Rule) (count : Nat) :
    commonColumn (rules ++ moved.map (·.raise count)) = commonColumn (rules ++ moved) := by
  simp only [commonColumn, List.map_append, List.map_map]
  rfl

theorem map_aligned_append_raise (rules moved : List Rule) (count column : Nat) :
    (rules ++ moved.map (·.raise count)).map (·.aligned column) =
      (rules ++ moved).map (·.aligned column) := by
  simp only [List.map_append, List.map_map]
  rfl

theorem ofText?_add (lineNumber count : Nat) (text : Text) :
    ofText? (lineNumber + count) text = (ofText? lineNumber text).map (·.raise count) := by
  rw [ofText?, ofText?, Option.map_map]
  rfl

theorem ofLine?_add (prefixWidth lineNumber count : Nat) (line : Text) :
    ofLine? prefixWidth (lineNumber + count) line =
      (ofLine? prefixWidth lineNumber line).map (·.raise count) := by
  unfold ofLine?
  split
  · exact ofText?_add lineNumber count _
  · rfl

theorem ofLines_append (prefixWidth : Nat) (before after : List Text) :
    ofLines prefixWidth (before ++ after) =
      ofLines prefixWidth before ++
        (ofLines prefixWidth after).map (·.raise before.length) := by
  rw [ofLines, List.zipIdx_append, List.filterMap_append, Nat.add_comm 1,
    ← List.map_snd_add_zipIdx_eq_zipIdx, List.filterMap_map, ofLines, ofLines,
    List.map_filterMap]
  refine congrArg _ (List.filterMap_congr fun line _ => ?_)
  exact ofLine?_add prefixWidth line.2 before.length line.1

theorem ofLines_eq_nil (prefixWidth : Nat) {lines : List Text}
    (hnone : ∀ line ∈ lines, ¬ line.isRuleComment) : ofLines prefixWidth lines = [] := by
  rw [ofLines, List.filterMap_eq_nil_iff]
  intro line hline
  exact if_neg (hnone line.1 (List.fst_mem_of_mem_zipIdx hline))

end Rule

theorem Text.lines_crlf (text : Text) :
    lines (text ++ ['\r', '\n']) = lines (text ++ ['\r']) := by
  rw [lines_of_ne_nil (by simp), lines_of_ne_nil (by simp), dropFinalBreak_crlf,
    dropFinalBreak_cr]

namespace Bytes

def carriageReturn : UInt8 := 0x0D

def lineFeed : UInt8 := 0x0A

def Paired (before after : Bytes) : Prop :=
  before.getLast? = some carriageReturn ∧ after.head? = some lineFeed

instance (before after : Bytes) : Decidable (before.Paired after) :=
  inferInstanceAs (Decidable (_ ∧ _))

def pairs (before after : Bytes) : Nat :=
  if before.Paired after then 1 else 0

def Ended (bytes : Bytes) : Prop :=
  bytes = [] ∨ bytes.getLast? = some carriageReturn ∨ bytes.getLast? = some lineFeed

instance (bytes : Bytes) : Decidable bytes.Ended :=
  inferInstanceAs (Decidable (_ ∨ _))

structure Seam (before after : Bytes) : Prop where
  ended : before.Ended
  unpaired : ¬ before.Paired after

def lines (bytes : Bytes) : List Text :=
  bytes.decodeLossy.lines

theorem Seam.decodeLossy_append {before after : Bytes} (hseam : before.Seam after) :
    decodeLossy (before ++ after) = before.decodeLossy ++ after.decodeLossy := by
  refine Bytes.decodeLossy_append (fun byte hbyte => ?_) after
  rcases hseam.ended with rfl | hcr | hlf
  · cases hbyte
  · cases hcr.symm.trans hbyte
    decide
  · cases hlf.symm.trans hbyte
    decide

theorem getLast?_decodeLossy {bytes : Bytes} {byte : UInt8} (hlast : bytes.getLast? = some byte)
    (hascii : byte < 0x80) :
    bytes.decodeLossy.getLast? = some (Char.ofNat byte.toNat) := by
  obtain ⟨before, rfl⟩ := List.getLast?_eq_some_iff.mp hlast
  rw [decodeLossy_concat_ascii before hascii, List.getLast?_concat]

theorem Seam.decodeLossy {before after : Bytes} (hseam : before.Seam after) :
    Text.Seam before.decodeLossy after.decodeLossy := by
  rcases hseam.ended with rfl | hcr | hlf
  · exact ⟨.inl rfl, fun hlast => by cases hlast⟩
  · refine ⟨.inr (.inl (getLast?_decodeLossy hcr (by decide))), fun _ hhead => ?_⟩
    exact hseam.unpaired ⟨hcr, head?_of_head?_decodeLossy hhead⟩
  · have hlast := getLast?_decodeLossy hlf (by decide)
    refine ⟨.inr (.inr hlast), fun hother => ?_⟩
    rw [hlast] at hother
    exact absurd hother (by decide)

theorem Seam.lines_append {before after : Bytes} (hseam : before.Seam after) :
    lines (before ++ after) = before.lines ++ after.lines := by
  rw [lines, hseam.decodeLossy_append, hseam.decodeLossy.lines_append]
  rfl

theorem rules_eq (bytes : Bytes) (prefixWidth : Nat) :
    bytes.rules prefixWidth = Rule.ofLines prefixWidth bytes.lines :=
  rfl

theorem Seam.rules_append {before after : Bytes} (hseam : before.Seam after)
    (prefixWidth : Nat) :
    rules (before ++ after) prefixWidth =
      before.rules prefixWidth ++
        (after.rules prefixWidth).map (·.raise before.lines.length) := by
  rw [rules_eq, hseam.lines_append, Rule.ofLines_append]
  rfl

theorem lines_concat_lineFeed {before : Bytes}
    (hlast : before.getLast? = some carriageReturn) :
    lines (before ++ [lineFeed]) = before.lines := by
  obtain ⟨front, rfl⟩ := List.getLast?_eq_some_iff.mp hlast
  have hcr : decodeLossy (front ++ [carriageReturn]) = decodeLossy front ++ ['\r'] :=
    decodeLossy_concat_ascii front (by decide)
  have hlf : decodeLossy (front ++ [carriageReturn] ++ [lineFeed]) =
      decodeLossy (front ++ [carriageReturn]) ++ ['\n'] :=
    decodeLossy_concat_ascii (front ++ [carriageReturn]) (by decide)
  rw [lines, hlf, hcr, List.append_assoc, lines, hcr]
  exact Text.lines_crlf (decodeLossy front)

theorem seam_lineFeed (front after : Bytes) : Seam (front ++ [lineFeed]) after := by
  refine ⟨.inr (.inr List.getLast?_concat), fun hpaired => ?_⟩
  have hlast := hpaired.1
  rw [List.getLast?_concat] at hlast
  exact absurd hlast (by decide)

/-- Rules of two documents that are put together where a line ends.  A pair of CR and LF that is
made there takes a line from the second. -/
theorem Ended.exists_rules_append {before : Bytes} (hended : before.Ended) (after : Bytes)
    (prefixWidth : Nat) :
    ∃ moved, rules (before ++ after) prefixWidth = before.rules prefixWidth ++ moved ∧
      moved.map (·.raise (before.pairs after)) =
        (after.rules prefixWidth).map (·.raise before.lines.length) := by
  by_cases hpaired : before.Paired after
  · obtain ⟨hlast, hhead⟩ := hpaired
    obtain ⟨later, rfl⟩ := List.head?_eq_some_iff.mp hhead
    have hbefore : rules (before ++ [lineFeed]) prefixWidth = before.rules prefixWidth := by
      rw [rules_eq, lines_concat_lineFeed hlast, rules_eq]
    have hafter : rules (lineFeed :: later) prefixWidth =
        (rules later prefixWidth).map (·.raise 1) :=
      (seam_lineFeed [] later).rules_append prefixWidth
    refine ⟨(rules later prefixWidth).map (·.raise before.lines.length), ?_, ?_⟩
    · rw [List.append_cons, (seam_lineFeed before later).rules_append, hbefore,
        lines_concat_lineFeed hlast]
    · rw [pairs, if_pos ⟨hlast, rfl⟩, hafter, Rule.map_raise_raise, Rule.map_raise_raise,
        Nat.add_comm]
  · refine ⟨_, Seam.rules_append ⟨hended, hpaired⟩ prefixWidth, ?_⟩
    rw [pairs, if_neg hpaired]
    exact List.map_id _

theorem Seam.append {before middle : Bytes} (hseam : before.Seam middle) (hne : middle ≠ [])
    (after : Bytes) : before.Seam (middle ++ after) := by
  refine ⟨hseam.ended, fun hpaired => hseam.unpaired ⟨hpaired.1, ?_⟩⟩
  rw [← hpaired.2, List.head?_append_of_ne_nil _ hne]

theorem rules_insert {before middle after : Bytes} {moved : List Rule} {prefixWidth : Nat}
    (hfirst : before.Seam middle) (hsecond : middle.Seam after)
    (hnone : ∀ line ∈ middle.lines, ¬ line.isRuleComment) (hne : middle ≠ [])
    (hmoved : moved.map (·.raise (before.pairs after)) =
      (after.rules prefixWidth).map (·.raise before.lines.length)) :
    rules (before ++ (middle ++ after)) prefixWidth =
      before.rules prefixWidth ++
        moved.map (·.raise (middle.lines.length + before.pairs after)) := by
  have hempty : middle.rules prefixWidth = [] := Rule.ofLines_eq_nil prefixWidth hnone
  rw [(hfirst.append hne after).rules_append, hsecond.rules_append, hempty, List.nil_append,
    Rule.map_raise_raise, Nat.add_comm, ← Rule.map_raise_raise, ← hmoved, Rule.map_raise_raise,
    Nat.add_comm]

/-- How many lines farther down bytes are put behind others: as many as these have, and one more
where they split a pair of CR and LF. -/
def depth (before middle after : Bytes) : Nat :=
  if middle = [] then 0 else middle.lines.length + before.pairs after

theorem rules_local (prefixWidth : Nat) :
    (∀ before after : Bytes, before.Seam after →
      rules (before ++ after) prefixWidth =
        before.rules prefixWidth ++
          (after.rules prefixWidth).map (·.raise before.lines.length)) ∧
    ∀ before middle after : Bytes, before.Seam middle → middle.Seam after →
      (∀ line ∈ middle.lines, ¬ line.isRuleComment) →
      ∃ (moved : List Rule) (plain noisy : Listing),
        rules (before ++ after) prefixWidth = before.rules prefixWidth ++ moved ∧
        moved.map (·.raise (before.pairs after)) =
          (after.rules prefixWidth).map (·.raise before.lines.length) ∧
        rules (before ++ middle ++ after) prefixWidth =
          before.rules prefixWidth ++ moved.map (·.raise (before.depth middle after)) ∧
        listing? (before ++ after) prefixWidth = some plain ∧
        listing? (before ++ middle ++ after) prefixWidth = some noisy ∧
        noisy.lines = plain.lines ∧ noisy.column = plain.column ∧
        plain.lineNumbers =
          (before.rules prefixWidth).map Rule.lineNumber ++ moved.map Rule.lineNumber ∧
        noisy.lineNumbers =
          (before.rules prefixWidth).map Rule.lineNumber ++
            moved.map (·.lineNumber + before.depth middle after) := by
  refine ⟨fun before after hseam => hseam.rules_append prefixWidth, ?_⟩
  intro before middle after hfirst hsecond hnone
  obtain ⟨moved, hplain, hmoved⟩ := hfirst.ended.exists_rules_append after prefixWidth
  have hnoisy : rules (before ++ middle ++ after) prefixWidth =
      before.rules prefixWidth ++ moved.map (·.raise (before.depth middle after)) := by
    by_cases hempty : middle = []
    · subst hempty
      rw [List.append_nil, depth, if_pos rfl, Rule.map_raise_zero]
      exact hplain
    · rw [List.append_assoc, rules_insert hfirst hsecond hnone hempty hmoved, depth,
        if_neg hempty]
  have hcolumn : Rule.commonColumn (rules (before ++ middle ++ after) prefixWidth) =
      Rule.commonColumn (rules (before ++ after) prefixWidth) := by
    rw [hplain, hnoisy, Rule.commonColumn_append_raise]
  refine ⟨moved, _, _, hplain, hmoved, hnoisy, listing?_eq _ _, listing?_eq _ _, ?_, hcolumn,
    ?_, ?_⟩
  · simp only [hplain, hnoisy, Rule.commonColumn_append_raise, Rule.map_aligned_append_raise]
  · simp only [hplain, List.map_append]
  · simp only [hnoisy, List.map_append, List.map_map]
    rfl

/-- A sequence that is cut short is no line of the document behind it. -/
theorem rules_local_truncated :
    ∃ moved, rules (Text.encode "// a ::= b\n".toList ++ Text.encode "// c ::= d".toList) 3 =
        rules (Text.encode "// a ::= b\n".toList) 3 ++ moved ∧
      rules (Text.encode "// a ::= b\n".toList ++ [0xE2, 0x82, lineFeed] ++
          Text.encode "// c ::= d".toList) 3 =
        rules (Text.encode "// a ::= b\n".toList) 3 ++ moved.map (·.raise 1) := by
  have hfirst : Seam (Text.encode "// a ::= b\n".toList) [0xE2, 0x82, lineFeed] :=
    ⟨by decide, by decide⟩
  have hsecond : Seam [0xE2, 0x82, lineFeed] (Text.encode "// c ::= d".toList) :=
    ⟨by decide, by decide⟩
  have hdepth : depth (Text.encode "// a ::= b\n".toList) [0xE2, 0x82, lineFeed]
      (Text.encode "// c ::= d".toList) = 1 := by decide
  obtain ⟨moved, _, _, hplain, _, hnoisy, _⟩ :=
    (rules_local 3).2 _ _ _ hfirst hsecond (by decide)
  rw [hdepth] at hnoisy
  exact ⟨moved, hplain, hnoisy⟩

/-- Lines put between a CR and an LF move the LF's line too. -/
theorem lineNumber_of_split_pair :
    Seam [carriageReturn] (Text.encode "x\n".toList) ∧
      Seam (Text.encode "x\n".toList) (Text.encode "\n// a ::= b".toList) ∧
      lines (Text.encode "x\n".toList) = ["x".toList] ∧
      ¬ Text.isRuleComment "x".toList ∧
      (rules ([carriageReturn] ++ Text.encode "\n// a ::= b".toList) 3).map Rule.lineNumber =
        [2] ∧
      (rules ([carriageReturn] ++ Text.encode "x\n".toList ++
        Text.encode "\n// a ::= b".toList) 3).map Rule.lineNumber = [4] := by
  refine ⟨⟨?_, ?_⟩, ⟨?_, ?_⟩, ?_, ?_, ?_, ?_⟩
  all_goals decide

end Bytes

end GrammarListing
