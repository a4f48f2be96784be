import GrammarListing.Proofs.Text.Offset
import GrammarListing.Stream
import Mathlib.Data.List.MinMax
import Mathlib.Order.Bounds.Basic
import Mathlib.Order.Nat
namespace GrammarListing

/-! Alignment is exact.  Spaces put into a text never bring its first delimiter farther left, so
the greatest column of genuine rules is the least one where all their delimiters can stand. -/

namespace Text

inductive SpacesInserted : Text → Text → Prop
  | nil : SpacesInserted [] []
  | keep (c : Char) {text spaced : Text} (hspaced : SpacesInserted text spaced) :
      SpacesInserted (c :: text) (c :: spaced)
  | space {text spaced : Text} (hspaced : SpacesInserted text spaced) :
      SpacesInserted text (' ' :: spaced)

namespace SpacesInserted

theorem append_left {text spaced : Text} (hspaced : SpacesInserted text spaced) (before : Text) :
    SpacesInserted (before ++ text) (before ++ spaced) := by
  induction before with
  | nil => exact hspaced
  | cons c before ih => exact .keep c ih

theorem refl (text : Text) : SpacesInserted text text := by
  simpa using nil.append_left text

theorem replicate {text spaced : Text} (hspaced : SpacesInserted text spaced) (count : Nat) :
    SpacesInserted text (List.replicate count ' ' ++ spaced) := by
  induction count with
  | zero => exact hspaced
  | succ count ih => exact .space ih

theorem of_cons_of_ne {c : Char} {text spaced : Text} (hc : c ≠ ' ')
    (hspaced : SpacesInserted text (c :: spaced)) :
    ∃ rest, text = c :: rest ∧ SpacesInserted rest spaced := by
  cases hspaced with
  | keep _ hrest => exact ⟨_, rfl, hrest⟩
  | space _ => exact absurd rfl hc

theorem delimiter_of_delimiter {text spaced : Text} (hspaced : SpacesInserted text spaced)
    (hdelimiter : delimiter <+: spaced) : delimiter <+: text := by
  obtain ⟨after, rfl⟩ := hdelimiter
  obtain ⟨_, rfl, hsecond⟩ := hspaced.of_cons_of_ne (by decide)
  obtain ⟨_, rfl, hthird⟩ := hsecond.of_cons_of_ne (by decide)
  obtain ⟨rest, rfl, _⟩ := hthird.of_cons_of_ne (by decide)
  exact List.prefix_append delimiter rest

theorem exists_delimiterAt {text spaced : Text} (hspaced : SpacesInserted text spaced)
    {index : Nat} (hstands : spaced.DelimiterAt index) :
    ∃ earlier ≤ index, text.DelimiterAt earlier := by
  induction hspaced generalizing index with
  | nil => exact absurd hstands (not_delimiterAt_nil index)
  | @keep c text spaced hspaced ih =>
      cases index with
      | zero => exact ⟨0, Nat.le_refl 0, (hspaced.keep c).delimiter_of_delimiter hstands⟩
      | succ index =>
          obtain ⟨earlier, hle, hearlier⟩ := ih hstands
          exact ⟨earlier + 1, Nat.succ_le_succ hle, hearlier⟩
  | @space text spaced hspaced ih =>
      cases index with
      | zero => simp [delimiterAt_iff_getElem?] at hstands
      | succ index =>
          obtain ⟨earlier, hle, hearlier⟩ := ih hstands
          exact ⟨earlier, Nat.le_succ_of_le hle, hearlier⟩

theorem column_le {text spaced : Text} (hspaced : SpacesInserted text spaced)
    {column reached : Nat} (hcolumn : text.FirstDelimiter column)
    (hreached : spaced.FirstDelimiter reached) : column ≤ reached := by
  obtain ⟨earlier, hle, hstands⟩ := hspaced.exists_delimiterAt hreached.holds
  by_contra hlt
  exact hcolumn.first earlier (by omega) hstands

end SpacesInserted

theorem flatten_pushBlocks (written : List Text) (count : Nat) :
    (pushBlocks written count).reverse.flatten =
      written.reverse.flatten ++ List.replicate count ' ' := by
  fun_induction pushBlocks written count with
  | case1 => simp
  | case2 written count hcount ih =>
      have hblock : block.take (min count blockSize) =
          List.replicate (min count blockSize) ' ' := by
        simp [block, List.take_replicate]
      rw [ih, List.reverse_cons, List.flatten_append, hblock, List.append_assoc]
      simp only [List.flatten_singleton, List.replicate_append_replicate]
      rw [Nat.add_sub_cancel' (Nat.min_le_left count blockSize)]

theorem pushSpaces_eq (text : Text) (count : Nat) :
    text.pushSpaces count = text ++ List.replicate count ' ' := by
  rw [pushSpaces, flatten_pushBlocks]
  simp

end Text

namespace Rule

def aligned (rule : Rule) (column : Nat) : Text :=
  rule.text.take rule.column ++
    (List.replicate (rule.padding column) ' ' ++ rule.text.drop rule.column)

theorem spacesInserted_aligned (rule : Rule) (column : Nat) :
    Text.SpacesInserted rule.text (rule.aligned column) := by
  have hspaced := ((Text.SpacesInserted.refl (rule.text.drop rule.column)).replicate
    (rule.padding column)).append_left (rule.text.take rule.column)
  rwa [List.take_append_drop] at hspaced

theorem aligned_column (rule : Rule) : rule.aligned rule.column = rule.text := by
  simp [aligned, padding]

namespace Genuine

variable {rule : Rule}

theorem align? (hgenuine : rule.Genuine) (column : Nat) :
    rule.align? column = some (rule.aligned column) := by
  rw [Rule.align?, hgenuine.sides?, Option.map_some, Text.pushSpaces_eq, List.append_assoc]
  rfl

theorem length_take_column (hgenuine : rule.Genuine) :
    (rule.text.take rule.column).length = rule.column :=
  Text.FirstDelimiter.length_take hgenuine.firstDelimiter

theorem getElem?_aligned (hgenuine : rule.Genuine) {column index : Nat}
    (hle : rule.column ≤ index) (hlt : index < column) :
    (rule.aligned column)[index]? = some ' ' := by
  have hlength := hgenuine.length_take_column
  rw [aligned, List.getElem?_append_right (by omega), List.getElem?_append_left,
    List.getElem?_replicate, if_pos]
  all_goals
    simp only [hlength, padding, List.length_replicate]
    omega

theorem length_padded_front (hgenuine : rule.Genuine) {column : Nat}
    (hle : rule.column ≤ column) :
    (rule.text.take rule.column ++ List.replicate (rule.padding column) ' ').length = column := by
  rw [List.length_append, hgenuine.length_take_column, List.length_replicate]
  exact Nat.add_sub_cancel' hle

theorem take_aligned (hgenuine : rule.Genuine) {column : Nat} (hle : rule.column ≤ column) :
    (rule.aligned column).take column =
      rule.text.take rule.column ++ List.replicate (rule.padding column) ' ' := by
  rw [aligned, ← List.append_assoc, List.take_left' (hgenuine.length_padded_front hle)]

theorem drop_aligned (hgenuine : rule.Genuine) {column : Nat} (hle : rule.column ≤ column) :
    (rule.aligned column).drop column = rule.text.drop rule.column := by
  rw [aligned, ← List.append_assoc, List.drop_left' (hgenuine.length_padded_front hle)]

theorem firstDelimiter_aligned (hgenuine : rule.Genuine) {column : Nat}
    (hle : rule.column ≤ column) : (rule.aligned column).FirstDelimiter column := by
  constructor
  · have hstands := (Text.delimiterAt_append_right (rule.text.take rule.column ++
      List.replicate (rule.padding column) ' ') (rule.text.drop rule.column) 0).mpr
      hgenuine.firstDelimiter.holds
    rw [Nat.add_zero, hgenuine.length_padded_front hle, List.append_assoc] at hstands
    exact hstands
  · -- A delimiter farther left would be one of the text, or begin at a space.
    intro index hlt hstands
    obtain ⟨earlier, hearlier, hearly⟩ :=
      (rule.spacesInserted_aligned column).exists_delimiterAt hstands
    by_cases hleft : index < rule.column
    · exact hgenuine.firstDelimiter.first earlier (by omega) hearly
    · have hspace := hgenuine.getElem?_aligned (Nat.le_of_not_lt hleft) hlt
      have hcolon := (Text.delimiterAt_iff_getElem?.mp hstands).1
      rw [hspace] at hcolon
      cases hcolon

end Genuine

theorem le_commonColumn {rules : List Rule} {rule : Rule} (hrule : rule ∈ rules) :
    rule.column ≤ commonColumn rules :=
  List.le_max_of_le (List.mem_map_of_mem hrule) (Nat.le_refl _)

theorem commonColumn_le {rules : List Rule} {column : Nat}
    (hrules : ∀ rule ∈ rules, rule.column ≤ column) : commonColumn rules ≤ column :=
  List.max_le_of_forall_le _ _ (List.forall_mem_map.mpr hrules)

theorem exists_column_eq_commonColumn {rules : List Rule} (hne : rules ≠ []) :
    ∃ rule ∈ rules, rule.column = commonColumn rules := by
  induction rules with
  | nil => exact absurd rfl hne
  | cons rule rules ih =>
      have hcommon : commonColumn (rule :: rules) = max rule.column (commonColumn rules) := rfl
      rw [hcommon]
      by_cases hle : commonColumn rules ≤ rule.column
      · exact ⟨rule, List.mem_cons_self, (Nat.max_eq_left hle).symm⟩
      · have hnonempty : rules ≠ [] := by
          rintro rfl
          exact hle (Nat.zero_le _)
        obtain ⟨widest, hwidest, hcolumn⟩ := ih hnonempty
        refine ⟨widest, List.mem_cons_of_mem rule hwidest, ?_⟩
        rw [hcolumn, Nat.max_eq_right (Nat.le_of_not_le hle)]

theorem alignAll?_genuine {rules : List Rule} (hgenuine : ∀ rule ∈ rules, rule.Genuine)
    (column : Nat) : alignAll? rules column = some (rules.map (·.aligned column)) := by
  rw [alignAll?]
  induction rules with
  | nil => rfl
  | cons rule rules ih =>
      obtain ⟨hrule, hrules⟩ := List.forall_mem_cons.mp hgenuine
      rw [List.mapM_cons, hrule.align?, ih hrules]
      rfl

/-- A line that differs from the rule's text in nothing but spaces before the first delimiter,
which stands at the column. -/
structure AlignedTo (rule : Rule) (column : Nat) (line : Text) : Prop where
  marked : rule.text.FirstDelimiter rule.column
  reached : rule.column ≤ column
  padded : line = rule.text.take rule.column ++
    (List.replicate (column - rule.column) ' ' ++ rule.text.drop rule.column)
  aligned : line.FirstDelimiter column
  restored : line.take rule.column ++ line.drop column = rule.text

theorem Genuine.alignedTo {rule : Rule} (hgenuine : rule.Genuine) {column : Nat}
    (hle : rule.column ≤ column) : rule.AlignedTo column (rule.aligned column) where
  marked := hgenuine.firstDelimiter
  reached := hle
  padded := rfl
  aligned := hgenuine.firstDelimiter_aligned hle
  restored := by
    rw [hgenuine.drop_aligned hle, aligned, List.take_left' hgenuine.length_take_column,
      List.take_append_drop]

theorem isLeast_commonColumn {rules : List Rule} (hgenuine : ∀ rule ∈ rules, rule.Genuine) :
    IsLeast {column | ∀ rule ∈ rules, ∃ line,
      Text.SpacesInserted rule.text line ∧ line.FirstDelimiter column} (commonColumn rules) := by
  constructor
  · intro rule hrule
    exact ⟨_, rule.spacesInserted_aligned _,
      (hgenuine rule hrule).firstDelimiter_aligned (le_commonColumn hrule)⟩
  · intro column hreached
    refine commonColumn_le fun rule hrule => ?_
    obtain ⟨line, hspaced, hline⟩ := hreached rule hrule
    exact hspaced.column_le (hgenuine rule hrule).firstDelimiter hline

end Rule

theorem Text.genuine_of_mem_rules {source : Text} {prefixWidth : Nat} {rule : Rule}
    (hrule : rule ∈ source.rules prefixWidth) : rule.Genuine := by
  obtain ⟨line, _, hlifted⟩ := List.mem_filterMap.mp hrule
  obtain ⟨_, _, hfirst, hoffset⟩ := Rule.LiftedFrom.of_ofLine? hlifted
  exact Rule.genuine_iff.mpr ⟨hfirst, by rw [hoffset, length_encode]⟩

def Bytes.rules (contents : Bytes) (prefixWidth : Nat) : List Rule :=
  contents.decodeLossy.rules prefixWidth

theorem Bytes.listing?_eq (contents : Bytes) (prefixWidth : Nat) :
    contents.listing? prefixWidth =
      some ⟨(contents.rules prefixWidth).map
          (·.aligned (Rule.commonColumn (contents.rules prefixWidth))),
        (contents.rules prefixWidth).map Rule.lineNumber,
        Rule.commonColumn (contents.rules prefixWidth)⟩ := by
  rw [Bytes.listing?, Listing.ofRules?, Rule.alignAll?_genuine fun _ => Text.genuine_of_mem_rules]
  rfl

theorem Bytes.listing_aligned (contents : Bytes) (prefixWidth : Nat) :
    ∃ listing, contents.listing? prefixWidth = some listing ∧
      List.Forall₂ (fun rule line => rule.AlignedTo listing.summary.column line)
        (contents.rules prefixWidth) listing.lines ∧
      IsLeast {column | ∀ rule ∈ contents.rules prefixWidth, ∃ line,
        Text.SpacesInserted rule.text line ∧ line.FirstDelimiter column} listing.summary.column ∧
      (contents.rules prefixWidth ≠ [] → ∃ (index : Nat) (rule : Rule),
        (contents.rules prefixWidth)[index]? = some rule ∧
          listing.lines[index]? = some rule.text) ∧
      (contents.rules prefixWidth = [] → listing.summary.column = 0) := by
  have hgenuine : ∀ rule ∈ contents.rules prefixWidth, rule.Genuine :=
    fun _ hrule => Text.genuine_of_mem_rules hrule
  refine ⟨_, contents.listing?_eq prefixWidth, ?_, Rule.isLeast_commonColumn hgenuine, ?_, ?_⟩
  · rw [List.forall₂_map_right_iff, List.forall₂_same]
    exact fun rule hrule => (hgenuine rule hrule).alignedTo (Rule.le_commonColumn hrule)
  · intro hne
    obtain ⟨rule, hrule, hcolumn⟩ := Rule.exists_column_eq_commonColumn hne
    obtain ⟨index, hindex⟩ := List.mem_iff_getElem?.mp hrule
    refine ⟨index, rule, hindex, ?_⟩
    rw [List.getElem?_map, hindex, ← hcolumn, Option.map_some, rule.aligned_column]
  · intro hempty
    simp [Listing.summary, hempty, Rule.commonColumn]

/-! Spaces are added in turns.  A turn cuts off the block what is still lacking, or takes the whole
block if that is not enough.  So the cut is always within the block, every turn leaves less to add,
and the turns end with nothing lacking. -/

namespace Text

structure Filling where
  text : Text
  lacking : Nat

namespace Filling

/-- One turn, if the block can be cut where the turn cuts it. -/
def turn? (filling : Filling) : Option Filling :=
  (block.splitAtByte? (min filling.lacking block.encode.length)).map fun sides =>
    ⟨filling.text ++ sides.1, filling.lacking - min filling.lacking block.encode.length⟩

/-- So many turns, each of them taken because something is lacking. -/
inductive Turns : Nat → Filling → Filling → Prop
  | none (filling : Filling) : Turns 0 filling filling
  | next {turns : Nat} {filling next last : Filling} (hlacking : filling.lacking ≠ 0)
      (hturn : filling.turn? = some next) (hrest : Turns turns next last) :
      Turns (turns + 1) filling last

end Filling

theorem length_encode_block : block.encode.length = blockSize := by
  rw [length_encode, block, byteLength_replicate]
  rfl

theorem splitAtByte?_block {count : Nat} (hle : count ≤ blockSize) :
    block.splitAtByte? count =
      some (List.replicate count ' ', List.replicate (blockSize - count) ' ') := by
  apply splitAtByte?_eq_some_iff.mpr
  constructor
  · rw [List.replicate_append_replicate, Nat.add_sub_cancel' hle]
    rfl
  · rw [length_encode, byteLength_replicate]
    exact (Nat.mul_one count).symm

namespace Filling

theorem turn?_eq (filling : Filling) :
    filling.turn? = some
      ⟨filling.text ++ List.replicate (min filling.lacking blockSize) ' ',
        filling.lacking - blockSize⟩ := by
  have hcut := splitAtByte?_block (Nat.min_le_right filling.lacking blockSize)
  have hrest : filling.lacking - min filling.lacking blockSize = filling.lacking - blockSize := by
    omega
  rw [turn?, length_encode_block, hcut, hrest]
  rfl

theorem lt_of_turn? {filling next : Filling} (hlacking : filling.lacking ≠ 0)
    (hturn : filling.turn? = some next) : next.lacking < filling.lacking := by
  rw [turn?_eq] at hturn
  cases hturn
  exact Nat.sub_lt (Nat.pos_of_ne_zero hlacking) (by decide)

namespace Turns

variable {turns : Nat} {filling last : Filling}

theorem lacking_eq (hturns : Turns turns filling last) :
    last.lacking = filling.lacking - turns * blockSize := by
  induction hturns with
  | none filling => rw [Nat.zero_mul, Nat.sub_zero]
  | next hlacking hturn hrest ih =>
      rw [turn?_eq] at hturn
      cases hturn
      rw [ih, Nat.sub_sub, Nat.add_comm, Nat.succ_mul]

theorem text_eq (hturns : Turns turns filling last) :
    last.text =
      filling.text ++ List.replicate (min filling.lacking (turns * blockSize)) ' ' := by
  induction hturns with
  | none filling => rw [Nat.zero_mul, Nat.min_zero, List.replicate_zero, List.append_nil]
  | @next turns filling next last hlacking hturn hrest ih =>
      rw [turn?_eq] at hturn
      cases hturn
      have hcount : min filling.lacking blockSize +
          min (filling.lacking - blockSize) (turns * blockSize) =
            min filling.lacking ((turns + 1) * blockSize) := by
        rw [Nat.succ_mul]
        omega
      rw [ih, List.append_assoc, List.replicate_append_replicate, hcount]

theorem lt_of_succ (hturns : Turns (turns + 1) filling last) :
    turns * blockSize < filling.lacking := by
  induction turns generalizing filling with
  | zero =>
      cases hturns with
      | next hlacking hturn hrest =>
          rw [Nat.zero_mul]
          exact Nat.pos_of_ne_zero hlacking
  | succ turns ih =>
      cases hturns with
      | next hlacking hturn hrest =>
          have hlt := ih hrest
          rw [turn?_eq] at hturn
          cases hturn
          rw [Nat.succ_mul]
          exact Nat.add_lt_of_lt_sub hlt

theorem le_turns (hturns : Turns turns filling last) :
    turns ≤ (filling.lacking + blockSize - 1) / blockSize := by
  cases turns with
  | zero => exact Nat.zero_le _
  | succ turns =>
      have hlt := hturns.lt_of_succ
      rw [Nat.le_div_iff_mul_le (by decide), Nat.succ_mul]
      omega

end Turns

/-- The pieces that spaces are added in are those that the turns cut off. -/
theorem turns_pushBlocks (written : List Text) (count : Nat) :
    Turns ((count + blockSize - 1) / blockSize) ⟨written.reverse.flatten, count⟩
      ⟨(pushBlocks written count).reverse.flatten, 0⟩ := by
  fun_induction pushBlocks written count with
  | case1 written => exact .none _
  | case2 written count hcount ih =>
      have hblock : block.take (min count blockSize) =
          List.replicate (min count blockSize) ' ' := by
        rw [block, List.take_replicate, Nat.min_assoc, Nat.min_self]
      have hturns : (count + blockSize - 1) / blockSize =
          (count - min count blockSize + blockSize - 1) / blockSize + 1 := by
        simp only [blockSize]
        omega
      rw [hturns]
      apply Turns.next hcount _ ih
      have hrest : count - blockSize = count - min count blockSize := by
        omega
      rw [turn?_eq, hblock, List.reverse_cons, List.flatten_append, List.flatten_singleton, hrest]

end Filling

theorem pushSpaces_in_turns (text : Text) (count : Nat) :
    Filling.Turns ((count + blockSize - 1) / blockSize) ⟨text, count⟩
      ⟨text.pushSpaces count, 0⟩ ∧
    (∀ (turns : Nat) (reached : Filling), Filling.Turns turns ⟨text, count⟩ reached →
      turns ≤ (count + blockSize - 1) / blockSize ∧
      reached.text = text ++ List.replicate (min count (turns * blockSize)) ' ' ∧
      reached.lacking = count - turns * blockSize ∧
      ∃ next, reached.turn? = some next ∧
        (reached.lacking ≠ 0 → next.lacking < reached.lacking)) ∧
    text.pushSpaces count = text ++ List.replicate count ' ' ∧
    ∀ (rule : Rule) (column : Nat), rule.align? column =
      rule.sides?.map fun sides =>
        sides.1 ++ (List.replicate (rule.padding column) ' ' ++ sides.2) := by
  refine ⟨?_, fun turns reached hturns => ?_, pushSpaces_eq text count, fun rule column => ?_⟩
  · have hturns := Filling.turns_pushBlocks [text] count
    rwa [List.reverse_singleton, List.flatten_singleton] at hturns
  · refine ⟨hturns.le_turns, hturns.text_eq, hturns.lacking_eq, _, reached.turn?_eq, ?_⟩
    intro hlacking
    exact Filling.lt_of_turn? hlacking reached.turn?_eq
  · simp only [Rule.align?, pushSpaces_eq, List.append_assoc]

/-- Two whole blocks leave two spaces to a third turn. -/
theorem pushSpaces_in_turns_uneven :
    Filling.Turns 2 ⟨"ab".toList, 130⟩ ⟨"ab".toList ++ List.replicate 128 ' ', 2⟩ ∧
    (∃ next, Filling.turn? ⟨"ab".toList ++ List.replicate 128 ' ', 2⟩ = some next ∧
      next.lacking < 2) ∧
    Filling.Turns 3 ⟨"ab".toList, 130⟩ ⟨Text.pushSpaces "ab".toList 130, 0⟩ ∧
    Text.pushSpaces "ab".toList 130 = "ab".toList ++ List.replicate 130 ' ' := by
  obtain ⟨hturns, hreached, hspaces, _⟩ := pushSpaces_in_turns "ab".toList 130
  have htwo : Filling.Turns 2 ⟨"ab".toList, 130⟩ ⟨"ab".toList ++ List.replicate 128 ' ', 2⟩ :=
    .next (by decide) (Filling.turn?_eq _) (.next (by decide) (Filling.turn?_eq _) (.none _))
  obtain ⟨_, _, _, next, hnext, hlt⟩ := hreached 2 _ htwo
  exact ⟨htwo, ⟨next, hnext, hlt (by decide)⟩, hturns, hspaces⟩

end Text

end GrammarListing
