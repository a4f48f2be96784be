import GrammarListing.Proofs.Rule.Annotation
import GrammarListing.Proofs.Stream.Dump
namespace GrammarListing

/-! A listing that is listed again.  Its lines are rules whose first delimiters stand at the common
column already, so they are aligned as they are; trimming takes away the padding of a line that
began with its delimiter, and aligning puts it back. -/

namespace Rule

structure Relisted (column : Nat) (rule again : Rule) : Prop where
  line : again.aligned column = rule.aligned column
  reached : again.column ≤ column
  widest : rule.column = column → again.column = column

namespace Genuine

variable {rule : Rule} {column : Nat}

theorem relisted_aligned (hgenuine : rule.Genuine) (hle : rule.column ≤ column)
    (lineNumber : Nat) :
    ∃ again, ofText? lineNumber (rule.aligned column) = some again ∧
      Relisted column rule again := by
  obtain ⟨again, hagain, htext, hcolumn⟩ :=
    exists_ofText? (hgenuine.firstDelimiter_aligned hle) lineNumber
  refine ⟨again, hagain, ?_, Nat.le_of_eq hcolumn, fun _ => hcolumn⟩
  have hline := again.aligned_column
  rwa [hcolumn, htext] at hline

theorem relisted_text (hgenuine : rule.Genuine) (hle : rule.column ≤ column) (lineNumber : Nat) :
    ∃ again, ofText? lineNumber rule.text = some again ∧ Relisted column rule again := by
  obtain ⟨again, hagain, htext, hcolumn⟩ :=
    exists_ofText? hgenuine.firstDelimiter lineNumber
  refine ⟨again, hagain, ?_, ?_, ?_⟩
  · rw [aligned, aligned, padding, padding, htext, hcolumn]
  · rwa [hcolumn]
  · rw [hcolumn]
    exact id

theorem trim_aligned_of_start (hstart : rule.column = 0) (htrimmed : rule.text.Trimmed) :
    (rule.aligned column).trim = rule.text := by
  have hline : rule.aligned column =
      List.replicate (rule.padding column) ' ' ++ (rule.text ++ []) := by
    rw [aligned, hstart, List.take_zero, List.drop_zero, List.nil_append, List.append_nil]
  rw [hline, Text.trim_white_around (Text.blank_replicate _).white Text.blank_nil.white,
    htrimmed.trim]

/-- Trimming takes away no spaces but those before a delimiter that the text began with. -/
theorem relisted_trim (hgenuine : rule.Genuine) (hle : rule.column ≤ column)
    (htrimmed : rule.text.Trimmed) (lineNumber : Nat) :
    ∃ again, ofText? lineNumber (rule.aligned column).trim = some again ∧
      Relisted column rule again := by
  by_cases hstart : rule.column = 0
  · rw [trim_aligned_of_start hstart htrimmed]
    exact hgenuine.relisted_text hle lineNumber
  · rw [(hgenuine.trimmed_aligned hstart htrimmed column).trim]
    exact hgenuine.relisted_aligned hle lineNumber

end Genuine

section Relisting

variable {rules relisted : List Rule}

theorem commonColumn_of_relisted
    (hrelisted : List.Forall₂ (Relisted (commonColumn rules)) rules relisted) :
    commonColumn relisted = commonColumn rules := by
  obtain ⟨hlength, hat⟩ := List.forall₂_iff_get.mp hrelisted
  apply Nat.le_antisymm
  · refine commonColumn_le fun again hagain => ?_
    obtain ⟨index, hlt, rfl⟩ := List.mem_iff_getElem.mp hagain
    exact (hat index (hlength ▸ hlt) hlt).reached
  · by_cases hempty : rules = []
    · subst hempty
      exact Nat.zero_le _
    · obtain ⟨rule, hrule, hcolumn⟩ := exists_column_eq_commonColumn hempty
      obtain ⟨index, hlt, rfl⟩ := List.mem_iff_getElem.mp hrule
      have hagain := (hat index hlt (hlength ▸ hlt)).widest hcolumn
      rw [← hagain]
      exact le_commonColumn (List.getElem_mem _)

theorem map_aligned_of_relisted {column : Nat}
    (hrelisted : List.Forall₂ (Relisted column) rules relisted) :
    relisted.map (·.aligned column) = rules.map (·.aligned column) := by
  induction hrelisted with
  | nil => rfl
  | cons hrule _ ih => rw [List.map_cons, List.map_cons, hrule.line, ih]

theorem forall₂_ofLines {Item : Type} {items : List Item} {carry : Item → Text}
    {related : Item → Rule → Prop} {prefixWidth : Nat}
    (hcarry : ∀ item ∈ items, ∀ lineNumber, ∃ rule,
      ofLine? prefixWidth lineNumber (carry item) = some rule ∧ related item rule) :
    List.Forall₂ related items (ofLines prefixWidth (items.map carry)) := by
  unfold ofLines
  generalize 1 = first
  induction items generalizing first with
  | nil => exact .nil
  | cons item items ih =>
      obtain ⟨hitem, hitems⟩ := List.forall_mem_cons.mp hcarry
      obtain ⟨rule, hrule, hrelated⟩ := hitem first
      simp only [List.map_cons, List.zipIdx_cons, List.filterMap_cons, hrule]
      exact .cons hrelated (ih hitems (first + 1))

end Relisting

end Rule

namespace Bytes

/-- A listing is listed again from lines that carry its rules, each by itself. -/
theorem listing?_carried {source : Bytes} {prefixWidth width : Nat} {carry : Rule → Text}
    (hlines : ∀ rule ∈ source.rules prefixWidth, (carry rule).Unbroken ∧ carry rule ≠ [])
    (hcarry : ∀ rule ∈ source.rules prefixWidth, ∀ lineNumber, ∃ again,
      Rule.ofLine? width lineNumber (carry rule) = some again ∧
        Rule.Relisted (Rule.commonColumn (source.rules prefixWidth)) rule again) :
    ∃ again, listing? (Text.encode
        (((source.rules prefixWidth).map carry).flatMap (· ++ ['\n']))) width = some again ∧
      again.lines = (source.rules prefixWidth).map
        (·.aligned (Rule.commonColumn (source.rules prefixWidth))) ∧
      again.column = Rule.commonColumn (source.rules prefixWidth) := by
  have hrules : rules (Text.encode
      (((source.rules prefixWidth).map carry).flatMap (· ++ ['\n']))) width =
      Rule.ofLines width ((source.rules prefixWidth).map carry) := by
    rw [rules, decodeLossy_encode, Text.rules,
      Text.lines_flatMap (List.forall_mem_map.mpr hlines)]
  have hrelisted := Rule.forall₂_ofLines hcarry
  refine ⟨_, listing?_eq _ _, ?_, ?_⟩
  · rw [hrules, Rule.commonColumn_of_relisted hrelisted, Rule.map_aligned_of_relisted hrelisted]
  · rw [hrules, Rule.commonColumn_of_relisted hrelisted]

section Relisting

variable {source : Bytes} {prefixWidth : Nat}

theorem aligned_of_mem_rules {rule : Rule} (hrule : rule ∈ source.rules prefixWidth) :
    (rule.aligned (Rule.commonColumn (source.rules prefixWidth))).RuleText :=
  (Text.genuine_of_mem_rules hrule).ruleText_aligned (Rule.le_commonColumn hrule)
    (Text.ruleText_of_mem_rules hrule)

theorem unbroken_of_listing? {listing : Listing}
    (hlisting : source.listing? prefixWidth = some listing) :
    ∀ line ∈ listing.lines, line.Unbroken ∧ line ≠ [] := by
  rw [source.listing?_eq] at hlisting
  cases hlisting
  refine List.forall_mem_map.mpr fun rule hrule => ?_
  have hline := aligned_of_mem_rules hrule
  exact ⟨hline.unbroken, hline.ne_nil⟩

theorem lines_text {listing : Listing} (hlisting : source.listing? prefixWidth = some listing) :
    listing.text.lines = listing.lines :=
  Text.lines_flatMap (unbroken_of_listing? hlisting)

theorem listing?_annotated {introducer : Text} {width : Nat}
    (hintroducer : introducer.Introducer width) {listing : Listing}
    (hlisting : source.listing? prefixWidth = some listing) :
    ∃ again, listing? (Text.encode
        (listing.lines.flatMap fun line => introducer ++ (line ++ ['\n']))) width = some again ∧
      again.lines = listing.lines ∧ again.column = listing.column := by
  rw [source.listing?_eq] at hlisting
  cases hlisting
  have hcomments : ∀ column, ((source.rules prefixWidth).map (·.aligned column)).flatMap
      (fun line => introducer ++ (line ++ ['\n'])) =
        ((source.rules prefixWidth).map fun rule => introducer ++ rule.aligned column).flatMap
          (· ++ ['\n']) := by
    intro column
    simp only [List.flatMap_map, List.append_assoc]
  rw [hcomments]
  refine listing?_carried (fun rule hrule => ?_) fun rule hrule lineNumber => ?_
  · have hline := aligned_of_mem_rules hrule
    exact ⟨Text.unbroken_append.mpr ⟨hintroducer.unbroken, hline.unbroken⟩,
      List.append_ne_nil_of_right_ne_nil _ hline.ne_nil⟩
  · have hcarried := CommentLine.ofLine?_text ⟨[], introducer, rule.aligned _, [],
      Text.blank_nil, hintroducer, aligned_of_mem_rules hrule, Text.blank_nil⟩ lineNumber
    rw [CommentLine.text, List.nil_append, List.append_nil] at hcarried
    rw [hcarried]
    exact (Text.genuine_of_mem_rules hrule).relisted_aligned (Rule.le_commonColumn hrule)
      lineNumber

theorem listing?_text {listing : Listing} (hlisting : source.listing? 0 = some listing) :
    ∃ again, listing? listing.text.encode 0 = some again ∧
      again.lines = listing.lines ∧ again.column = listing.column := by
  rw [source.listing?_eq] at hlisting
  cases hlisting
  refine listing?_carried (fun rule hrule => ?_) fun rule hrule lineNumber => ?_
  · have hline := aligned_of_mem_rules hrule
    exact ⟨hline.unbroken, hline.ne_nil⟩
  · have hgenuine := Text.genuine_of_mem_rules hrule
    have hle := Rule.le_commonColumn hrule
    obtain ⟨htrimmed, hannotated⟩ := Text.trimmed_of_mem_rules hrule
    have hcomment := (aligned_of_mem_rules hrule).unbroken.isRuleComment_iff.mpr
      (hgenuine.annotated_aligned hle hannotated)
    rw [Rule.ofLine?, if_pos hcomment, List.drop_zero]
    exact hgenuine.relisted_trim hle htrimmed lineNumber

end Relisting

end Bytes

namespace Text

theorem mul_le_byteLength_flatMap {lines : List Text} {width : Nat}
    (hlines : ∀ line ∈ lines, width ≤ line.length) :
    lines.length * (width + 1) ≤ byteLength (lines.flatMap (· ++ ['\n'])) := by
  induction lines with
  | nil => simp
  | cons line lines ih =>
      obtain ⟨hline, hrest⟩ := List.forall_mem_cons.mp hlines
      have hbytes := length_le_byteLength (line ++ ['\n'])
      have hlater := ih hrest
      rw [List.length_append, List.length_singleton] at hbytes
      rw [List.length_cons, List.flatMap_cons, byteLength_append, Nat.succ_mul]
      omega

end Text

theorem Bytes.mul_le_length_text {source : Bytes} {prefixWidth : Nat} {listing : Listing}
    (hlisting : source.listing? prefixWidth = some listing) :
    (source.rules prefixWidth).length * (listing.column + 4) ≤ listing.text.encode.length := by
  rw [source.listing?_eq] at hlisting
  cases hlisting
  rw [Text.length_encode, Listing.text,
    ← List.length_map (·.aligned (Rule.commonColumn (source.rules prefixWidth)))]
  refine Text.mul_le_byteLength_flatMap (List.forall_mem_map.mpr fun rule hrule => ?_)
  exact ((Text.genuine_of_mem_rules hrule).firstDelimiter_aligned
    (Rule.le_commonColumn hrule)).add_three_le

def Text.lettered (count : Nat) : Text :=
  "// ".toList ++ List.replicate count 'a' ++ delimiter

def Bytes.uneven (count : Nat) : Bytes :=
  Text.encode (Text.lettered count ++ ['\n'] ++ (Text.lettered 0 ++ ['\n']))

def Bytes.trailed (count : Nat) : Bytes :=
  Text.encode ("// a ::= b".toList ++ (Break.lf.text ++ List.replicate count 'x'))

namespace Text

theorem lettered_ne_nil (count : Nat) : lettered count ≠ [] := by
  simp [lettered]

theorem unbroken_lettered (count : Nat) : (lettered count).Unbroken := by
  rw [lettered, unbroken_append, unbroken_append]
  exact ⟨⟨by decide, unbroken_replicate (by decide) count⟩, by decide⟩

theorem trimmed_lettered (count : Nat) : (lettered count).Trimmed := by
  constructor
  · intro c hc
    cases hc
    decide
  · intro c hc
    rw [lettered, List.getLast?_append_of_ne_nil _ (by decide)] at hc
    cases hc
    decide

theorem firstDelimiter_lettered (count : Nat) :
    (lettered count).FirstDelimiter (3 + count) := by
  have habsent : ':' ∉ "// ".toList ++ List.replicate count 'a' := by
    simp
  have hfirst := firstDelimiter_append habsent
  rwa [List.length_append, List.length_replicate] at hfirst

theorem isRuleComment_lettered (count : Nat) : (lettered count).isRuleComment := by
  refine (unbroken_lettered count).isRuleComment_iff.mpr
    ⟨0, ?_, 3 + count, by omega, (firstDelimiter_lettered count).holds⟩
  exact ⟨' ', by decide, List.prefix_append "// ".toList _⟩

theorem byteLength_lettered (count : Nat) : (lettered count).byteLength = count + 6 := by
  have hopens : byteLength "// ".toList = 3 := by decide
  have hletter : 'a'.utf8Size = 1 := by decide
  have hdelimiter : delimiter.byteLength = 3 := by decide
  rw [lettered, byteLength_append, byteLength_append, byteLength_replicate, hopens, hletter,
    hdelimiter]
  omega

end Text

namespace Bytes

theorem forall₂_rules_uneven (count : Nat) :
    List.Forall₂ (fun letters rule => rule.column = 3 + letters) [count, 0]
      ((uneven count).rules 0) := by
  have hlines : (uneven count).decodeLossy.lines = [count, 0].map Text.lettered := by
    have hunbroken : ∀ line ∈ [count, 0].map Text.lettered, line.Unbroken ∧ line ≠ [] :=
      List.forall_mem_map.mpr fun letters _ =>
        ⟨Text.unbroken_lettered letters, Text.lettered_ne_nil letters⟩
    rw [uneven, decodeLossy_encode, ← Text.lines_flatMap hunbroken]
    simp
  rw [rules, Text.rules, hlines]
  refine Rule.forall₂_ofLines fun letters _ lineNumber => ?_
  obtain ⟨rule, hrule, _, hcolumn⟩ :=
    Rule.exists_ofText? (Text.firstDelimiter_lettered letters) lineNumber
  refine ⟨rule, ?_, hcolumn⟩
  rw [Rule.ofLine?, if_pos (Text.isRuleComment_lettered letters), List.drop_zero,
    (Text.trimmed_lettered letters).trim, hrule]

theorem length_uneven (count : Nat) : (uneven count).length = count + 14 := by
  have hfeed : Text.byteLength ['\n'] = 1 := by decide
  rw [uneven, Text.length_encode, Text.byteLength_append, Text.byteLength_append,
    Text.byteLength_append, Text.byteLength_lettered, Text.byteLength_lettered, hfeed]

theorem mul_le_length_text_uneven {count : Nat} {listing : Listing}
    (hlisting : (uneven count).listing? 0 = some listing) :
    2 * (count + 7) ≤ listing.text.encode.length := by
  have hgrown := mul_le_length_text hlisting
  have hcolumn : 3 + count ≤ listing.column := by
    rw [(uneven count).listing?_eq] at hlisting
    cases hlisting
    obtain ⟨rule, _, hfirst, _, hrules⟩ :=
      List.forall₂_cons_left_iff.mp (forall₂_rules_uneven count)
    rw [hrules, ← hfirst]
    exact Rule.le_commonColumn List.mem_cons_self
  rw [← (forall₂_rules_uneven count).length_eq] at hgrown
  exact Nat.le_trans (Nat.mul_le_mul_left 2 (by omega)) hgrown

theorem listing?_trailed {count : Nat} (hpos : count ≠ 0) :
    (trailed count).listing? 0 = some ⟨["// a ::= b".toList], [1], 5⟩ := by
  have hrest := Text.unbroken_replicate (show 'x' ≠ '\r' ∧ 'x' ≠ '\n' by decide) count
  have hcomment : ¬ Text.isRuleComment (List.replicate count 'x') := by
    rw [hrest.isRuleComment_iff]
    rintro ⟨index, hopens, _⟩
    have hslash := (Text.commentAt_iff_getElem?.mp hopens).1
    exact absurd (List.eq_of_mem_replicate (List.mem_of_getElem? hslash)) (by decide)
  have hlines : Text.lines ("// a ::= b".toList ++ (Break.lf.text ++ List.replicate count 'x')) =
      ["// a ::= b".toList, List.replicate count 'x'] := by
    have hline : Text.Unbroken "// a ::= b".toList := by decide
    have hpaired : Break.lf = .cr → (List.replicate count 'x').head? ≠ some '\n' := nofun
    rw [hline.lines_append hpaired, hrest.lines_eq (by simpa using hpos)]
  have hrules : (trailed count).rules 0 = [⟨1, "// a ::= b".toList, 5, 5⟩] := by
    have hnone : Rule.ofLine? 0 2 (List.replicate count 'x') = none := if_neg hcomment
    have hsome : Rule.ofLine? 0 1 "// a ::= b".toList = some ⟨1, "// a ::= b".toList, 5, 5⟩ := by
      decide
    rw [rules, trailed, decodeLossy_encode, Text.rules, hlines, Rule.ofLines]
    simp only [List.zipIdx_cons, List.zipIdx_nil, List.filterMap_cons, List.filterMap_nil, hsome,
      hnone]
  rw [listing?_eq, hrules]
  decide

theorem length_trailed (count : Nat) : (trailed count).length = count + 11 := by
  have hletter : 'x'.utf8Size = 1 := by decide
  have hline : Text.byteLength ("// a ::= b".toList ++ Break.lf.text) = 11 := by decide
  rw [trailed, ← List.append_assoc, Text.length_encode, Text.byteLength_append, hline,
    Text.byteLength_replicate, hletter]
  omega

theorem listing_fixed (source : Bytes) :
    (∀ prefixWidth, ∃ listing, source.listing? prefixWidth = some listing ∧
      ∀ (introducer : Text) (width : Nat), introducer.Introducer width →
        ∃ again, listing? (Text.encode
            (listing.lines.flatMap fun line => introducer ++ (line ++ ['\n']))) width =
            some again ∧
          again.lines = listing.lines ∧ again.column = listing.column) ∧
    ∀ (reader : Reader) (name : String), reader.Yields source none →
      source.length ≤ maxSourceSize →
      ∃ listing summary written, source.listing? 0 = some listing ∧
        dump reader .unlimited 0 name = (.ok summary, written) ∧
        summary.column = listing.column ∧ written.received = listing.text.encode ∧
        ∀ (again : Reader) (other : String), again.Yields written.received none →
          (written.received.length ≤ maxSourceSize → ∃ resummary rewritten,
            dump again .unlimited 0 other = (.ok resummary, rewritten) ∧
            resummary.column = summary.column ∧ rewritten.received = written.received) ∧
          (maxSourceSize < written.received.length →
            dump again .unlimited 0 other =
              (.error (.oversized other written.received.length), .unlimited)) := by
  refine ⟨fun prefixWidth => ?_, fun reader name hyields hle => ?_⟩
  · have hlisting := source.listing?_eq prefixWidth
    exact ⟨_, hlisting, fun _ _ hintroducer => listing?_annotated hintroducer hlisting⟩
  · have hlisting := source.listing?_eq 0
    obtain ⟨written, hemit, hreceived⟩ := Listing.emit_unlimited _
    refine ⟨_, _, written, hlisting, (dump_of_ended hyields hle hlisting).trans hemit, rfl,
      hreceived, fun again other hagain => ⟨fun hfits => ?_, dump_of_oversized hagain⟩⟩
    rw [hreceived] at hagain hfits
    obtain ⟨relisting, hrelisting, hlines, hcolumn⟩ := listing?_text hlisting
    obtain ⟨rewritten, hreemit, hrereceived⟩ := Listing.emit_unlimited relisting
    refine ⟨_, rewritten, (dump_of_ended hagain hfits hrelisting).trans hreemit, hcolumn, ?_⟩
    rw [hrereceived, hreceived, Listing.text, hlines]
    rfl

theorem listing_fixed_padded :
    ∃ summary written,
      dump [.piece (Text.encode "::= // x ::= y\n// a ::= b".toList)] .unlimited 0 "input" =
        (.ok summary, written) ∧
      written.received = Text.encode "     ::= // x ::= y\n// a ::= b\n".toList ∧
      ∃ resummary rewritten,
        dump [.piece written.received] .unlimited 0 "input" = (.ok resummary, rewritten) ∧
        resummary.column = summary.column ∧ rewritten.received = written.received := by
  obtain ⟨listing, summary, written, hlisting, hdump, _, hreceived, hagain⟩ :=
    (listing_fixed (Text.encode "::= // x ::= y\n// a ::= b".toList)).2 _ "input"
      (Reader.yields_singleton _) (by decide)
  have hknown : listing? (Text.encode "::= // x ::= y\n// a ::= b".toList) 0 =
      some ⟨["     ::= // x ::= y".toList, "// a ::= b".toList], [1, 2], 5⟩ := by
    rw [listing?_eq]
    decide
  cases hlisting.symm.trans hknown
  have hfits : written.received.length ≤ maxSourceSize := by
    rw [hreceived]
    decide
  exact ⟨summary, written, hdump, hreceived,
    (hagain _ "input" (Reader.yields_singleton _)).1 hfits⟩

theorem listing_outgrown :
    (∃ summary written,
      dump [.piece (uneven 52428800)] .unlimited 0 "test" = (.ok summary, written) ∧
      dump [.piece written.received] .unlimited 0 "test" =
        (.error (.oversized "test" written.received.length), .unlimited)) ∧
    (trailed 104857600).listing? 0 = some ⟨["// a ::= b".toList], [1], 5⟩ ∧
    dump [.piece (trailed 104857600)] .unlimited 0 "test" =
      (.error (.oversized "test" 104857611), .unlimited) := by
  refine ⟨?_, listing?_trailed (by decide), ?_⟩
  · have hlisting := (uneven 52428800).listing?_eq 0
    have hle : (uneven 52428800).length ≤ maxSourceSize := by
      rw [length_uneven]
      decide
    obtain ⟨written, hemit, hreceived⟩ := Listing.emit_unlimited _
    refine ⟨_, written, (dump_of_ended (Reader.yields_singleton _) hle hlisting).trans hemit,
      dump_of_oversized (Reader.yields_singleton _) ?_⟩
    rw [hreceived]
    exact Nat.lt_of_lt_of_le (by decide) (mul_le_length_text_uneven hlisting)
  · have hlength := length_trailed 104857600
    have hover : maxSourceSize < (trailed 104857600).length := by
      rw [hlength]
      decide
    rw [dump_of_oversized (Reader.yields_singleton _) hover, hlength]

end Bytes

end GrammarListing
