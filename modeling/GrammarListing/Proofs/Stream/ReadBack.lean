import GrammarListing.Proofs.Relisting
import GrammarListing.Proofs.Rule.Locality
namespace GrammarListing

/-! A written listing is read back.  No line holds a break, so a line feed stands where a line ends
and nowhere else: there are as many as there are lines, and the lines of the text that is written
are those of the listing, each from the line of the source whose number is told for it. -/

namespace Text

theorem mem_of_mem_encode {text : Text} {byte : UInt8} (hascii : byte < 0x80)
    (hbyte : byte ∈ text.encode) : Char.ofNat byte.toNat ∈ text := by
  obtain ⟨front, back, hencode⟩ := List.append_of_mem hbyte
  obtain ⟨before, after, rfl, _⟩ := exists_of_encode_ascii hascii hencode
  exact List.mem_append_right before List.mem_cons_self

theorem carriageReturn_not_mem_flatMap {lines : List Text}
    (hlines : ∀ line ∈ lines, line.Unbroken) :
    Bytes.carriageReturn ∉ encode (lines.flatMap (· ++ ['\n'])) := by
  intro hbyte
  have hreturn : '\r' ∈ lines.flatMap (· ++ ['\n']) := mem_of_mem_encode (by decide) hbyte
  obtain ⟨line, hline, hended⟩ := List.mem_flatMap.mp hreturn
  rcases List.mem_append.mp hended with hinside | hfeed
  · exact (hlines line hline '\r' hinside).1 rfl
  · exact absurd hfeed (by decide)

theorem Unbroken.lineFeed_not_mem {text : Text} (hunbroken : text.Unbroken) :
    Bytes.lineFeed ∉ text.encode :=
  fun hbyte => (hunbroken '\n' (mem_of_mem_encode (by decide) hbyte)).2 rfl

theorem count_lineFeed_flatMap {lines : List Text} (hlines : ∀ line ∈ lines, line.Unbroken) :
    (encode (lines.flatMap (· ++ ['\n']))).count Bytes.lineFeed = lines.length := by
  induction lines with
  | nil => rfl
  | cons line lines ih =>
      obtain ⟨hline, hrest⟩ := List.forall_mem_cons.mp hlines
      have hfeed : (encode ['\n']).count Bytes.lineFeed = 1 := by decide
      rw [List.flatMap_cons, encode_append, encode_append, List.count_append, List.count_append,
        List.count_eq_zero.mpr hline.lineFeed_not_mem, hfeed, ih hrest, List.length_cons]
      omega

end Text

/-- A line that is listed for the line of the source with a number, counted from one: the rule of
that line, aligned to a column. -/
def Bytes.ListsAt (source : Bytes) (prefixWidth column number : Nat) (line : Text) : Prop :=
  ∃ (origin : Text) (rule : Rule), 1 ≤ number ∧
    source.decodeLossy.lines[number - 1]? = some origin ∧
    rule.LiftedFrom prefixWidth number origin ∧ rule.AlignedTo column line

theorem Bytes.forall₂_listsAt {source : Bytes} {prefixWidth : Nat} {listing : Listing}
    (hlisting : source.listing? prefixWidth = some listing) :
    List.Forall₂ (source.ListsAt prefixWidth listing.column) listing.lineNumbers
      listing.lines := by
  rw [source.listing?_eq] at hlisting
  cases hlisting
  rw [List.forall₂_map_left_iff, List.forall₂_map_right_iff, List.forall₂_same]
  intro rule hrule
  obtain ⟨origin, hfirst, hplace, _, hlifted⟩ := Text.exists_line_of_mem_rules hrule
  exact ⟨origin, rule, hfirst, hplace, hlifted,
    hlifted.genuine.alignedTo (Rule.le_commonColumn hrule)⟩

namespace Bytes

open Classical in
/-- What a source is listed as: lines that are ended by line feeds, with their first delimiters in
a column, which is zero if there are no lines, and that come one by one from those lines of the
source that hold a rule. -/
structure ListedAs (source : Bytes) (prefixWidth : Nat) (output : Bytes) (column : Nat)
    (origins : List (Text × Nat)) : Prop where
  ended : output = Text.encode (output.decodeLossy.lines.flatMap (· ++ ['\n']))
  marked : ∀ line ∈ output.decodeLossy.lines, line.FirstDelimiter column
  unmarked : output.decodeLossy.lines = [] → column = 0
  held : origins = (source.decodeLossy.lines.zipIdx 1).filter fun origin =>
    origin.1.HoldsRule prefixWidth
  lifted : List.Forall₂ (fun line origin => ∃ rule : Rule,
      rule.LiftedFrom prefixWidth origin.2 origin.1 ∧ rule.AlignedTo column line)
    output.decodeLossy.lines origins

variable {source : Bytes} {prefixWidth : Nat} {listing : Listing}

theorem listedAs_text (hlisting : source.listing? prefixWidth = some listing) :
    ∃ origins, ListedAs source prefixWidth listing.text.encode listing.column origins ∧
      listing.lineNumbers = origins.map Prod.snd := by
  have hlifted := source.decodeLossy.forall₂_rules prefixWidth
  have hlines : listing.text.encode.decodeLossy.lines = listing.lines := by
    rw [decodeLossy_encode, lines_text hlisting]
  rw [source.listing?_eq] at hlisting
  cases hlisting
  refine ⟨_, ⟨?_, ?_, ?_, rfl, ?_⟩, ?_⟩
  · rw [hlines, Listing.text]
  · rw [hlines]
    refine List.forall_mem_map.mpr fun rule hrule => ?_
    exact (Text.genuine_of_mem_rules hrule).firstDelimiter_aligned (Rule.le_commonColumn hrule)
  · rw [hlines]
    intro hempty
    dsimp only
    rw [List.map_eq_nil_iff.mp hempty]
    rfl
  · rw [hlines]
    refine List.forall₂_map_left_iff.mpr ?_
    refine ((List.forall₂_and_left _ _).mpr ⟨fun rule hrule => hrule, hlifted⟩).imp ?_
    intro rule origin hpaired
    obtain ⟨hrule, horigin⟩ := hpaired
    exact ⟨rule, horigin, horigin.genuine.alignedTo (Rule.le_commonColumn hrule)⟩
  · rw [← List.forall₂_eq_eq_eq, List.forall₂_map_left_iff, List.forall₂_map_right_iff]
    exact hlifted.imp fun _ _ horigin => horigin.lineNumber

/-- What a source is printed as: listed in the least column that spaces put into the texts of its
rules can bring all their first delimiters to. -/
def PrintedAs (source : Bytes) (prefixWidth : Nat) (output : Bytes) : Prop :=
  ∃ column origins, source.ListedAs prefixWidth output column origins ∧
    IsLeast {column | ∀ origin ∈ origins, ∃ line,
      Text.SpacesInserted (origin.1.trim.drop prefixWidth) line ∧ line.FirstDelimiter column} column

theorem printedAs_text (hlisting : source.listing? prefixWidth = some listing) :
    source.PrintedAs prefixWidth listing.text.encode := by
  obtain ⟨origins, hlisted, _⟩ := listedAs_text hlisting
  have htexts : (source.rules prefixWidth).map Rule.text =
      origins.map fun origin => origin.1.trim.drop prefixWidth := by
    rw [hlisted.held, ← List.forall₂_eq_eq_eq, List.forall₂_map_left_iff,
      List.forall₂_map_right_iff]
    exact (source.decodeLossy.forall₂_rules prefixWidth).imp fun _ _ horigin => horigin.text
  have hreached : ∀ column,
      (∀ rule ∈ source.rules prefixWidth, ∃ line,
        Text.SpacesInserted rule.text line ∧ line.FirstDelimiter column) ↔
      ∀ origin ∈ origins, ∃ line,
        Text.SpacesInserted (origin.1.trim.drop prefixWidth) line ∧
          line.FirstDelimiter column := by
    intro column
    rw [← List.forall_mem_map (P := fun text : Text => ∃ line, text.SpacesInserted line ∧
      line.FirstDelimiter column), htexts, List.forall_mem_map]
  have hgenuine : ∀ rule ∈ source.rules prefixWidth, rule.Genuine :=
    fun _ hrule => Text.genuine_of_mem_rules hrule
  have hleast := Rule.isLeast_commonColumn hgenuine
  rw [source.listing?_eq] at hlisting
  cases hlisting
  simp only [hreached] at hleast
  exact ⟨_, origins, hlisted, hleast⟩

end Bytes

theorem dump_read_back {reader : Reader} {source : Bytes} {ending : Option Fault}
    {sink after : Sink} {prefixWidth : Nat} {name : String} {summary : Summary}
    (hyields : reader.Yields source ending)
    (hdump : dump reader sink prefixWidth name = (.ok summary, after)) :
    ∃ listing output text, source.listing? prefixWidth = some listing ∧
      after.received = sink.received ++ output ∧ output.decode? = some text ∧
      Bytes.carriageReturn ∉ output ∧
      output.count Bytes.lineFeed = summary.ruleCount ∧
      output.count Bytes.lineFeed = summary.lineNumbers.length ∧
      text.lines = listing.lines ∧
      List.Forall₂ (source.ListsAt prefixWidth summary.column) summary.lineNumbers
        text.lines := by
  obtain ⟨listing, hlisting, rfl, hreceived⟩ := received_of_dump hyields hdump
  have hlines := Bytes.unbroken_of_listing? hlisting
  have hunbroken : ∀ line ∈ listing.lines, line.Unbroken := fun line hline => (hlines line hline).1
  have hread := Bytes.lines_text hlisting
  have horigins := Bytes.forall₂_listsAt hlisting
  have hcount : listing.text.encode.count Bytes.lineFeed = listing.lineNumbers.length := by
    rw [Listing.text, Text.count_lineFeed_flatMap hunbroken, horigins.length_eq]
  refine ⟨listing, _, listing.text, hlisting, hreceived, Bytes.decode?_eq_some_iff.mpr rfl,
    Text.carriageReturn_not_mem_flatMap hunbroken, hcount, hcount, hread, ?_⟩
  rw [hread]
  exact horigins

theorem dump_read_back_malformed :
    ∃ summary after, dump [.piece (Text.encode "// a ::= b\r".toList), .interrupted,
        .piece ([0xFF, 0x00, 0x0D, 0x0A] ++ Text.encode "// cc ::= d".toList)]
        .unlimited 3 "input" = (.ok summary, after) ∧
      summary.lineNumbers = [1, 3] ∧
      ∃ text, after.received.decode? = some text ∧
        text.lines = ["a  ::= b".toList, "cc ::= d".toList] ∧
        Bytes.carriageReturn ∉ after.received ∧
        after.received.count Bytes.lineFeed = 2 := by
  have hyields : Reader.Yields [.piece (Text.encode "// a ::= b\r".toList), .interrupted,
      .piece ([0xFF, 0x00, 0x0D, 0x0A] ++ Text.encode "// cc ::= d".toList)]
      (Text.encode "// a ::= b\r".toList ++
        ([0xFF, 0x00, 0x0D, 0x0A] ++ Text.encode "// cc ::= d".toList)) none :=
    .piece (by decide) (.interrupted (Reader.yields_singleton _))
  have hknown : Bytes.listing? (Text.encode "// a ::= b\r".toList ++
      ([0xFF, 0x00, 0x0D, 0x0A] ++ Text.encode "// cc ::= d".toList)) 3 =
      some ⟨["a  ::= b".toList, "cc ::= d".toList], [1, 3], 3⟩ := by
    rw [Bytes.listing?_eq]
    decide
  obtain ⟨after, hemit, _⟩ := Listing.emit_unlimited
    ⟨["a  ::= b".toList, "cc ::= d".toList], [1, 3], 3⟩
  have hdump := (@dump_of_ended _ _ .unlimited 3 "input" hyields (by decide) _ hknown).trans hemit
  obtain ⟨listing, output, text, hlisting, hreceived, hdecode, hreturn, hfeeds, _, hlines, _⟩ :=
    dump_read_back hyields hdump
  cases hlisting.symm.trans hknown
  cases hreceived
  exact ⟨_, after, hdump, rfl, text, hdecode, hlines, hreturn, hfeeds⟩

end GrammarListing
