import GrammarListing.Proofs.Text.Lines
namespace GrammarListing

namespace Pieces

/-- No piece holds a break, and no CR that is a break of its own has an LF right behind it. -/
structure Whole (pieces : Pieces) : Prop where
  unbroken : ∀ piece ∈ pieces.texts, piece.Unbroken
  paired : ∀ index, pieces.breaks[index]? = some .cr → pieces.texts[index + 1]? = some [] →
    pieces.breaks[index + 1]? ≠ some .lf

theorem leadingBreak?_eq_some_iff {pieces : Pieces} {br : Break} :
    pieces.leadingBreak? = some br ↔
      pieces.texts[0]? = some [] ∧ pieces.breaks[0]? = some br := by
  simp [leadingBreak?, texts, breaks, List.head?_eq_getElem?]

theorem whole_last {text : Text} : Whole ⟨text, []⟩ ↔ text.Unbroken := by
  constructor
  · intro hwhole
    exact hwhole.unbroken text List.mem_cons_self
  · intro hunbroken
    refine ⟨?_, fun _ hcr => ?_⟩
    · simpa [texts] using hunbroken
    · cases hcr

theorem whole_cons {text next : Text} {br : Break} {rest : List (Break × Text)} :
    Whole ⟨text, (br, next) :: rest⟩ ↔
      text.Unbroken ∧ (br = .cr → leadingBreak? ⟨next, rest⟩ ≠ some .lf) ∧
        Whole ⟨next, rest⟩ := by
  constructor
  · intro hwhole
    obtain ⟨hunbroken, hrest⟩ := List.forall_mem_cons.mp hwhole.unbroken
    refine ⟨hunbroken, ?_, hrest, fun index => hwhole.paired (index + 1)⟩
    rintro rfl hleading
    obtain ⟨hempty, hlf⟩ := leadingBreak?_eq_some_iff.mp hleading
    exact hwhole.paired 0 rfl hempty hlf
  · rintro ⟨hunbroken, hpaired, hrest⟩
    refine ⟨List.forall_mem_cons.mpr ⟨hunbroken, hrest.unbroken⟩, fun index => ?_⟩
    cases index with
    | zero =>
        intro hcr hempty hlf
        exact hpaired (Option.some.inj hcr) (leadingBreak?_eq_some_iff.mpr ⟨hempty, hlf⟩)
    | succ index => exact hrest.paired index

theorem exact_iff_whole {pieces : Pieces} : pieces.Exact ↔ pieces.Whole := by
  constructor
  · intro hexact
    induction hexact with
    | last hunbroken => exact whole_last.mpr hunbroken
    | cons hunbroken hpaired _ ih => exact whole_cons.mpr ⟨hunbroken, hpaired, ih⟩
  · obtain ⟨first, rest⟩ := pieces
    intro hwhole
    induction rest generalizing first with
    | nil => exact .last (whole_last.mp hwhole)
    | cons piece rest ih =>
        obtain ⟨hunbroken, hpaired, hrest⟩ := whole_cons.mp hwhole
        exact .cons hunbroken hpaired (ih piece.2 hrest)

end Pieces

namespace Text

def EndsInBreak (text : Text) : Prop :=
  text.getLast? = some '\r' ∨ text.getLast? = some '\n'

instance (text : Text) : Decidable text.EndsInBreak :=
  inferInstanceAs (Decidable (_ ∨ _))

theorem endsInBreak_append_break (text : Text) (br : Break) :
    EndsInBreak (text ++ br.text) := by
  cases br <;> simp [EndsInBreak, Break.text]

theorem endsInBreak_append {text : Text} (hne : text ≠ []) (before : Text) :
    EndsInBreak (before ++ text) ↔ text.EndsInBreak := by
  rw [EndsInBreak, EndsInBreak, List.getLast?_append_of_ne_nil _ hne]

theorem Unbroken.not_endsInBreak {text : Text} (hunbroken : text.Unbroken) :
    ¬ text.EndsInBreak := by
  rintro (hcr | hlf)
  · exact hunbroken.getLast?_ne hcr
  · exact (hunbroken '\n' (List.mem_of_getLast? hlf)).2 rfl

end Text

/-- An empty piece comes last where nothing is cut, or behind a final break. -/
theorem Pieces.Exact.getLast?_texts {pieces : Pieces} (hexact : pieces.Exact) :
    pieces.texts.getLast? = some [] ↔ pieces.source = [] ∨ pieces.source.EndsInBreak := by
  induction hexact with
  | @last text hunbroken =>
      rw [source_last, or_iff_left hunbroken.not_endsInBreak]
      simp [texts]
  | @cons text next br rest _ _ _ ih =>
      have htexts : texts ⟨text, (br, next) :: rest⟩ = text :: texts ⟨next, rest⟩ := rfl
      have hlast : (text :: texts ⟨next, rest⟩).getLast? = (texts ⟨next, rest⟩).getLast? := rfl
      have hne : text ++ (br.text ++ source ⟨next, rest⟩) ≠ [] := by
        cases br <;> simp [Break.text]
      rw [htexts, hlast, ih, source_cons_rest, or_iff_right hne, ← List.append_assoc]
      by_cases hempty : source ⟨next, rest⟩ = []
      · rw [hempty, List.append_nil]
        exact iff_of_true (.inl rfl) (Text.endsInBreak_append_break text br)
      · rw [or_iff_right hempty, Text.endsInBreak_append hempty]

namespace Text

theorem getLast?_splitBreaks {text : Text} :
    text.splitBreaks.getLast? = some [] ↔ text = [] ∨ text.EndsInBreak := by
  have hlast := (Pieces.exact_ofText text).getLast?_texts
  rwa [Pieces.source_ofText] at hlast

theorem EndsInBreak.splitBreaks_eq {text : Text} (hends : text.EndsInBreak) :
    text.splitBreaks = text.lines ++ [[]] := by
  have hlast : text.splitBreaks.getLast? = some [] := getLast?_splitBreaks.mpr (.inr hends)
  have hlines : text.lines = text.splitBreaks.dropLast := by
    rw [lines_eq]
    exact if_pos hlast
  rw [hlines]
  exact (List.dropLast_append_getLast? [] hlast).symm

theorem lines_eq_splitBreaks {text : Text} (hne : text ≠ []) (hends : ¬ text.EndsInBreak) :
    text.lines = text.splitBreaks := by
  have hlast : text.splitBreaks.getLast? ≠ some [] :=
    fun hlast => (getLast?_splitBreaks.mp hlast).elim hne hends
  rw [lines_eq]
  exact if_neg hlast

theorem splitBreaks_lossless :
    (∀ text : Text, ∃ pieces : Pieces,
      pieces.texts = text.splitBreaks ∧ pieces.source = text ∧ pieces.Whole ∧
        ∀ other : Pieces, other.source = text → other.Whole → other = pieces) ∧
    lines [] = [] ∧
    (∀ text : Text, text.EndsInBreak → text.splitBreaks = text.lines ++ [[]]) ∧
    (∀ text : Text, text ≠ [] → ¬ text.EndsInBreak → text.lines = text.splitBreaks) ∧
    ∀ ended : List (Text × Break), (∀ line ∈ ended, line.1.Unbroken) → Unpaired ended [] →
      lines (joinLines ended) = ended.map (·.1) := by
  refine ⟨fun text => ?_, rfl, fun _ hends => hends.splitBreaks_eq,
    fun _ hne hends => lines_eq_splitBreaks hne hends, fun ended hended hunpaired => ?_⟩
  · refine ⟨Pieces.ofText text, rfl, Pieces.source_ofText text,
      Pieces.exact_iff_whole.mp (Pieces.exact_ofText text), fun other hsource hwhole => ?_⟩
    exact (Pieces.ofText_eq_iff.mpr ⟨Pieces.exact_iff_whole.mpr hwhole, hsource⟩).symm
  · have hlines := lines_joinLines_of_unpaired hended hunpaired
    rwa [List.append_nil, lines_nil, List.append_nil] at hlines

/-- A CR in front of a pair is a break of its own, and so is an LF behind one. -/
theorem splitBreaks_lossless_mixed :
    splitBreaks "a\r\r\nb\r\n\n".toList = lines "a\r\r\nb\r\n\n".toList ++ [[]] ∧
    lines "a\n\rb".toList = splitBreaks "a\n\rb".toList ∧
    lines (joinLines [("a".toList, .cr), ([], .crlf), ("b".toList, .crlf), ([], .lf)]) =
      ["a".toList, [], "b".toList, []] ∧
    ∃ pieces : Pieces, pieces.texts = splitBreaks "a\r\r\nb".toList ∧
      pieces = ⟨"a".toList, [(.cr, []), (.crlf, "b".toList)]⟩ := by
  obtain ⟨hpieces, _, hended, hunended, hjoined⟩ := splitBreaks_lossless
  refine ⟨hended _ (by decide), hunended _ (by decide) (by decide),
    hjoined _ (by decide) (by decide), ?_⟩
  obtain ⟨pieces, htexts, _, _, hunique⟩ := hpieces "a\r\r\nb".toList
  refine ⟨pieces, htexts, (hunique _ (by decide) ?_).symm⟩
  exact Pieces.whole_cons.mpr ⟨by decide, by decide,
    Pieces.whole_cons.mpr ⟨by decide, by decide, Pieces.whole_last.mpr (by decide)⟩⟩

end Text

end GrammarListing
