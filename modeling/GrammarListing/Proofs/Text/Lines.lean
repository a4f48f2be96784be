import GrammarListing.Text.Basic
import Mathlib.Data.List.Chain
namespace GrammarListing

/-! Cutting at breaks is exact.  Pieces without a break inside, put together with breaks of which
no CR meets a lone LF, are cut back into the same pieces; and the lines of a text are its pieces
but for an empty last one. -/

namespace Text

def Unbroken (text : Text) : Prop :=
  ∀ c ∈ text, c ≠ '\r' ∧ c ≠ '\n'

instance (text : Text) : Decidable text.Unbroken :=
  List.decidableBAll _ text

@[simp] theorem unbroken_nil : Unbroken [] := by
  simp [Unbroken]

theorem unbroken_cons {c : Char} {text : Text} :
    Unbroken (c :: text) ↔ (c ≠ '\r' ∧ c ≠ '\n') ∧ text.Unbroken :=
  List.forall_mem_cons

theorem unbroken_append {first second : Text} :
    Unbroken (first ++ second) ↔ first.Unbroken ∧ second.Unbroken :=
  List.forall_mem_append

theorem unbroken_replicate {c : Char} (hc : c ≠ '\r' ∧ c ≠ '\n') (count : Nat) :
    Unbroken (List.replicate count c) := by
  intro other hother
  rwa [List.eq_of_mem_replicate hother]

end Text

namespace Pieces

def leadingBreak? (pieces : Pieces) : Option Break :=
  if pieces.first = [] then pieces.rest.head?.map (·.1) else none

/-- Pieces as cutting leaves them: none holds a break, and a CR that meets an LF makes a pair
with it. -/
inductive Exact : Pieces → Prop
  | last {text : Text} (hunbroken : text.Unbroken) : Exact ⟨text, []⟩
  | cons {text next : Text} {br : Break} {rest : List (Break × Text)}
      (hunbroken : text.Unbroken)
      (hpaired : br = .cr → leadingBreak? ⟨next, rest⟩ ≠ some .lf)
      (hrest : Exact ⟨next, rest⟩) :
      Exact ⟨text, (br, next) :: rest⟩

theorem source_last (text : Text) : source ⟨text, []⟩ = text := by
  simp [source]

theorem source_cons_rest (text next : Text) (br : Break) (rest : List (Break × Text)) :
    source ⟨text, (br, next) :: rest⟩ = text ++ (br.text ++ source ⟨next, rest⟩) := by
  simp [source]

theorem cons_lf (pieces : Pieces) :
    cons '\n' pieces = ⟨[], (.lf, pieces.first) :: pieces.rest⟩ := by
  simp [cons]

theorem cons_of_ne {c : Char} (hc : c ≠ '\r' ∧ c ≠ '\n') (pieces : Pieces) :
    cons c pieces = ⟨c :: pieces.first, pieces.rest⟩ := by
  simp [cons, hc.1, hc.2]

theorem cons_cr_lf (next : Text) (rest : List (Break × Text)) :
    cons '\r' ⟨[], (.lf, next) :: rest⟩ = ⟨[], (.crlf, next) :: rest⟩ :=
  rfl

theorem cons_cr {pieces : Pieces} (halone : pieces.leadingBreak? ≠ some .lf) :
    cons '\r' pieces = ⟨[], (.cr, pieces.first) :: pieces.rest⟩ := by
  simp only [cons, Char.reduceEq, if_false, if_true]
  split
  · next next rest => exact absurd rfl halone
  · rfl

theorem eq_of_leadingBreak?_eq_some {pieces : Pieces} {br : Break}
    (hleading : pieces.leadingBreak? = some br) :
    ∃ next rest, pieces = ⟨[], (br, next) :: rest⟩ := by
  obtain ⟨first, rest⟩ := pieces
  unfold leadingBreak? at hleading
  split at hleading
  · next hfirst =>
      subst hfirst
      obtain ⟨⟨_, next⟩, hhead, rfl⟩ := Option.map_eq_some_iff.mp hleading
      obtain ⟨later, rfl⟩ := List.head?_eq_some_iff.mp hhead
      exact ⟨next, later, rfl⟩
  · cases hleading

/-- A property of what one more character in front makes holds if it holds in each way of
putting the character there. -/
theorem cons_cases {motive : Char → Pieces → Pieces → Prop}
    (hlf : ∀ pieces, motive '\n' pieces ⟨[], (.lf, pieces.first) :: pieces.rest⟩)
    (hcrlf : ∀ next rest,
      motive '\r' ⟨[], (.lf, next) :: rest⟩ ⟨[], (.crlf, next) :: rest⟩)
    (hcr : ∀ pieces, pieces.leadingBreak? ≠ some .lf →
      motive '\r' pieces ⟨[], (.cr, pieces.first) :: pieces.rest⟩)
    (hother : ∀ c pieces, c ≠ '\r' ∧ c ≠ '\n' →
      motive c pieces ⟨c :: pieces.first, pieces.rest⟩)
    (c : Char) (pieces : Pieces) : motive c pieces (cons c pieces) := by
  by_cases hclf : c = '\n'
  · subst hclf
    rw [cons_lf]
    exact hlf pieces
  by_cases hccr : c = '\r'
  · subst hccr
    by_cases hleading : pieces.leadingBreak? = some .lf
    · obtain ⟨next, rest, rfl⟩ := eq_of_leadingBreak?_eq_some hleading
      rw [cons_cr_lf]
      exact hcrlf next rest
    · rw [cons_cr hleading]
      exact hcr pieces hleading
  · rw [cons_of_ne ⟨hccr, hclf⟩]
    exact hother c pieces ⟨hccr, hclf⟩

@[simp] theorem source_cons (c : Char) (pieces : Pieces) :
    (cons c pieces).source = c :: pieces.source := by
  refine cons_cases (motive := fun c pieces result => result.source = c :: pieces.source)
    ?_ ?_ ?_ ?_ c pieces <;> intros <;> simp [source, Break.text]

@[simp] theorem source_ofText (text : Text) : (ofText text).source = text := by
  induction text with
  | nil => rfl
  | cons c text ih => rw [ofText_cons, source_cons, ih]

theorem Exact.cons_char {pieces : Pieces} (hexact : pieces.Exact) (c : Char) :
    (Pieces.cons c pieces).Exact := by
  refine cons_cases (motive := fun _ pieces result => pieces.Exact → result.Exact)
    ?_ ?_ ?_ ?_ c pieces hexact
  · intro pieces hexact
    exact .cons Text.unbroken_nil (by simp) hexact
  · intro next rest hexact
    cases hexact with
    | cons _ _ hrest => exact .cons Text.unbroken_nil (by simp) hrest
  · intro pieces halone hexact
    exact .cons Text.unbroken_nil (fun _ => halone) hexact
  · intro c pieces hc hexact
    cases hexact with
    | last hunbroken => exact .last (Text.unbroken_cons.mpr ⟨hc, hunbroken⟩)
    | cons hunbroken hpaired hrest =>
        exact .cons (Text.unbroken_cons.mpr ⟨hc, hunbroken⟩) hpaired hrest

theorem exact_ofText (text : Text) : (ofText text).Exact := by
  induction text with
  | nil => exact .last Text.unbroken_nil
  | cons c text ih => exact ih.cons_char c

theorem ofText_unbroken_append {text : Text} (hunbroken : text.Unbroken) (rest : Text) :
    ofText (text ++ rest) = ⟨text ++ (ofText rest).first, (ofText rest).rest⟩ := by
  induction text with
  | nil => rfl
  | cons c text ih =>
      obtain ⟨hc, htext⟩ := Text.unbroken_cons.mp hunbroken
      rw [List.cons_append, ofText_cons, ih htext, cons_of_ne hc]
      rfl

theorem ofText_break_append {br : Break} {rest : Text}
    (hpaired : br = .cr → (ofText rest).leadingBreak? ≠ some .lf) :
    ofText (br.text ++ rest) = ⟨[], (br, (ofText rest).first) :: (ofText rest).rest⟩ := by
  cases br with
  | crlf => rfl
  | cr => exact cons_cr (hpaired rfl)
  | lf => rfl

theorem Exact.ofText_source {pieces : Pieces} (hexact : pieces.Exact) :
    ofText pieces.source = pieces := by
  induction hexact with
  | last hunbroken =>
      rw [source_last]
      simpa using ofText_unbroken_append hunbroken []
  | @cons text next br rest hunbroken hpaired _ ih =>
      rw [source_cons_rest, ofText_unbroken_append hunbroken,
        ofText_break_append (by rwa [ih]), ih, List.append_nil]

theorem ofText_eq_iff {text : Text} {pieces : Pieces} :
    ofText text = pieces ↔ pieces.Exact ∧ pieces.source = text := by
  constructor
  · rintro rfl
    exact ⟨exact_ofText text, source_ofText text⟩
  · rintro ⟨hexact, rfl⟩
    exact hexact.ofText_source

theorem Exact.unbroken {pieces : Pieces} (hexact : pieces.Exact) :
    ∀ text ∈ pieces.texts, text.Unbroken := by
  induction hexact with
  | last hunbroken => simpa [texts] using hunbroken
  | cons hunbroken _ _ ih => exact List.forall_mem_cons.mpr ⟨hunbroken, ih⟩

def lines (pieces : Pieces) : List Text :=
  if pieces.texts.getLast? = some [] then pieces.texts.dropLast else pieces.texts

theorem lines_empty : lines ⟨[], []⟩ = [] :=
  rfl

theorem lines_last {text : Text} (hne : text ≠ []) : lines ⟨text, []⟩ = [text] := by
  simp [lines, texts, hne]

theorem lines_cons (text next : Text) (br : Break) (rest : List (Break × Text)) :
    lines ⟨text, (br, next) :: rest⟩ = text :: lines ⟨next, rest⟩ := by
  simp only [lines, texts, List.map_cons, List.getLast?_cons_cons, List.dropLast_cons_cons]
  exact (apply_ite (text :: ·) _ _ _).symm

theorem mem_texts_of_mem_lines {pieces : Pieces} {line : Text} (hline : line ∈ pieces.lines) :
    line ∈ pieces.texts := by
  unfold lines at hline
  split at hline
  · exact List.dropLast_subset _ hline
  · exact hline

theorem Exact.unbroken_lines {pieces : Pieces} (hexact : pieces.Exact) :
    ∀ line ∈ pieces.lines, line.Unbroken :=
  fun line hline => hexact.unbroken line (mem_texts_of_mem_lines hline)

end Pieces

theorem Break.eq_cr_of_getLast? {text : Text} {br : Break}
    (hlast : (text ++ br.text).getLast? = some '\r') : br = .cr := by
  cases br <;> simp [Break.text] at hlast ⊢

namespace Text

theorem dropFinalBreak_crlf (text : Text) : dropFinalBreak (text ++ ['\r', '\n']) = text := by
  simp [dropFinalBreak]

theorem dropFinalBreak_cr (text : Text) : dropFinalBreak (text ++ ['\r']) = text := by
  simp [dropFinalBreak]

theorem dropFinalBreak_lf {text : Text} (halone : text.getLast? ≠ some '\r') :
    dropFinalBreak (text ++ ['\n']) = text := by
  have hreverse : (text ++ ['\n']).reverse = '\n' :: text.reverse := by simp
  rw [dropFinalBreak, hreverse]
  split
  · next body hbody =>
      rw [List.cons.injEq] at hbody
      rw [List.getLast?_eq_head?_reverse, hbody.2] at halone
      exact absurd rfl halone
  · next body _ hbody =>
      rw [← (List.cons.inj hbody).2, List.reverse_reverse]
  · next body hbody => exact absurd (List.cons.inj hbody).1 (by decide)
  · next hlf _ => exact absurd rfl (hlf text.reverse)

theorem dropFinalBreak_of_ne {c : Char} (hc : c ≠ '\r' ∧ c ≠ '\n') (text : Text) :
    dropFinalBreak (text ++ [c]) = text ++ [c] := by
  have hreverse : (text ++ [c]).reverse = c :: text.reverse := by simp
  rw [dropFinalBreak, hreverse]
  split
  · next body hbody => exact absurd (List.cons.inj hbody).1 hc.2
  · next body _ hbody => exact absurd (List.cons.inj hbody).1 hc.2
  · next body hbody => exact absurd (List.cons.inj hbody).1 hc.1
  · rfl

theorem Unbroken.getLast?_ne {text : Text} (hunbroken : text.Unbroken) :
    text.getLast? ≠ some '\r' :=
  fun hlast => absurd rfl (hunbroken '\r' (List.mem_of_getLast? hlast)).1

theorem Unbroken.dropFinalBreak {text : Text} (hunbroken : text.Unbroken) :
    text.dropFinalBreak = text := by
  rcases List.eq_nil_or_concat' text with rfl | ⟨before, c, rfl⟩
  · rfl
  · exact dropFinalBreak_of_ne (hunbroken c (by simp)) before

theorem Unbroken.dropFinalBreak_append_break {text : Text} (hunbroken : text.Unbroken)
    (br : Break) : Text.dropFinalBreak (text ++ br.text) = text := by
  cases br with
  | crlf => exact dropFinalBreak_crlf text
  | cr => exact dropFinalBreak_cr text
  | lf => exact dropFinalBreak_lf hunbroken.getLast?_ne

theorem dropFinalBreak_append {before text : Text} (hne : text ≠ [])
    (hpaired : text = ['\n'] → before.getLast? ≠ some '\r') :
    dropFinalBreak (before ++ text) = before ++ text.dropFinalBreak := by
  rcases List.eq_nil_or_concat' text with rfl | ⟨front, c, rfl⟩
  · exact absurd rfl hne
  by_cases hcr : c = '\r'
  · subst hcr
    rw [← List.append_assoc, dropFinalBreak_cr, dropFinalBreak_cr]
  by_cases hlf : c = '\n'
  · subst hlf
    rcases List.eq_nil_or_concat' front with rfl | ⟨front, d, rfl⟩
    · rw [List.nil_append, dropFinalBreak_lf (hpaired rfl)]
      exact (List.append_nil before).symm
    by_cases hpair : d = '\r'
    · subst hpair
      rw [List.append_assoc front, ← List.append_assoc]
      exact (dropFinalBreak_crlf _).trans (congrArg (before ++ ·) (dropFinalBreak_crlf _).symm)
    · have hlast : ∀ front : Text, (front ++ [d]).getLast? ≠ some '\r' := by
        intro front
        simpa using hpair
      rw [← List.append_assoc, dropFinalBreak_lf (hlast front), ← List.append_assoc,
        dropFinalBreak_lf (hlast (before ++ front))]
  · rw [← List.append_assoc, dropFinalBreak_of_ne ⟨hcr, hlf⟩, dropFinalBreak_of_ne ⟨hcr, hlf⟩]
    exact List.append_assoc before front [c]

end Text

namespace Pieces

theorem Exact.leadingBreak?_of_source {pieces : Pieces} (hexact : pieces.Exact)
    (hsource : pieces.source = ['\n']) : pieces.leadingBreak? = some .lf := by
  rw [← hexact.ofText_source, hsource]
  rfl

theorem Exact.exists_dropFinalBreak {pieces : Pieces} (hexact : pieces.Exact)
    (hne : pieces.source ≠ []) :
    ∃ kept : Pieces, kept.Exact ∧ kept.source = pieces.source.dropFinalBreak ∧
      kept.texts = pieces.lines ∧
      (kept.leadingBreak? = some .lf → pieces.leadingBreak? = some .lf) := by
  -- The last part is for the break before the pieces: a CR stays alone when it was alone.
  induction hexact with
  | @last text hunbroken =>
      rw [source_last] at hne ⊢
      exact ⟨⟨text, []⟩, .last hunbroken, by rw [source_last, hunbroken.dropFinalBreak],
        (lines_last hne).symm, id⟩
  | @cons text next br rest hunbroken hpaired hrest ih =>
      rw [source_cons_rest, ← List.append_assoc]
      by_cases hempty : source ⟨next, rest⟩ = []
      · have hnext : (⟨next, rest⟩ : Pieces) = ⟨[], []⟩ := by
          rw [← hrest.ofText_source, hempty, ofText_nil]
        obtain ⟨rfl, rfl⟩ := Pieces.mk.inj hnext
        refine ⟨⟨text, []⟩, .last hunbroken, ?_, ?_, ?_⟩
        · rw [source_last, hempty, List.append_nil, hunbroken.dropFinalBreak_append_break]
        · rw [lines_cons, lines_empty]
          rfl
        · simp [leadingBreak?]
      · obtain ⟨kept, hkept, hsource, htexts, hleading⟩ := ih hempty
        refine ⟨⟨text, (br, kept.first) :: kept.rest⟩, .cons hunbroken ?_ hkept, ?_, ?_, ?_⟩
        · exact fun hcr hlf => hpaired hcr (hleading hlf)
        · rw [source_cons_rest, hsource, Text.dropFinalBreak_append hempty, List.append_assoc]
          intro hlf hlast
          exact hpaired (Break.eq_cr_of_getLast? hlast) (hrest.leadingBreak?_of_source hlf)
        · rw [lines_cons, ← htexts]
          rfl
        · simp [leadingBreak?]

end Pieces

namespace Text

theorem lines_of_ne_nil {text : Text} (hne : text ≠ []) :
    text.lines = splitBreaks text.dropFinalBreak := by
  cases text with
  | nil => exact absurd rfl hne
  | cons c text => rfl

theorem lines_eq (text : Text) : text.lines = (Pieces.ofText text).lines := by
  by_cases hne : text = []
  · subst hne
    rfl
  · have hsource := Pieces.source_ofText text
    obtain ⟨kept, hkept, hdrop, htexts, _⟩ :=
      (Pieces.exact_ofText text).exists_dropFinalBreak (by rwa [hsource])
    rw [hsource] at hdrop
    rw [lines_of_ne_nil hne, splitBreaks, ← hdrop, hkept.ofText_source, htexts]

/-- Texts that are the lines of a text: free of breaks, they make it up when each of them, but
perhaps not the last one, is ended by a break. -/
def HasLines (text : Text) (lines : List Text) : Prop :=
  ∃ pieces : Pieces, pieces.Exact ∧ pieces.source = text ∧ pieces.lines = lines

theorem hasLines_iff {text : Text} {lines : List Text} :
    text.HasLines lines ↔ lines = text.lines := by
  rw [lines_eq]
  constructor
  · rintro ⟨pieces, hexact, hsource, rfl⟩
    rw [Pieces.ofText_eq_iff.mpr ⟨hexact, hsource⟩]
  · rintro rfl
    obtain ⟨hexact, hsource⟩ := Pieces.ofText_eq_iff.mp (Eq.refl (Pieces.ofText text))
    exact ⟨Pieces.ofText text, hexact, hsource, rfl⟩

theorem unbroken_of_mem_lines {text line : Text} (hline : line ∈ text.lines) :
    line.Unbroken := by
  rw [lines_eq] at hline
  exact (Pieces.exact_ofText text).unbroken_lines line hline

end Text

namespace Pieces

theorem head?_source_of_leadingBreak? {pieces : Pieces}
    (hleading : pieces.leadingBreak? = some .lf) : pieces.source.head? = some '\n' := by
  obtain ⟨next, rest, rfl⟩ := eq_of_leadingBreak?_eq_some hleading
  rw [source_cons_rest]
  rfl

theorem Exact.leadingBreak?_of_head? {pieces : Pieces} (hexact : pieces.Exact)
    (hhead : pieces.source.head? = some '\n') : pieces.leadingBreak? = some .lf := by
  cases hexact with
  | last hunbroken =>
      rw [source_last] at hhead
      exact absurd rfl (hunbroken '\n' (List.mem_of_head? hhead)).2
  | @cons text next br rest hunbroken _ _ =>
      rw [source_cons_rest] at hhead
      cases text with
      | nil => cases br <;> simp [Break.text, leadingBreak?] at hhead ⊢
      | cons c text =>
          cases hhead
          exact absurd rfl (hunbroken '\n' List.mem_cons_self).2

end Pieces

namespace Text

theorem Unbroken.lines_eq {line : Text} (hunbroken : line.Unbroken) (hne : line ≠ []) :
    line.lines = [line] := by
  have hpieces := Pieces.ofText_unbroken_append hunbroken []
  simp only [List.append_nil, Pieces.ofText_nil] at hpieces
  rw [Text.lines_eq, hpieces, Pieces.lines_last hne]

theorem Unbroken.head?_ne {text : Text} (hunbroken : text.Unbroken) :
    text.head? ≠ some '\n' :=
  fun hhead => (hunbroken '\n' (List.mem_of_head? hhead)).2 rfl

theorem Unbroken.lines_append {line rest : Text} {br : Break} (hunbroken : line.Unbroken)
    (hpaired : br = .cr → rest.head? ≠ some '\n') :
    lines (line ++ (br.text ++ rest)) = line :: rest.lines := by
  have hbreak : br = .cr → (Pieces.ofText rest).leadingBreak? ≠ some .lf :=
    fun hcr hleading =>
      hpaired hcr (Pieces.source_ofText rest ▸ Pieces.head?_source_of_leadingBreak? hleading)
  rw [Text.lines_eq, Pieces.ofText_unbroken_append hunbroken, Pieces.ofText_break_append hbreak,
    List.append_nil, Pieces.lines_cons, ← Text.lines_eq]

/-- A text ends where a line ends, and makes no pair of CR and LF with what follows it. -/
structure Seam (before after : Text) : Prop where
  ended : before = [] ∨ before.getLast? = some '\r' ∨ before.getLast? = some '\n'
  unpaired : before.getLast? = some '\r' → after.head? ≠ some '\n'

theorem Seam.of_append {front before after : Text} (hseam : Seam (front ++ before) after) :
    Seam before after := by
  by_cases hempty : before = []
  · subst hempty
    exact ⟨.inl rfl, fun hlast => by cases hlast⟩
  · have hlast : (front ++ before).getLast? = before.getLast? :=
      List.getLast?_append_of_ne_nil front hempty
    obtain ⟨hended, hunpaired⟩ := hseam
    rw [hlast] at hended hunpaired
    exact ⟨.inr (hended.resolve_left (List.append_ne_nil_of_right_ne_nil front hempty)), hunpaired⟩

theorem lines_source_append {pieces : Pieces} (hexact : pieces.Exact) {after : Text}
    (hseam : Seam pieces.source after) :
    lines (pieces.source ++ after) = pieces.lines ++ after.lines := by
  -- A break of the pieces meets what follows them only if it is the last one.
  induction hexact with
  | @last text hunbroken =>
      rw [Pieces.source_last] at hseam ⊢
      rcases hseam.ended with rfl | hcr | hlf
      · rfl
      · exact absurd hcr hunbroken.getLast?_ne
      · exact absurd rfl (hunbroken '\n' (List.mem_of_getLast? hlf)).2
  | @cons text next br rest hunbroken hpaired hrest ih =>
      rw [Pieces.source_cons_rest] at hseam ⊢
      have hrestSeam : Seam (Pieces.source ⟨next, rest⟩) after := hseam.of_append.of_append
      have hbreak : br = .cr → (Pieces.source ⟨next, rest⟩ ++ after).head? ≠ some '\n' := by
        intro hcr hhead
        by_cases hempty : Pieces.source ⟨next, rest⟩ = []
        · rw [hempty] at hseam hhead
          exact hseam.unpaired (by simp [hcr, Break.text]) hhead
        · rw [List.head?_append_of_ne_nil _ hempty] at hhead
          exact hpaired hcr (hrest.leadingBreak?_of_head? hhead)
      rw [List.append_assoc, List.append_assoc, hunbroken.lines_append hbreak, ih hrestSeam,
        Pieces.lines_cons, List.cons_append]

theorem Seam.lines_append {before after : Text} (hseam : Seam before after) :
    lines (before ++ after) = before.lines ++ after.lines := by
  have hsource := Pieces.source_ofText before
  have happend := lines_source_append (Pieces.exact_ofText before) (by rwa [hsource])
  rwa [hsource, ← lines_eq] at happend

theorem joinLines_cons (line : Text × Break) (ended : List (Text × Break)) :
    joinLines (line :: ended) = line.1 ++ (line.2.text ++ joinLines ended) := by
  rw [joinLines, List.flatMap_cons, List.append_assoc]
  rfl

/-- No line that is ended by a CR alone has an LF right behind it. -/
def Unpaired : List (Text × Break) → Text → Prop
  | [], _ => True
  | (_, br) :: ended, last =>
      (br = .cr → (joinLines ended ++ last).head? ≠ some '\n') ∧ Unpaired ended last

instance decidableUnpaired :
    (ended : List (Text × Break)) → (last : Text) → Decidable (Unpaired ended last)
  | [], _ => .isTrue trivial
  | (_, _) :: ended, last =>
      have := decidableUnpaired ended last
      inferInstanceAs (Decidable (_ ∧ _))

theorem lines_joinLines_of_unpaired {ended : List (Text × Break)} {last : Text}
    (hended : ∀ line ∈ ended, line.1.Unbroken) (hunpaired : Unpaired ended last) :
    lines (joinLines ended ++ last) = ended.map (·.1) ++ last.lines := by
  induction ended with
  | nil => rfl
  | cons line ended ih =>
      obtain ⟨hunbroken, hrest⟩ := List.forall_mem_cons.mp hended
      rw [joinLines_cons, List.append_assoc, List.append_assoc,
        hunbroken.lines_append hunpaired.1, ih hrest hunpaired.2]
      rfl

theorem unpaired_of_ne_nil {ended : List (Text × Break)}
    (hended : ∀ line ∈ ended, line.1.Unbroken ∧ line.1 ≠ []) {last : Text}
    (hlast : last.head? ≠ some '\n') : Unpaired ended last := by
  induction ended with
  | nil => exact trivial
  | cons line ended ih =>
      obtain ⟨_, hrest⟩ := List.forall_mem_cons.mp hended
      refine ⟨fun _ => ?_, ih hrest⟩
      cases ended with
      | nil => exact hlast
      | cons next ended =>
          obtain ⟨⟨hnext, hne⟩, _⟩ := List.forall_mem_cons.mp hrest
          rw [joinLines_cons, List.append_assoc, List.head?_append_of_ne_nil _ hne]
          exact hnext.head?_ne

theorem lines_joinLines_append {ended : List (Text × Break)}
    (hended : ∀ line ∈ ended, line.1.Unbroken ∧ line.1 ≠ []) {last : Text}
    (hlast : last.head? ≠ some '\n') :
    lines (joinLines ended ++ last) = ended.map (·.1) ++ last.lines :=
  lines_joinLines_of_unpaired (fun line hline => (hended line hline).1)
    (unpaired_of_ne_nil hended hlast)

theorem lines_flatMap {lines : List Text} (hlines : ∀ line ∈ lines, line.Unbroken ∧ line ≠ []) :
    Text.lines (lines.flatMap (· ++ ['\n'])) = lines := by
  have hended : ∀ line ∈ lines.map (·, Break.lf), Unbroken line.1 ∧ line.1 ≠ [] :=
    List.forall_mem_map.mpr hlines
  have hjoin : lines.flatMap (· ++ ['\n']) = joinLines (lines.map (·, Break.lf)) ++ [] := by
    rw [List.append_nil, joinLines, List.flatMap_map]
    rfl
  rw [hjoin, lines_joinLines_append hended (by simp), List.map_map]
  simp [Function.comp_def]

end Text

end GrammarListing
