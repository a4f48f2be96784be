import GrammarListing.Proofs.Rule.Extraction
import Mathlib.Computability.Language
import Mathlib.Order.Bounds.Basic
import Mathlib.Order.Nat
namespace GrammarListing.Text

open scoped Computability

/-! Recognition is a search from the left for an expression: two slashes and a white character, and
a delimiter farther on in the rest of the text, which holds no line feed.  Of the places where the
expression matches, the first is found. -/

def single (property : Char → Prop) : Language Char :=
  {text | ∃ c, property c ∧ text = [c]}

/-- The texts of the expression `//\s.*::=.*`, in which a dot is any character but a line feed. -/
def ruleComments : Language Char :=
  {['/', '/']} * single (isWhite ·) * (single (· ≠ '\n'))∗ * {delimiter} * (single (· ≠ '\n'))∗

theorem mem_kstar_single {property : Char → Prop} {text : Text} :
    text ∈ (single property)∗ ↔ ∀ c ∈ text, property c := by
  rw [Language.mem_kstar]
  constructor
  · intro hstar c hc
    obtain ⟨pieces, rfl, hpieces⟩ := hstar
    obtain ⟨piece, hpiece, hmem⟩ := List.mem_flatten.mp hc
    obtain ⟨other, hother, rfl⟩ := hpieces piece hpiece
    rwa [List.mem_singleton.mp hmem]
  · intro htext
    refine ⟨text.map fun c => [c], (List.flatMap_singleton' text).symm, fun piece hpiece => ?_⟩
    obtain ⟨c, hc, rfl⟩ := List.mem_map.mp hpiece
    exact ⟨c, htext c hc, rfl⟩

theorem mem_kstar_single_ne {c : Char} {text : Text} :
    text ∈ (single (· ≠ c))∗ ↔ c ∉ text := by
  rw [mem_kstar_single]
  constructor
  · intro hne hmem
    exact hne c hmem rfl
  · intro habsent other hother heq
    subst heq
    exact habsent hother

theorem mem_ruleComments_iff {text : Text} :
    text ∈ ruleComments ↔
      ∃ white before after, isWhite white ∧ '\n' ∉ before ∧ '\n' ∉ after ∧
        text = '/' :: '/' :: white :: (before ++ delimiter ++ after) := by
  simp only [ruleComments, Language.mem_mul, mem_kstar_single_ne]
  constructor
  · rintro ⟨_, ⟨_, ⟨_, ⟨_, rfl, _, ⟨white, hwhite, rfl⟩, rfl⟩, before, hbefore, rfl⟩, _, rfl, rfl⟩,
      after, hafter, rfl⟩
    refine ⟨white, before, after, hwhite, hbefore, hafter, ?_⟩
    simp
  · rintro ⟨white, before, after, hwhite, hbefore, hafter, rfl⟩
    refine ⟨_, ⟨_, ⟨_, ⟨_, rfl, _, ⟨white, hwhite, rfl⟩, rfl⟩, before, hbefore, rfl⟩, _, rfl, rfl⟩,
      after, hafter, ?_⟩
    simp

theorem opensRuleComment_iff_mem {text : Text} :
    text.opensRuleComment ↔ text ∈ ruleComments := by
  rw [opensRuleComment_iff, mem_ruleComments_iff]
  constructor
  · intro hopens
    obtain ⟨white, body, hwhite, rfl, hdelimiter, hline⟩ := hopens
    obtain ⟨before, after, rfl⟩ := exists_delimiterAt_iff_infix.mp hdelimiter
    rw [List.mem_append, List.mem_append, not_or, not_or] at hline
    exact ⟨white, before, after, hwhite, hline.1.1, hline.2, rfl⟩
  · intro hmem
    obtain ⟨white, before, after, hwhite, hbefore, hafter, rfl⟩ := hmem
    refine ⟨white, _, hwhite, rfl, exists_delimiterAt_iff_infix.mpr ⟨before, after, rfl⟩, ?_⟩
    rw [List.mem_append, List.mem_append, not_or, not_or]
    exact ⟨⟨hbefore, by decide⟩, hafter⟩

theorem ruleCommentAt_iff_mem {text : Text} {index : Nat} :
    text.RuleCommentAt index ↔ text.drop index ∈ ruleComments :=
  opensRuleComment_drop_iff.symm.trans opensRuleComment_iff_mem

theorem firstAt_iff_isLeast {found : Text → Prop} {text : Text} {index : Nat} :
    text.FirstAt found index ↔ IsLeast {place | found (text.drop place)} index := by
  constructor
  · intro hfirst
    refine ⟨hfirst.holds, fun place hplace => ?_⟩
    exact Nat.le_of_not_lt fun hlt => hfirst.first place hlt hplace
  · intro hleast
    refine ⟨hleast.1, fun earlier hlt hearlier => ?_⟩
    exact Nat.not_le_of_lt hlt (hleast.2 hearlier)

theorem ruleCommentIndex?_eq_some_iff {text : Text} {index : Nat} :
    text.ruleCommentIndex? = some index ↔ IsLeast {place | text.RuleCommentAt place} index := by
  rw [ruleCommentIndex?, countsOn_ruleCommentIndexFrom?.eq_some_iff_firstAt, firstAt_iff_isLeast]
  simp only [opensRuleComment_drop_iff]

theorem exists_isLeast_commentAt {text : Text} {index : Nat} (hopens : text.CommentAt index) :
    ∃ first ≤ index, IsLeast {place | text.CommentAt place} first := by
  have hcomment : CommentAt (text.drop index) 0 := (commentAt_drop text index 0).mpr hopens
  obtain ⟨first, hle, hfirst⟩ :
      ∃ first ≤ index, text.FirstAt (fun rest => rest.CommentAt 0) first := exists_firstAt hcomment
  rw [firstAt_iff_isLeast] at hfirst
  simp only [commentAt_drop, Nat.add_zero] at hfirst
  exact ⟨first, hle, hfirst⟩

open Classical in
theorem exists_isGreatest_delimiterAt {text : Text} {index : Nat}
    (hstands : text.DelimiterAt index) :
    ∃ last ≥ index, IsGreatest {place | text.DelimiterAt place} last := by
  have hbounded : ∀ place, text.DelimiterAt place → place ≤ text.length := by
    intro place hplace
    obtain ⟨hlt, _⟩ := List.getElem?_eq_some_iff.mp (delimiterAt_iff_getElem?.mp hplace).1
    exact Nat.le_of_lt hlt
  refine ⟨Nat.findGreatest text.DelimiterAt text.length, ?_, ?_, fun place hplace => ?_⟩
  · exact Nat.le_findGreatest (hbounded index hstands) hstands
  · exact Nat.findGreatest_spec (hbounded index hstands) hstands
  · exact Nat.le_findGreatest (hbounded place hplace) hplace

theorem CommentAt.add_three_le {text : Text} {index later : Nat} (hopens : text.CommentAt index)
    (hstands : text.DelimiterAt later) (hlt : index < later) : index + 3 ≤ later := by
  obtain ⟨_, hsecond, white, hwhite, hthird⟩ := commentAt_iff_getElem?.mp hopens
  have hcolon := (delimiterAt_iff_getElem?.mp hstands).1
  by_contra hwithin
  have hplaces : later = index + 1 ∨ later = index + 2 := by omega
  cases hplaces with
  | inl hslash =>
      rw [hslash, hsecond] at hcolon
      cases hcolon
  | inr hblank =>
      rw [hblank, hthird] at hcolon
      cases hcolon
      exact absurd hwhite (by decide)

theorem annotated_iff {text : Text} :
    text.Annotated ↔
      ∃ first last, IsLeast {place | text.CommentAt place} first ∧
        IsGreatest {place | text.DelimiterAt place} last ∧ first < last := by
  constructor
  · intro hannotated
    obtain ⟨index, hopens, later, hlater, hstands⟩ := hannotated
    obtain ⟨first, hle, hfirst⟩ := exists_isLeast_commentAt hopens
    obtain ⟨last, hge, hlast⟩ := exists_isGreatest_delimiterAt hstands
    exact ⟨first, last, hfirst, hlast, by omega⟩
  · intro hplaces
    obtain ⟨first, last, hfirst, hlast, hlt⟩ := hplaces
    exact ⟨first, hfirst.1, last, hfirst.1.add_three_le hlast.1 hlt, hlast.1⟩

theorem isRuleComment_exact (text : Text) :
    (∀ index, text.RuleCommentAt index ↔ text.drop index ∈ ruleComments) ∧
    (text.isRuleComment ↔ ∃ index, text.RuleCommentAt index) ∧
    (∀ start, text.ruleCommentStart? = some start ↔
      ∃ index, IsLeast {place | text.RuleCommentAt place} index ∧
        start = (Text.encode (text.take index)).length) ∧
    ('\n' ∉ text →
      (text.isRuleComment ↔
        ∃ first last, IsLeast {place | text.CommentAt place} first ∧
          IsGreatest {place | text.DelimiterAt place} last ∧ first < last)) := by
  refine ⟨fun _ => ruleCommentAt_iff_mem, isRuleComment_iff, fun start => ?_, fun hline => ?_⟩
  · rw [ruleCommentStart?, Option.map_eq_some_iff]
    refine exists_congr fun index => and_congr ruleCommentIndex?_eq_some_iff ?_
    rw [length_encode]
    exact eq_comm
  · rw [isRuleComment_iff_annotated hline, annotated_iff]

end GrammarListing.Text
