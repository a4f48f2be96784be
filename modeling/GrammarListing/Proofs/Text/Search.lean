import GrammarListing.Rule
import Mathlib.Data.List.TakeWhile
import Mathlib.Data.Nat.Find
namespace GrammarListing.Text

structure FirstAt (found : Text → Prop) (text : Text) (index : Nat) : Prop where
  holds : found (text.drop index)
  first : ∀ earlier < index, ¬ found (text.drop earlier)

variable {found : Text → Prop}

theorem FirstAt.unique {text : Text} {index other : Nat}
    (hindex : text.FirstAt found index) (hother : text.FirstAt found other) : index = other := by
  rcases Nat.lt_trichotomy index other with hlt | heq | hgt
  · exact absurd hindex.holds (hother.first index hlt)
  · exact heq
  · exact absurd hother.holds (hindex.first other hgt)

theorem exists_firstAt {text : Text} {index : Nat} (hindex : found (text.drop index)) :
    ∃ first ≤ index, text.FirstAt found first := by
  classical
  have hexists : ∃ place, found (text.drop place) := ⟨index, hindex⟩
  exact ⟨Nat.find hexists, Nat.find_min' hexists hindex, Nat.find_spec hexists,
    fun _ hlt => Nat.find_min hexists hlt⟩

theorem firstAt_zero {text : Text} (hfound : found text) : text.FirstAt found 0 :=
  ⟨hfound, fun _ hlt => absurd hlt (Nat.not_lt_zero _)⟩

theorem firstAt_cons_succ {c : Char} {text : Text} {index : Nat} (habsent : ¬ found (c :: text)) :
    FirstAt found (c :: text) (index + 1) ↔ text.FirstAt found index := by
  constructor
  · intro hfirst
    exact ⟨hfirst.holds, fun earlier hlt => hfirst.first (earlier + 1) (Nat.succ_lt_succ hlt)⟩
  · intro hfirst
    refine ⟨hfirst.holds, fun earlier hlt => ?_⟩
    cases earlier with
    | zero => exact habsent
    | succ earlier => exact hfirst.first earlier (Nat.lt_of_succ_lt_succ hlt)

structure CountsOn (search : Nat → Text → Option Nat) (found : Text → Prop) : Prop where
  absent : ¬ found []
  nil : ∀ start, search start [] = none
  stop : ∀ start c text, found (c :: text) → search start (c :: text) = some start
  step : ∀ start c text, ¬ found (c :: text) → search start (c :: text) = search (start + 1) text

theorem CountsOn.eq_some_iff {search : Nat → Text → Option Nat} (hsearch : CountsOn search found)
    {start place : Nat} {text : Text} :
    search start text = some place ↔ ∃ index, place = start + index ∧ text.FirstAt found index := by
  induction text generalizing start with
  | nil =>
      rw [hsearch.nil]
      constructor
      · intro hnone
        cases hnone
      · rintro ⟨index, _, hfirst⟩
        exact absurd (List.drop_nil ▸ hfirst.holds) hsearch.absent
  | cons c text ih =>
      by_cases hfound : found (c :: text)
      · rw [hsearch.stop start c text hfound]
        constructor
        · intro hplace
          exact ⟨0, (Option.some.inj hplace).symm, firstAt_zero hfound⟩
        · rintro ⟨index, rfl, hfirst⟩
          rw [hfirst.unique (firstAt_zero hfound), Nat.add_zero]
      · rw [hsearch.step start c text hfound, ih]
        constructor
        · rintro ⟨index, rfl, hfirst⟩
          exact ⟨index + 1, by omega, (firstAt_cons_succ hfound).mpr hfirst⟩
        · rintro ⟨index, rfl, hfirst⟩
          cases index with
          | zero => exact absurd hfirst.holds hfound
          | succ index => exact ⟨index, by omega, (firstAt_cons_succ hfound).mp hfirst⟩

theorem CountsOn.eq_some_iff_firstAt {search : Nat → Text → Option Nat}
    (hsearch : CountsOn search found) {index : Nat} {text : Text} :
    search 0 text = some index ↔ text.FirstAt found index := by
  rw [hsearch.eq_some_iff]
  simp

theorem CountsOn.isSome_iff {search : Nat → Text → Option Nat} (hsearch : CountsOn search found)
    {text : Text} : (search 0 text).isSome ↔ ∃ index, found (text.drop index) := by
  rw [Option.isSome_iff_exists]
  constructor
  · rintro ⟨index, hindex⟩
    exact ⟨index, (hsearch.eq_some_iff_firstAt.mp hindex).holds⟩
  · rintro ⟨index, hindex⟩
    obtain ⟨first, _, hfirst⟩ := exists_firstAt hindex
    exact ⟨first, hsearch.eq_some_iff_firstAt.mpr hfirst⟩

def White (text : Text) : Prop :=
  ∀ c ∈ text, isWhite c

instance (text : Text) : Decidable text.White :=
  List.decidableBAll _ text

structure Trimmed (text : Text) : Prop where
  head : ∀ c ∈ text.head?, ¬ isWhite c
  last : ∀ c ∈ text.getLast?, ¬ isWhite c

/-- A trimmed text with nothing but white characters around it. -/
def TrimsTo (text trimmed : Text) : Prop :=
  trimmed.Trimmed ∧ ∃ before after : Text,
    before.White ∧ after.White ∧ text = before ++ (trimmed ++ after)

theorem White.reverse {text : Text} (hwhite : text.White) : White (List.reverse text) :=
  fun c hc => hwhite c (List.mem_reverse.mp hc)

theorem trimStart_white_append {before : Text} (hwhite : before.White) (text : Text) :
    trimStart (before ++ text) = text.trimStart :=
  List.dropWhile_append_of_pos hwhite

theorem trimStart_of_head {text : Text} (hhead : ∀ c ∈ text.head?, ¬ isWhite c) :
    text.trimStart = text := by
  cases text with
  | nil => rfl
  | cons c text => exact List.dropWhile_cons_of_neg (hhead c rfl)

theorem trimEnd_eq_reverse (text : Text) :
    text.trimEnd = List.reverse (trimStart (List.reverse text)) :=
  rfl

theorem trimEnd_append_white {after : Text} (hwhite : after.White) (text : Text) :
    trimEnd (text ++ after) = text.trimEnd := by
  rw [trimEnd_eq_reverse, List.reverse_append, trimStart_white_append hwhite.reverse,
    ← trimEnd_eq_reverse]

theorem trimEnd_of_last {text : Text} (hlast : ∀ c ∈ text.getLast?, ¬ isWhite c) :
    text.trimEnd = text := by
  rw [trimEnd_eq_reverse, trimStart_of_head, List.reverse_reverse]
  rwa [List.head?_reverse]

theorem Trimmed.trim {text : Text} (htrimmed : text.Trimmed) : text.trim = text := by
  rw [Text.trim, trimStart_of_head htrimmed.head, trimEnd_of_last htrimmed.last]

theorem exists_eq_append_trimStart (text : Text) :
    ∃ before : Text, before.White ∧ text = before ++ text.trimStart :=
  ⟨text.takeWhile isWhite, fun _ hc => List.mem_takeWhile_imp hc,
    List.takeWhile_append_dropWhile.symm⟩

theorem exists_eq_trimEnd_append (text : Text) :
    ∃ after : Text, after.White ∧ text = text.trimEnd ++ after := by
  obtain ⟨before, hwhite, heq⟩ := exists_eq_append_trimStart (List.reverse text)
  refine ⟨List.reverse before, hwhite.reverse, ?_⟩
  rw [trimEnd_eq_reverse, ← List.reverse_append, ← heq, List.reverse_reverse]

theorem not_isWhite_of_mem_head?_trimStart (text : Text) :
    ∀ c ∈ text.trimStart.head?, ¬ isWhite c := by
  intro c hc
  have hhead := List.head?_dropWhile_not isWhite text
  rw [show (text.dropWhile isWhite).head? = some c from hc] at hhead
  simp [hhead]

theorem trimmed_trim (text : Text) : text.trim.Trimmed := by
  constructor
  · intro c hc
    obtain ⟨after, _, heq⟩ := exists_eq_trimEnd_append text.trimStart
    apply not_isWhite_of_mem_head?_trimStart text
    rw [heq, List.head?_append, show text.trimStart.trimEnd.head? = some c from hc]
    rfl
  · intro c hc
    apply not_isWhite_of_mem_head?_trimStart (List.reverse text.trimStart)
    rwa [← List.getLast?_reverse]

theorem trim_white_around {before after : Text} (hbefore : before.White) (hafter : after.White)
    (text : Text) : trim (before ++ (text ++ after)) = text.trim := by
  rw [trim, trimStart_white_append hbefore, trim]
  by_cases hempty : text.trimStart = []
  · have hall : text.White := fun c hc => List.dropWhile_eq_nil_iff.mp hempty c hc
    rw [trimStart_white_append hall, hempty]
    exact congrArg trimEnd (List.dropWhile_eq_nil_iff.mpr hafter)
  · have happend : trimStart (text ++ after) = text.trimStart ++ after := by
      rw [trimStart, List.dropWhile_append, if_neg (by simpa [trimStart] using hempty)]
      rfl
    rw [happend, trimEnd_append_white hafter]

theorem trimsTo_iff {text trimmed : Text} : text.TrimsTo trimmed ↔ trimmed = text.trim := by
  constructor
  · rintro ⟨htrimmed, before, after, hbefore, hafter, rfl⟩
    rw [trim_white_around hbefore hafter, htrimmed.trim]
  · rintro rfl
    obtain ⟨before, hbefore, hstart⟩ := exists_eq_append_trimStart text
    obtain ⟨after, hafter, hend⟩ := exists_eq_trimEnd_append text.trimStart
    exact ⟨trimmed_trim text, before, after, hbefore, hafter, by rw [trim, ← hend, ← hstart]⟩

def DelimiterAt (text : Text) (index : Nat) : Prop :=
  delimiter <+: text.drop index

abbrev FirstDelimiter (text : Text) (column : Nat) : Prop :=
  text.FirstAt (delimiter <+: ·) column

@[simp] theorem not_delimiterAt_nil (index : Nat) : ¬ DelimiterAt [] index := by
  simp [DelimiterAt, delimiter]

theorem delimiterAt_drop (text : Text) (count index : Nat) :
    DelimiterAt (text.drop count) index ↔ text.DelimiterAt (count + index) := by
  rw [DelimiterAt, DelimiterAt, List.drop_drop]

theorem exists_delimiterAt_drop_iff {text : Text} {count : Nat} :
    (∃ index, DelimiterAt (text.drop count) index) ↔ ∃ later ≥ count, text.DelimiterAt later := by
  constructor
  · rintro ⟨index, hstands⟩
    exact ⟨count + index, Nat.le_add_right _ _, (delimiterAt_drop text count index).mp hstands⟩
  · rintro ⟨later, hle, hstands⟩
    refine ⟨later - count, (delimiterAt_drop text count _).mpr ?_⟩
    rwa [Nat.add_sub_cancel' hle]

theorem delimiterAt_append_right (before after : Text) (index : Nat) :
    DelimiterAt (before ++ after) (before.length + index) ↔ after.DelimiterAt index := by
  rw [← delimiterAt_drop, List.drop_left]

theorem DelimiterAt.append {text : Text} {index : Nat} (hstands : text.DelimiterAt index)
    (after : Text) : DelimiterAt (text ++ after) index := by
  rw [DelimiterAt, List.drop_append]
  exact hstands.trans (List.prefix_append _ _)

theorem delimiterAt_iff_getElem? {text : Text} {index : Nat} :
    text.DelimiterAt index ↔
      text[index]? = some ':' ∧ text[index + 1]? = some ':' ∧ text[index + 2]? = some '=' := by
  rw [DelimiterAt, List.prefix_iff_getElem?]
  constructor
  · intro hstands
    have hat := fun place hplace => hstands place hplace
    simp only [List.getElem?_drop] at hat
    exact ⟨hat 0 (by decide), hat 1 (by decide), hat 2 (by decide)⟩
  · rintro ⟨hfirst, hsecond, hthird⟩ place hplace
    rw [List.getElem?_drop]
    match place, hplace with
    | 0, _ => exact hfirst
    | 1, _ => exact hsecond
    | 2, _ => exact hthird

theorem DelimiterAt.add_three_le {text : Text} {index : Nat} (hstands : text.DelimiterAt index) :
    index + 3 ≤ text.length := by
  obtain ⟨hlt, _⟩ := List.getElem?_eq_some_iff.mp (delimiterAt_iff_getElem?.mp hstands).2.2
  exact hlt

theorem FirstDelimiter.add_three_le {text : Text} {column : Nat}
    (hfirst : text.FirstDelimiter column) : column + 3 ≤ text.length :=
  DelimiterAt.add_three_le hfirst.holds

theorem FirstDelimiter.length_take {text : Text} {column : Nat}
    (hfirst : text.FirstDelimiter column) : (text.take column).length = column := by
  have hwithin := hfirst.add_three_le
  rw [List.length_take]
  omega

theorem exists_delimiterAt_iff_infix {text : Text} :
    (∃ index, text.DelimiterAt index) ↔ delimiter <:+: text := by
  constructor
  · intro hexists
    obtain ⟨index, after, hstands⟩ := hexists
    refine ⟨text.take index, after, ?_⟩
    rw [List.append_assoc, hstands, List.take_append_drop]
  · intro hinfix
    obtain ⟨before, after, rfl⟩ := hinfix
    refine ⟨before.length, ?_⟩
    rw [List.append_assoc, ← Nat.add_zero before.length, delimiterAt_append_right]
    exact List.prefix_append delimiter after

theorem FirstDelimiter.not_infix_take {text : Text} {column : Nat}
    (hfirst : text.FirstDelimiter column) : ¬ delimiter <:+: text.take column := by
  intro hinfix
  obtain ⟨index, hstands⟩ := exists_delimiterAt_iff_infix.mpr hinfix
  have hwithin := hstands.add_three_le
  rw [hfirst.length_take] at hwithin
  have hearlier := hstands.append (text.drop column)
  rw [List.take_append_drop] at hearlier
  exact hfirst.first index (by omega) hearlier

theorem firstDelimiter_append {before : Text} (habsent : ':' ∉ before) :
    FirstDelimiter (before ++ delimiter) before.length := by
  constructor
  · simp
  · intro index hlt hstands
    have hcolon := (delimiterAt_iff_getElem?.mp hstands).1
    rw [List.getElem?_append_left hlt] at hcolon
    exact habsent (List.mem_of_getElem? hcolon)

theorem countsOn_delimiterColumnFrom? :
    CountsOn delimiterColumnFrom? (delimiter <+: ·) where
  absent := by simp [delimiter]
  nil := fun _ => rfl
  stop := by
    intro start c text hfound
    simp [delimiterColumnFrom?, hfound]
  step := by
    intro start c text habsent
    simp [delimiterColumnFrom?, habsent]

theorem delimiterColumn?_eq_some_iff {text : Text} {column : Nat} :
    text.delimiterColumn? = some column ↔ text.FirstDelimiter column :=
  countsOn_delimiterColumnFrom?.eq_some_iff_firstAt

theorem delimiterColumn?_isSome_iff {text : Text} :
    text.delimiterColumn?.isSome ↔ ∃ index, text.DelimiterAt index :=
  countsOn_delimiterColumnFrom?.isSome_iff

end GrammarListing.Text
