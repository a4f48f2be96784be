import GrammarListing.Toml.Document
import Mathlib.Data.List.TakeWhile
namespace GrammarListing.Toml

/-! What is read of a document.  No reader passes over a control character other than a tab or a
line break, whether it keeps what it reads or skips it. -/

def isDocumentChar (c : Char) : Bool :=
  isTextChar c || c == '\n' || c == '\r'

/-- A rest of a text that has only characters of documents in front of it. -/
inductive Leaves : Text → Text → Prop
  | all (text : Text) : Leaves text text
  | read {c : Char} {text rest : Text} (hc : isDocumentChar c) (hrest : Leaves text rest) :
      Leaves (c :: text) rest

theorem isDocumentChar_of_isTextChar {c : Char} (hc : isTextChar c) : isDocumentChar c := by
  rw [isDocumentChar, hc]
  rfl

theorem isDocumentChar_of_isBlank {c : Char} (hc : isBlank c) : isDocumentChar c := by
  simp only [isBlank, Bool.or_eq_true, beq_iff_eq] at hc
  rcases hc with rfl | rfl
  · rfl
  · rfl

theorem isDocumentChar_of_between {low high c : Char} (hlow : low ≤ c) (hhigh : c ≤ high)
    (hvisible : 0x20 ≤ low.toNat ∧ high.toNat < 0x7F) : isDocumentChar c := by
  have hlowest : 0x20 ≤ c.toNat := Nat.le_trans hvisible.1 hlow
  have hhighest : c.toNat ≠ 0x7F := Nat.ne_of_lt (Nat.lt_of_le_of_lt hhigh hvisible.2)
  apply isDocumentChar_of_isTextChar
  simp [isTextChar, hlowest, hhighest]

theorem isDocumentChar_of_isDigit {c : Char} (hc : c.isDigit) : isDocumentChar c := by
  obtain ⟨hlow, hhigh⟩ := Bool.and_eq_true_iff.mp hc
  exact isDocumentChar_of_between (of_decide_eq_true hlow) (of_decide_eq_true hhigh) (by decide)

theorem isDocumentChar_of_isAlphanum {c : Char} (hc : c.isAlphanum) : isDocumentChar c := by
  rcases Bool.or_eq_true_iff.mp hc with hletter | hdigit
  · rcases Bool.or_eq_true_iff.mp hletter with hupper | hlower
    · obtain ⟨hlow, hhigh⟩ := of_decide_eq_true hupper
      exact isDocumentChar_of_between hlow hhigh (by decide)
    · obtain ⟨hlow, hhigh⟩ := Bool.and_eq_true_iff.mp hlower
      exact isDocumentChar_of_between (of_decide_eq_true hlow) (of_decide_eq_true hhigh)
        (by decide)
  · exact isDocumentChar_of_isDigit hdigit

theorem isDocumentChar_of_isBareKeyChar {c : Char} (hc : isBareKeyChar c) : isDocumentChar c := by
  simp only [isBareKeyChar, Bool.or_eq_true, beq_iff_eq] at hc
  rcases hc with (halphanum | rfl) | rfl
  · exact isDocumentChar_of_isAlphanum halphanum
  · rfl
  · rfl

theorem isDocumentChar_of_isHexDigit {c : Char} (hc : Text.isHexDigit c) : isDocumentChar c := by
  simp only [Text.isHexDigit, Bool.or_eq_true, Bool.and_eq_true, decide_eq_true_eq] at hc
  rcases hc with (hdigit | ⟨hlow, hhigh⟩) | ⟨hlow, hhigh⟩
  · exact isDocumentChar_of_isDigit hdigit
  · exact isDocumentChar_of_between hlow hhigh (by decide)
  · exact isDocumentChar_of_between hlow hhigh (by decide)

namespace Leaves

variable {text middle rest : Text}

theorem trans (hfirst : Leaves text middle) (hsecond : Leaves middle rest) :
    Leaves text rest := by
  induction hfirst with
  | all text => exact hsecond
  | read hc hrest ih => exact .read hc (ih hsecond)

theorem dropWhile {skips : Char → Bool} (hskips : ∀ c, skips c → isDocumentChar c) (text : Text) :
    Leaves text (text.dropWhile skips) := by
  induction text with
  | nil => exact .all []
  | cons c text ih =>
      rw [List.dropWhile_cons]
      split
      · next hc => exact .read (hskips c hc) ih
      · exact .all (c :: text)

theorem drop (count : Nat) {text : Text} (htaken : ∀ c ∈ text.take count, isDocumentChar c) :
    Leaves text (text.drop count) := by
  induction text generalizing count with
  | nil =>
      rw [List.drop_nil]
      exact .all []
  | cons c text ih =>
      cases count with
      | zero => exact .all (c :: text)
      | succ count =>
          obtain ⟨hc, hrest⟩ := List.forall_mem_cons.mp htaken
          exact .read hc (ih count hrest)

theorem forall_mem (hall : Leaves text []) : ∀ c ∈ text, isDocumentChar c := by
  generalize hend : ([] : Text) = rest at hall
  induction hall with
  | all text =>
      subst hend
      exact List.forall_mem_nil _
  | read hc hrest ih => exact List.forall_mem_cons.mpr ⟨hc, ih hend⟩

end Leaves

section Lexemes

variable {text rest : Text}

theorem leaves_skipBlanks (text : Text) : Leaves text (skipBlanks text) :=
  .dropWhile (fun _ => isDocumentChar_of_isBlank) text

theorem leaves_of_expect? {c : Char} (hc : isDocumentChar c) (hread : expect? c text = some rest) :
    Leaves text rest := by
  cases text with
  | nil => cases hread
  | cons first text =>
      rw [expect?] at hread
      split at hread
      · next hfirst =>
          cases hread
          subst hfirst
          exact .read hc (.all _)
      · cases hread

theorem leaves_of_newline? (hread : newline? text = some rest) : Leaves text rest := by
  unfold newline? at hread
  split at hread
  · cases hread
    exact .read rfl (.all _)
  · cases hread
    exact .read rfl (.read rfl (.all _))
  · cases hread

theorem leaves_skipComment (text : Text) : Leaves text (skipComment text) := by
  unfold skipComment
  split
  · exact .read rfl (.dropWhile (fun _ => isDocumentChar_of_isTextChar) _)
  · exact .all text

theorem leaves_of_lineEnd? (hread : lineEnd? text = some rest) : Leaves text rest := by
  have hfront := (leaves_skipBlanks text).trans (leaves_skipComment (skipBlanks text))
  unfold lineEnd? at hread
  split at hread
  · next hend =>
      cases hread
      rwa [hend] at hfront
  · exact hfront.trans (leaves_of_newline? hread)

theorem leaves_of_skipGap? {inComment : Bool} (hread : skipGap? inComment text = some rest) :
    Leaves text rest := by
  fun_induction skipGap? inComment text with
  | case1 => cases hread
  | case2 =>
      cases hread
      exact .all []
  | case3 inComment text ih => exact .read rfl (ih hread)
  | case4 inComment text ih => exact .read rfl (.read rfl (ih hread))
  | case5 c text _ _ hc ih => exact .read (isDocumentChar_of_isTextChar hc) (ih hread)
  | case6 => cases hread
  | case7 inComment c text _ _ _ hc ih => exact .read (isDocumentChar_of_isBlank hc) (ih hread)
  | case8 inComment text _ _ _ _ ih => exact .read rfl (ih hread)
  | case9 inComment c text =>
      cases hread
      exact .all (c :: text)

theorem leaves_of_hexEscape? {count length : Nat} {c : Char}
    (hread : hexEscape? count text = some (c, length)) :
    length = count + 1 ∧ Leaves text (text.drop count) := by
  unfold hexEscape? at hread
  split at hread
  · next code after hnumber =>
      obtain ⟨_, _, hlength⟩ := Option.map_eq_some_iff.mp hread
      unfold Text.hexNumber? at hnumber
      dsimp only at hnumber
      split at hnumber
      · next hdigits =>
          cases hlength
          refine ⟨rfl, .drop count fun digit hdigit => ?_⟩
          exact isDocumentChar_of_isHexDigit (List.all_eq_true.mp hdigits.2 digit hdigit)
      · cases hnumber
  · cases hread

theorem leaves_of_escape? {length : Nat} {c : Char} (hread : escape? text = some (c, length)) :
    Leaves text (text.drop length) := by
  unfold escape? at hread
  split at hread
  case h_8 =>
    obtain ⟨rfl, hdigits⟩ := leaves_of_hexEscape? hread
    exact .read rfl hdigits
  case h_9 =>
    obtain ⟨rfl, hdigits⟩ := leaves_of_hexEscape? hread
    exact .read rfl hdigits
  case h_10 => cases hread
  all_goals
    cases hread
    exact .read rfl (.all _)

theorem leaves_drop_gapLength (text : Text) : Leaves text (text.drop (gapLength text)) := by
  fun_induction gapLength text with
  | case1 text ih => exact .read rfl (.read rfl ih)
  | case2 c text _ hc ih =>
      refine .read ?_ ih
      rcases (Bool.or_eq_true ..).mp hc with hblank | hbreak
      · exact isDocumentChar_of_isBlank hblank
      · rw [of_decide_eq_true hbreak]
        rfl
  | case3 c text => exact .all (c :: text)
  | case4 => exact .all []

theorem leaves_of_hiddenLength? {length : Nat} (hread : hiddenLength? text = some length) :
    Leaves text (text.drop length) := by
  unfold hiddenLength? at hread
  split at hread
  · cases hread
    exact leaves_drop_gapLength text
  · cases hread

theorem leaves_of_lineBody? {quote : Char} {skip : Nat} {front read : Text}
    (hquote : isDocumentChar quote) (hread : lineBody? quote skip front text = some (read, rest)) :
    Leaves (text.drop skip) rest := by
  fun_induction lineBody? quote skip front text with
  | case1 => cases hread
  | case2 front c text skip ih => exact ih hread
  | case3 front text =>
      cases hread
      exact .read hquote (.all _)
  | case4 front c text _ hescape escaped length hlength ih =>
      rw [hescape.2]
      exact .read rfl ((leaves_of_escape? hlength).trans (ih hread))
  | case5 => cases hread
  | case6 front c text _ _ hc ih => exact .read (isDocumentChar_of_isTextChar hc) (ih hread)
  | case7 => cases hread

theorem leaves_extra_quotes {quote : Char} (hquote : isDocumentChar quote) (text : Text) :
    Leaves text (text.drop ((text.take 2).takeWhile (· = quote)).length) := by
  have hprefix : (text.take 2).takeWhile (· = quote) <+: text :=
    (List.takeWhile_prefix _).trans (List.take_prefix 2 text)
  apply Leaves.drop
  intro c hc
  rw [← List.prefix_iff_eq_take.mp hprefix] at hc
  have hsame := List.mem_takeWhile_imp hc
  rwa [of_decide_eq_true hsame]

theorem leaves_of_blockBody? {quote : Char} {skip : Nat} {front read : Text}
    (hquote : isDocumentChar quote) (hread : blockBody? quote skip front text = some (read, rest)) :
    Leaves (text.drop skip) rest := by
  fun_induction blockBody? quote skip front text with
  | case1 => cases hread
  | case2 front c text skip ih => exact ih hread
  | case3 front c text hclosed =>
      obtain ⟨after, hafter⟩ := List.isPrefixOf_iff_prefix.mp hclosed
      cases hafter
      cases hread
      exact .read hquote (.read hquote (.read hquote (leaves_extra_quotes hquote after)))
  | case4 front c text _ hescape length hlength ih =>
      rw [hescape.2]
      exact .read rfl ((leaves_of_hiddenLength? hlength).trans (ih hread))
  | case5 front c text _ hescape _ escaped length hlength ih =>
      rw [hescape.2]
      exact .read rfl ((leaves_of_escape? hlength).trans (ih hread))
  | case6 => cases hread
  | case7 front c text _ _ hbreak ih =>
      obtain ⟨after, hafter⟩ := List.isPrefixOf_iff_prefix.mp hbreak
      cases hafter
      exact .read rfl (.read rfl (ih hread))
  | case8 front c text _ _ _ hc ih =>
      refine .read ?_ (ih hread)
      rcases hc with rfl | htext
      · rfl
      · exact isDocumentChar_of_isTextChar htext
  | case9 => cases hread

theorem leaves_of_lineString? {quote : Char} {read : Text} (hquote : isDocumentChar quote)
    (hread : lineString? quote text = some (read, rest)) : Leaves text rest := by
  unfold lineString? at hread
  split at hread
  · next body hbody =>
      exact (leaves_of_expect? hquote hbody).trans (leaves_of_lineBody? hquote hread)
  · cases hread

theorem leaves_newline?_getD (text : Text) : Leaves text ((newline? text).getD text) := by
  cases hnewline : newline? text with
  | none => exact .all text
  | some rest => exact leaves_of_newline? hnewline

theorem leaves_of_string? {quote : Char} {read : Text} (hquote : isDocumentChar quote)
    (hread : string? quote text = some (read, rest)) : Leaves text rest := by
  unfold string? at hread
  split at hread
  · next hopened =>
      obtain ⟨after, rfl⟩ := List.isPrefixOf_iff_prefix.mp hopened
      have hbody := (leaves_newline?_getD after).trans (leaves_of_blockBody? hquote hread)
      exact .read hquote (.read hquote (.read hquote hbody))
  · exact leaves_of_lineString? hquote hread

theorem leaves_of_simpleKey? {key : Text} (hread : simpleKey? text = some (key, rest)) :
    Leaves text rest := by
  unfold simpleKey? at hread
  split at hread
  · exact leaves_of_lineString? rfl hread
  · exact leaves_of_lineString? rfl hread
  · split at hread
    · cases hread
    · cases hread
      exact .dropWhile (fun _ => isDocumentChar_of_isBareKeyChar) text

theorem leaves_of_keyParts? {bound : Nat} {front key : List Text}
    (hread : keyParts? bound front text = some (key, rest)) : Leaves text rest := by
  fun_induction keyParts? bound front text with
  | case1 => cases hread
  | case2 => cases hread
  | case3 front text bound part after hpart next hnext ih =>
      have hfront := (leaves_skipBlanks text).trans (leaves_of_simpleKey? hpart)
      have hpoint := leaves_skipBlanks after
      rw [hnext] at hpoint
      exact (hfront.trans hpoint).trans (.read rfl (ih hread))
  | case4 front text bound part after hpart =>
      cases hread
      have hfront := (leaves_skipBlanks text).trans (leaves_of_simpleKey? hpart)
      exact hfront.trans (leaves_skipBlanks after)

theorem leaves_of_key? {key : List Text} (hread : key? text = some (key, rest)) :
    Leaves text rest :=
  leaves_of_keyParts? hread

end Lexemes

section Numbers

variable {text rest : Text}

theorem leaves_of_digitsFrom? {isMember : Char → Bool}
    (hmember : ∀ c, isMember c → isDocumentChar c) {front digits : List Char}
    (hread : digitsFrom? isMember front text = some (digits, rest)) : Leaves text rest := by
  fun_induction digitsFrom? isMember front text with
  | case1 front c text hc ih => exact .read rfl (.read (hmember c hc) (ih hread))
  | case2 => cases hread
  | case3 front c text _ hc ih => exact .read (hmember c hc) (ih hread)
  | case4 front c text =>
      cases hread
      exact .all (c :: text)
  | case5 =>
      cases hread
      exact .all []

theorem leaves_of_digits? {isMember : Char → Bool} (hmember : ∀ c, isMember c → isDocumentChar c)
    {digits : List Char} (hread : digits? isMember text = some (digits, rest)) :
    Leaves text rest := by
  unfold digits? at hread
  split at hread
  · next c text =>
      split at hread
      · next hc => exact .read (hmember c hc) (leaves_of_digitsFrom? hmember hread)
      · cases hread
  · cases hread

theorem leaves_sign (text : Text) : Leaves text (sign text).2 := by
  unfold sign
  split
  · exact .read rfl (.all _)
  · exact .read rfl (.all _)
  · exact .all text

theorem leaves_of_decimalDigits? {digits : List Char}
    (hread : digits? Char.isDigit text = some (digits, rest)) : Leaves text rest :=
  leaves_of_digits? (fun _ => isDocumentChar_of_isDigit) hread

theorem leaves_of_wholeDigits? {digits : List Char}
    (hread : wholeDigits? text = some (digits, rest)) : Leaves text rest := by
  unfold wholeDigits? at hread
  split at hread
  · cases hread
    exact .read rfl (.all _)
  · exact leaves_of_decimalDigits? hread

theorem leaves_of_fraction? {digits : List Char} (hread : fraction? text = some (digits, rest)) :
    Leaves text rest := by
  unfold fraction? at hread
  split at hread
  · exact .read rfl (leaves_of_decimalDigits? hread)
  · cases hread
    exact .all _

theorem leaves_of_exponent? {power : Int} (hread : exponent? text = some (power, rest)) :
    Leaves text rest := by
  unfold exponent? at hread
  split at hread
  · next c text =>
      split at hread
      · next hc =>
          obtain ⟨⟨digits, after⟩, hdigits, hvalue⟩ := Option.bind_eq_some_iff.mp hread
          cases hvalue
          have hmark : isDocumentChar c := by
            rcases hc with rfl | rfl
            · rfl
            · rfl
          exact .read hmark ((leaves_sign text).trans (leaves_of_decimalDigits? hdigits))
      · cases hread
        exact .all _
  · cases hread
    exact .all _

theorem leaves_of_decimal? {value : Value} (hread : decimal? text = some (value, rest)) :
    Leaves text rest := by
  unfold decimal? at hread
  obtain ⟨⟨whole, after⟩, hwhole, hread⟩ := Option.bind_eq_some_iff.mp hread
  have hfront := (leaves_sign text).trans (leaves_of_wholeDigits? hwhole)
  dsimp only at hread
  split at hread
  · obtain ⟨⟨fraction, afterFraction⟩, hfraction, hread⟩ := Option.bind_eq_some_iff.mp hread
    obtain ⟨⟨power, afterPower⟩, hpower, hread⟩ := Option.bind_eq_some_iff.mp hread
    obtain ⟨_, _, hvalue⟩ := Option.map_eq_some_iff.mp hread
    cases hvalue
    exact (hfront.trans (leaves_of_fraction? hfraction)).trans (leaves_of_exponent? hpower)
  · obtain ⟨_, _, hvalue⟩ := Option.map_eq_some_iff.mp hread
    cases hvalue
    exact hfront

theorem leaves_of_based? {base : Nat} {isMember : Char → Bool} {value : Value}
    (hmember : ∀ c, isMember c → isDocumentChar c)
    (hread : based? base isMember text = some (value, rest)) : Leaves text rest := by
  unfold based? at hread
  obtain ⟨⟨digits, after⟩, hdigits, hread⟩ := Option.bind_eq_some_iff.mp hread
  obtain ⟨_, _, hvalue⟩ := Option.map_eq_some_iff.mp hread
  cases hvalue
  exact leaves_of_digits? hmember hdigits

theorem leaves_of_special? {value : Value} (hread : special? text = some (value, rest)) :
    Leaves text rest := by
  have hsign := leaves_sign text
  unfold special? at hread
  dsimp only at hread
  split at hread
  · next after hname =>
      cases hread
      rw [hname] at hsign
      exact hsign.trans (.read rfl (.read rfl (.read rfl (.all _))))
  · next after hname =>
      cases hread
      rw [hname] at hsign
      exact hsign.trans (.read rfl (.read rfl (.read rfl (.all _))))
  · cases hread

theorem leaves_of_field? {count low high value : Nat}
    (hread : field? count low high text = some (value, rest)) : Leaves text rest := by
  unfold field? at hread
  dsimp only at hread
  split at hread
  · next hdigits =>
      cases hread
      apply Leaves.drop
      intro c hc
      exact isDocumentChar_of_isDigit (List.all_eq_true.mp hdigits.2.1 c hc)
  · cases hread

theorem leaves_of_date? (hread : date? text = some rest) : Leaves text rest := by
  unfold date? at hread
  obtain ⟨⟨year, afterYear⟩, hyear, hread⟩ := Option.bind_eq_some_iff.mp hread
  obtain ⟨monthText, hfirst, hread⟩ := Option.bind_eq_some_iff.mp hread
  obtain ⟨⟨month, afterMonth⟩, hmonth, hread⟩ := Option.bind_eq_some_iff.mp hread
  obtain ⟨dayText, hsecond, hread⟩ := Option.bind_eq_some_iff.mp hread
  obtain ⟨⟨day, afterDay⟩, hday, hread⟩ := Option.bind_eq_some_iff.mp hread
  cases hread
  have htoMonth := (leaves_of_field? hyear).trans (leaves_of_expect? rfl hfirst)
  have htoDay := (leaves_of_field? hmonth).trans (leaves_of_expect? rfl hsecond)
  exact (htoMonth.trans htoDay).trans (leaves_of_field? hday)

theorem leaves_of_time? (hread : time? text = some rest) : Leaves text rest := by
  unfold time? at hread
  obtain ⟨⟨hour, afterHour⟩, hhour, hread⟩ := Option.bind_eq_some_iff.mp hread
  obtain ⟨minuteText, hfirst, hread⟩ := Option.bind_eq_some_iff.mp hread
  obtain ⟨⟨minute, afterMinute⟩, hminute, hread⟩ := Option.bind_eq_some_iff.mp hread
  obtain ⟨secondText, hsecond, hread⟩ := Option.bind_eq_some_iff.mp hread
  obtain ⟨⟨second, afterSecond⟩, hfield, hread⟩ := Option.bind_eq_some_iff.mp hread
  have htoMinute := (leaves_of_field? hhour).trans (leaves_of_expect? rfl hfirst)
  have htoSecond := (leaves_of_field? hminute).trans (leaves_of_expect? rfl hsecond)
  have hfront := (htoMinute.trans htoSecond).trans (leaves_of_field? hfield)
  dsimp only at hread
  split at hread
  · next c after =>
      split at hread
      · next hc =>
          cases hread
          have hdigits := Leaves.dropWhile (fun _ => isDocumentChar_of_isDigit) after
          exact hfront.trans (.read rfl (.read (isDocumentChar_of_isDigit hc) hdigits))
      · cases hread
        exact hfront
  · cases hread
    exact hfront

theorem leaves_of_offset? (hread : offset? text = some rest) : Leaves text rest := by
  unfold offset? at hread
  split at hread
  · next c after =>
      split at hread
      · next hc =>
          cases hread
          rcases hc with rfl | rfl
          · exact .read rfl (.all _)
          · exact .read rfl (.all _)
      split at hread
      · next hc =>
          obtain ⟨⟨hour, afterHour⟩, hhour, hread⟩ := Option.bind_eq_some_iff.mp hread
          obtain ⟨minuteText, hcolon, hread⟩ := Option.bind_eq_some_iff.mp hread
          obtain ⟨⟨minute, afterMinute⟩, hminute, hread⟩ := Option.bind_eq_some_iff.mp hread
          cases hread
          have hsign : isDocumentChar c := by
            rcases hc with rfl | rfl
            · rfl
            · rfl
          have htoMinute := (leaves_of_field? hhour).trans (leaves_of_expect? rfl hcolon)
          exact .read hsign (htoMinute.trans (leaves_of_field? hminute))
      · cases hread
  · cases hread

theorem leaves_offset?_getD (text : Text) : Leaves text ((offset? text).getD text) := by
  cases hoffset : offset? text with
  | none => exact .all text
  | some rest => exact leaves_of_offset? hoffset

theorem leaves_afterDate (text : Text) : Leaves text (afterDate text) := by
  unfold afterDate
  split
  · next c after =>
      split
      · next hc =>
          split
          · next rest htime =>
              have hmark : isDocumentChar c := by
                rcases hc with rfl | rfl | rfl
                · rfl
                · rfl
                · rfl
              exact .read hmark ((leaves_of_time? htime).trans (leaves_offset?_getD rest))
          · exact .all _
      · exact .all _
  · exact .all _

theorem leaves_of_dateTime? (hread : dateTime? text = some rest) : Leaves text rest := by
  unfold dateTime? at hread
  rcases Option.or_eq_some_iff.mp hread with hdate | ⟨_, htime⟩
  · obtain ⟨after, hafter, rfl⟩ := Option.map_eq_some_iff.mp hdate
    exact (leaves_of_date? hafter).trans (leaves_afterDate after)
  · exact leaves_of_time? htime

theorem isDocumentChar_of_octal (c : Char) (hc : ('0' ≤ c && c ≤ '7') = true) :
    isDocumentChar c := by
  simp only [Bool.and_eq_true, decide_eq_true_eq] at hc
  exact isDocumentChar_of_between hc.1 hc.2 (by decide)

theorem isDocumentChar_of_binary (c : Char) (hc : (c == '0' || c == '1') = true) :
    isDocumentChar c := by
  simp only [Bool.or_eq_true, beq_iff_eq] at hc
  rcases hc with rfl | rfl
  · rfl
  · rfl

theorem leaves_of_number? {value : Value} (hread : number? text = some (value, rest)) :
    Leaves text rest := by
  unfold number? at hread
  split at hread
  · next after hafter =>
      cases hread
      exact leaves_of_dateTime? hafter
  split at hread
  · exact .read rfl (.read rfl (leaves_of_based? (fun _ => isDocumentChar_of_isHexDigit) hread))
  · exact .read rfl (.read rfl (leaves_of_based? isDocumentChar_of_octal hread))
  · exact .read rfl (.read rfl (leaves_of_based? isDocumentChar_of_binary hread))
  · rcases Option.or_eq_some_iff.mp hread with hspecial | ⟨_, hdecimal⟩
    · exact leaves_of_special? hspecial
    · exact leaves_of_decimal? hdecimal

end Numbers

end GrammarListing.Toml
