import GrammarListing.Proofs.Rule.Annotation
import GrammarListing.Proofs.Rule.Locality
namespace GrammarListing

namespace Text

def Dressed (line dressed : Text) : Prop :=
  ∃ before after : Text, before.Blank ∧ after.Blank ∧ dressed = before ++ (line ++ after)

namespace Dressed

variable {line dressed : Text}

theorem refl (line : Text) : line.Dressed line :=
  ⟨[], [], blank_nil, blank_nil, by rw [List.nil_append, List.append_nil]⟩

theorem unbroken (hdressed : line.Dressed dressed) (hunbroken : line.Unbroken) :
    dressed.Unbroken := by
  obtain ⟨before, after, hbefore, hafter, rfl⟩ := hdressed
  rw [unbroken_append, unbroken_append]
  exact ⟨hbefore.unbroken, hunbroken, hafter.unbroken⟩

theorem annotated_iff (hdressed : line.Dressed dressed) : dressed.Annotated ↔ line.Annotated := by
  obtain ⟨before, after, hbefore, hafter, rfl⟩ := hdressed
  constructor
  · intro hannotated
    exact (hannotated.of_white_append hbefore.white).of_append_white hafter.white
  · intro hannotated
    exact (hannotated.append after).append_left before

theorem trim_eq (hdressed : line.Dressed dressed) : dressed.trim = line.trim := by
  obtain ⟨before, after, hbefore, hafter, rfl⟩ := hdressed
  exact trim_white_around hbefore.white hafter.white line

theorem isRuleComment_eq (hdressed : line.Dressed dressed) (hunbroken : line.Unbroken) :
    dressed.isRuleComment = line.isRuleComment := by
  rw [Bool.eq_iff_iff, (hdressed.unbroken hunbroken).isRuleComment_iff,
    hunbroken.isRuleComment_iff]
  exact hdressed.annotated_iff

theorem ofLine?_eq (hdressed : line.Dressed dressed) (hunbroken : line.Unbroken)
    (prefixWidth lineNumber : Nat) :
    Rule.ofLine? prefixWidth lineNumber dressed = Rule.ofLine? prefixWidth lineNumber line := by
  rw [Rule.ofLine?, hdressed.isRuleComment_eq hunbroken, hdressed.trim_eq]
  rfl

end Dressed

theorem unbroken_of_dressed {lines dressed : List Text}
    (hdressed : List.Forall₂ Dressed lines dressed) (hlines : ∀ line ∈ lines, line.Unbroken) :
    ∀ line ∈ dressed, line.Unbroken := by
  induction hdressed with
  | nil => exact hlines
  | cons hline _ ih =>
      obtain ⟨hunbroken, hrest⟩ := List.forall_mem_cons.mp hlines
      exact List.forall_mem_cons.mpr ⟨hline.unbroken hunbroken, ih hrest⟩

end Text

namespace Rule

theorem ofLines_cons (prefixWidth : Nat) (line : Text) (lines : List Text) :
    ofLines prefixWidth (line :: lines) =
      (ofLine? prefixWidth 1 line).toList ++ (ofLines prefixWidth lines).map (·.raise 1) := by
  have happend := ofLines_append prefixWidth [line] lines
  rw [List.singleton_append, List.length_singleton] at happend
  rw [happend]
  rfl

theorem ofLines_of_dressed {lines dressed : List Text}
    (hdressed : List.Forall₂ Text.Dressed lines dressed)
    (hlines : ∀ line ∈ lines, line.Unbroken) (prefixWidth : Nat) :
    ofLines prefixWidth dressed = ofLines prefixWidth lines := by
  induction hdressed with
  | nil => rfl
  | cons hline _ ih =>
      obtain ⟨hunbroken, hrest⟩ := List.forall_mem_cons.mp hlines
      rw [ofLines_cons, ofLines_cons, hline.ofLine?_eq hunbroken, ih hrest]

theorem ofLines_lines {line : Text} (hunbroken : line.Unbroken) (prefixWidth : Nat) :
    ofLines prefixWidth line.lines = ofLines prefixWidth [line] := by
  by_cases hempty : line = []
  · subst hempty
    rfl
  · rw [hunbroken.lines_eq hempty]

end Rule

/-- Lines as they are laid out in a document: with white characters around each, and with a break
behind each but perhaps the last. -/
structure Layout (lines : List Text) where
  ended : List (Text × Break)
  last : Option Text
  dressed : List.Forall₂ Text.Dressed lines (ended.map (·.1) ++ last.toList)
  unpaired : Text.Unpaired ended (last.getD [])

namespace Layout

variable {lines : List Text}

def source (layout : Layout lines) : Text :=
  Text.joinLines layout.ended ++ layout.last.getD []

theorem rules_eq_ofLines (layout : Layout lines) (hlines : ∀ line ∈ lines, line.Unbroken)
    (prefixWidth : Nat) : layout.source.rules prefixWidth = Rule.ofLines prefixWidth lines := by
  obtain ⟨hended, hlast⟩ :=
    List.forall_mem_append.mp (Text.unbroken_of_dressed layout.dressed hlines)
  have hlastLines : Rule.ofLines prefixWidth (layout.last.getD []).lines =
      Rule.ofLines prefixWidth layout.last.toList := by
    cases hcase : layout.last with
    | none => rfl
    | some last => exact Rule.ofLines_lines (hlast last (by simp [hcase])) prefixWidth
  rw [← Rule.ofLines_of_dressed layout.dressed hlines, Text.rules, source,
    Text.lines_joinLines_of_unpaired (List.forall_mem_map.mp hended) layout.unpaired,
    Rule.ofLines_append, Rule.ofLines_append, hlastLines]

theorem rules_agree (hlines : ∀ line ∈ lines, line.Unbroken) (first second : Layout lines)
    (prefixWidth : Nat) :
    first.source.rules prefixWidth = second.source.rules prefixWidth ∧
      first.source.rules prefixWidth = Rule.ofLines prefixWidth lines := by
  have hfirst := first.rules_eq_ofLines hlines prefixWidth
  have hsecond := second.rules_eq_ofLines hlines prefixWidth
  exact ⟨hfirst.trans hsecond.symm, hfirst⟩

def plain (lines : List Text) : Layout lines where
  ended := lines.map (·, .lf)
  last := none
  dressed := by
    have hmap : (lines.map (·, Break.lf)).map (·.1) = lines := by
      rw [List.map_map]
      exact List.map_id lines
    rw [hmap, Option.toList_none, List.append_nil, List.forall₂_same]
    exact fun line _ => .refl line
  unpaired := by
    induction lines with
    | nil => exact trivial
    | cons line lines ih => exact ⟨fun hcr => absurd hcr (by decide), ih⟩

/-- Three lines apart, of which the last has a white character behind its slashes and no break. -/
def spread : Layout ["// a ::= b".toList, [], "//".toList] where
  ended := [("\t// a ::= b\u3000".toList, .cr), ("\u2028".toList, .crlf)]
  last := some "// ".toList
  dressed :=
    .cons ⟨"\t".toList, "\u3000".toList, by decide, by decide, by decide⟩
      (.cons ⟨"\u2028".toList, [], by decide, by decide, by decide⟩
        (.cons ⟨[], " ".toList, by decide, by decide, by decide⟩ .nil))
  unpaired := by decide

theorem rules_agree_spread :
    spread.source = "\t// a ::= b\u3000\r\u2028\r\n// ".toList ∧
      (plain ["// a ::= b".toList, [], "//".toList]).source = "// a ::= b\n\n//\n".toList ∧
      spread.source.rules 3 =
        (plain ["// a ::= b".toList, [], "//".toList]).source.rules 3 ∧
      spread.source.rules 3 = Rule.ofLines 3 ["// a ::= b".toList, [], "//".toList] :=
  ⟨by decide, by decide, rules_agree (by decide) spread (plain _) 3⟩

end Layout

end GrammarListing
