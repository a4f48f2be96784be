import GrammarListing.Proofs.CommandLine.Run
import GrammarListing.Proofs.CommandLine.Spelling
namespace GrammarListing

namespace CommandLine

theorem Arguments.ofWords?_of_spelling {mentions : List Mention} {words : List Bytes}
    (hspelling : Spelling mentions words) :
    ofWords? words = mentions.foldlM take .empty ∨
      Rejected (ofWords? words) ∧ Rejected (mentions.foldlM take .empty) := by
  rw [ofWords?]
  cases Progress.ready_start.takes hspelling with
  | taken hread _ hsettle =>
      rw [hread]
      exact .inl hsettle
  | refused hread htake => exact .inr ⟨hread.bind _, htake⟩

theorem Arguments.rejected_of_spelling {mentions : List Mention} {words : List Bytes}
    (hspelling : Spelling mentions words) (hrepeated : ¬ (mentions.map Mention.named).Nodup) :
    Rejected (ofWords? words) := by
  rcases ofWords?_of_spelling hspelling with heq | hrejected
  · rw [heq]
    exact rejected_of_repeated hrepeated .empty
  · exact hrejected.1

/-- Words that spell mentions, cut in two: between two mentions, or between an option and its
value. -/
inductive Cut : List Mention → List Bytes → List Bytes → Prop
  | between {before after : List Mention} {front back : List Bytes}
      (hfront : Spelling before front) (hback : Spelling after back) :
      Cut (before ++ after) front back
  | within {before after : List Mention} {front back : List Bytes} {target : Parameter}
      {option : String} {value : Bytes} (hoption : option ∈ target.optionWords)
      (hplain : Plain value) (hfront : Spelling before front) (hback : Spelling after back) :
      Cut (before ++ .parameter target value :: after) (front ++ [Text.encode option.toList])
        (value :: back)

theorem Mention.Spelled.singleton_or_apart {mention : Mention} {words : List Bytes}
    (hmention : mention.Spelled words) :
    (∃ word, words = [word]) ∨ ∃ (target : Parameter) (option : String) (value : Bytes),
      option ∈ target.optionWords ∧ Plain value ∧ mention = .parameter target value ∧
        words = [Text.encode option.toList, value] := by
  cases hmention with
  | apart hoption hplain => exact .inr ⟨_, _, _, hoption, hplain, rfl, rfl⟩
  | alone _ => exact .inl ⟨_, rfl⟩
  | assigned _ _ => exact .inl ⟨_, rfl⟩
  | joined _ _ => exact .inl ⟨_, rfl⟩
  | debug _ => exact .inl ⟨_, rfl⟩

theorem Mention.Spelled.plain_of_file {mention : Mention} {words : List Bytes}
    (hmention : mention.Spelled words) (hfile : mention.named = .parameter .file) :
    ∃ word, Plain word ∧ words = [word] := by
  cases hmention with
  | alone hplain => exact ⟨_, hplain, rfl⟩
  | apart hoption _ =>
      cases hfile
      cases hoption
  | assigned hopening _ =>
      cases hfile
      cases hopening
  | joined _ _ => cases hfile
  | debug _ => cases hfile

theorem Spelling.cut {mentions : List Mention} {words front back : List Bytes}
    (hspelling : Spelling mentions words) (hwords : words = front ++ back) :
    Cut mentions front back := by
  induction hspelling generalizing front with
  | nil =>
      obtain ⟨rfl, rfl⟩ := List.append_eq_nil_iff.mp hwords.symm
      exact .between .nil .nil
  | @cons mention mentions words rest hmention hrest ih =>
      -- The cut comes behind the words of the first mention, or not behind all of them.
      rcases List.append_eq_append_iff.mp hwords with ⟨tail, rfl, hlater⟩ | ⟨tail, hcut, rfl⟩
      · cases ih hlater with
        | between hfront hback => exact .between (.cons hmention hfront) hback
        | within hoption hplain hfront hback =>
            rw [← List.append_assoc]
            exact .within hoption hplain (.cons hmention hfront) hback
      · have hbefore : front = [] → Cut (mention :: mentions) front (tail ++ rest) := by
          rintro rfl
          rw [List.nil_append] at hcut
          exact .between .nil (hcut ▸ .cons hmention hrest)
        have hbehind : tail = [] → Cut (mention :: mentions) front (tail ++ rest) := by
          rintro rfl
          rw [List.append_nil] at hcut
          have hfront := Spelling.cons hmention .nil
          rw [List.append_nil, hcut] at hfront
          exact .between hfront hrest
        rcases hmention.singleton_or_apart with
          ⟨word, rfl⟩ | ⟨target, option, value, hoption, hplain, rfl, rfl⟩
        · rcases List.append_eq_singleton_iff.mp hcut.symm with ⟨hnone, _⟩ | ⟨_, hnone⟩
          · exact hbefore hnone
          · exact hbehind hnone
        · rcases List.append_eq_cons_iff.mp hcut.symm with ⟨hnone, _⟩ | ⟨later, rfl, hlater⟩
          · exact hbefore hnone
          · rcases List.append_eq_singleton_iff.mp hlater.symm with ⟨rfl, rfl⟩ | ⟨_, hnone⟩
            · exact .within hoption hplain .nil hrest
            · exact hbehind hnone

def Arguments.SpelledBy (arguments : Arguments) (words : List Bytes) : Prop :=
  ∃ mentions, arguments.Told mentions ∧ Spelling mentions words

theorem Arguments.ofWords?_of_spelledBy {arguments : Arguments} (hgivable : arguments.Givable)
    {words : List Bytes} (hspelled : arguments.SpelledBy words) :
    ofWords? words = .ok arguments := by
  obtain ⟨mentions, htold, hspelling⟩ := hspelled
  have htaken := htold.foldlM_take hgivable
  rcases ofWords?_of_spelling hspelling with heq | ⟨_, error, hrefused⟩
  · rw [heq, htaken]
  · rw [htaken] at hrefused
    cases hrefused

theorem not_nodup_of_mem_middle {before after : List Mention} {mention : Mention}
    (hmem : mention.named ∈ (before ++ after).map Mention.named) :
    ¬ ((before ++ mention :: after).map Mention.named).Nodup := by
  rw [List.map_append, List.map_cons, List.nodup_middle, List.nodup_cons, ← List.map_append]
  exact fun honce => honce.1 hmem

theorem Arguments.rejected_of_inserted {arguments : Arguments} {front extra back : List Bytes}
    {mention : Mention} (hspelled : arguments.SpelledBy (front ++ back))
    (hextra : mention.Spelled extra) (hgiven : arguments.gives mention.named) :
    Rejected (ofWords? (front ++ (extra ++ back))) := by
  obtain ⟨mentions, htold, hspelling⟩ := hspelled
  have hmem := htold.all mention.named hgiven
  cases hspelling.cut rfl with
  | @between before after _ _ hfront hback =>
      exact rejected_of_spelling (hfront.append (.cons hextra hback))
        (not_nodup_of_mem_middle hmem)
  | @within before after front back target option value hoption hplain hfront hback =>
      rw [List.append_assoc]
      by_cases hfile : mention.named = .parameter .file
      · -- The word in between is read as the value, and the value as another file.
        obtain ⟨word, hword, rfl⟩ := hextra.plain_of_file hfile
        have hread : Spelling (before ++ .parameter target word :: .parameter .file value :: after)
            (front ++ ([Text.encode option.toList, word] ++ ([value] ++ back))) :=
          hfront.append (.cons (.apart hoption hword) (.cons (.alone hplain) hback))
        refine rejected_of_spelling hread ?_
        rw [List.append_cons]
        refine not_nodup_of_mem_middle ?_
        rw [hfile] at hmem
        simpa [Mention.named] using hmem
      · refine Rejected.bind ?_ _
        exact Progress.ready_start.rejected_append hfront fun after hafter =>
          hafter.rejected_interrupted hoption hextra hfile (value :: back)

theorem run_of_rejected {words : List Bytes} (hrejected : Rejected (Arguments.ofWords? words))
    (host : Host) (program : Option Path) (input : Reader) :
    (run host program words input).exit.code = 2 ∧ (run host program words input).output = [] := by
  obtain ⟨error, hwords⟩ := hrejected
  rw [run, hwords]
  exact ⟨rfl, rfl⟩

theorem arguments_of_spelling {arguments : Arguments} (hgivable : arguments.Givable) :
    (∀ words, arguments.SpelledBy words → Arguments.ofWords? words = .ok arguments) ∧
    (arguments.usesStdin ↔ arguments.file = some (.ofString "-")) ∧
    ∀ (front extra back : List Bytes) (mention : Mention),
      arguments.SpelledBy (front ++ back) → mention.Spelled extra →
      arguments.gives mention.named →
      ∀ (host : Host) (program : Option Path) (input : Reader),
        (run host program (front ++ (extra ++ back)) input).exit.code = 2 ∧
        (run host program (front ++ (extra ++ back)) input).output = [] := by
  refine ⟨fun words => Arguments.ofWords?_of_spelledBy hgivable, usesStdin_iff, ?_⟩
  intro front extra back mention hspelled hextra hgiven host program input
  exact run_of_rejected (Arguments.rejected_of_inserted hspelled hextra hgiven) host program input

/-- A width at the limit, a configuration file whose name is no text, and a file that is named
between an option and its value. -/
theorem arguments_of_spelling_unusual :
    Arguments.ofWords? [Text.encode "-D".toList, Text.encode "-p".toList,
        Text.encode "18446744073709551615".toList, Text.encode "-".toList,
        Text.encode "--config=".toList ++ [0xFF, 0x3D]] =
      .ok ⟨some (.ofString "-"), some 18446744073709551615, some ⟨[0xFF, 0x3D]⟩, true⟩ ∧
    ∀ (host : Host) (program : Option Path) (input : Reader),
      (run host program [Text.encode "-D".toList, Text.encode "-p".toList,
        Text.encode "b.c".toList, Text.encode "18446744073709551615".toList,
        Text.encode "-".toList, Text.encode "--config=".toList ++ [0xFF, 0x3D]]
        input).exit.code = 2 := by
  have hgivable : Arguments.Givable
      ⟨some (.ofString "-"), some 18446744073709551615, some ⟨[0xFF, 0x3D]⟩, true⟩ := by
    refine ⟨?_, ?_, ?_⟩
    all_goals
      rintro _ ⟨⟩
      decide
  have hdecimal : Text.Decimal "18446744073709551615".toList 18446744073709551615 :=
    ⟨by decide, List.all_eq_true.mp rfl, by decide⟩
  have hspelled : Arguments.SpelledBy
      ⟨some (.ofString "-"), some 18446744073709551615, some ⟨[0xFF, 0x3D]⟩, true⟩
      [Text.encode "-D".toList, Text.encode "-p".toList,
        Text.encode "18446744073709551615".toList, Text.encode "-".toList,
        Text.encode "--config=".toList ++ [0xFF, 0x3D]] := by
    refine ⟨[.debug, .parameter .prefixWidth (Text.encode "18446744073709551615".toList),
      .parameter .file (Text.encode "-".toList), .parameter .config [0xFF, 0x3D]],
      ⟨?_, by decide, ?_⟩, ?_⟩
    · simp only [List.forall_mem_cons]
      exact ⟨.debug rfl, .prefixWidth rfl hdecimal, .file rfl, .config rfl, List.forall_mem_nil _⟩
    · rintro ((_ | _ | _) | (_ | _ | _)) <;> decide
    · refine .cons (.debug (by decide)) (.cons (.apart (by decide) (.inr (by decide)))
        (.cons (.alone (.inl rfl)) (.cons (.assigned (by decide) [0xFF, 0x3D]) .nil)))
  obtain ⟨haccepted, _, hrejected⟩ := arguments_of_spelling hgivable
  refine ⟨haccepted _ hspelled, fun host program input => ?_⟩
  exact (hrejected [Text.encode "-D".toList, Text.encode "-p".toList] [Text.encode "b.c".toList]
    [Text.encode "18446744073709551615".toList, Text.encode "-".toList,
      Text.encode "--config=".toList ++ [0xFF, 0x3D]] (.parameter .file _) hspelled
    (.alone (.inr (by decide))) rfl host program input).1

end CommandLine

end GrammarListing
