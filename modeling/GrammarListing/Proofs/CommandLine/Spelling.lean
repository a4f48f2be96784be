import GrammarListing.Proofs.CommandLine.Mention
import GrammarListing.Proofs.Text.Offset
namespace GrammarListing

/-! How mentions are spelled.  Words that spell mentions, each in one of its ways, are read as these
mentions are taken in, one after the other: to the same arguments, or both are rejected. -/

namespace CommandLine

def Plain (word : Bytes) : Prop :=
  word = [Progress.dash] ∨ word.head? ≠ some Progress.dash

theorem plain_of_decimal {digits : Text} {number : Nat} (hdecimal : digits.Decimal number) :
    Plain digits.encode := by
  refine .inr fun hhead => ?_
  obtain ⟨back, hencode⟩ := List.head?_eq_some_iff.mp hhead
  obtain ⟨after, rfl, _⟩ := Text.exists_of_encode_cons_ascii (by decide) hencode
  exact absurd (hdecimal.digit '-' List.mem_cons_self) (by decide)

def Parameter.optionWords : Parameter → List String
  | .file => []
  | .prefixWidth => ["-p", "--prefix-width"]
  | .config => ["-c", "--config"]

def Parameter.openings : Parameter → List String
  | .file => []
  | .prefixWidth => ["--prefix-width="]
  | .config => ["--config="]

inductive Mention.Spelled : Mention → List Bytes → Prop
  | alone {word : Bytes} (hplain : Plain word) : Spelled (.parameter .file word) [word]
  | apart {target : Parameter} {option : String} {value : Bytes}
      (hoption : option ∈ target.optionWords) (hplain : Plain value) :
      Spelled (.parameter target value) [Text.encode option.toList, value]
  | assigned {target : Parameter} {opening : String} (hopening : opening ∈ target.openings)
      (value : Bytes) : Spelled (.parameter target value) [Text.encode opening.toList ++ value]
  | joined {text : Text} (hne : text ≠ []) (hhead : text.head? ≠ some '=') :
      Spelled (.parameter .prefixWidth text.encode) [Text.encode ('-' :: 'p' :: text)]
  | debug {word : String} (hword : word ∈ ["-D", "--debug"]) :
      Spelled .debug [Text.encode word.toList]

inductive Spelling : List Mention → List Bytes → Prop
  | nil : Spelling [] []
  | cons {mention : Mention} {mentions : List Mention} {words rest : List Bytes}
      (hmention : mention.Spelled words) (hrest : Spelling mentions rest) :
      Spelling (mention :: mentions) (words ++ rest)

theorem Spelling.append {mentions others : List Mention} {words rest : List Bytes}
    (hwords : Spelling mentions words) (hrest : Spelling others rest) :
    Spelling (mentions ++ others) (words ++ rest) := by
  induction hwords with
  | nil => exact hrest
  | cons hmention _ ih =>
      rw [List.append_assoc]
      exact .cons hmention ih

namespace Progress

variable {progress : Progress}

theorem read_of_plain {word : Bytes} (honly : progress.onlyFiles = false) (hplain : Plain word) :
    progress.read word = progress.readPlain word := by
  rw [read, honly, if_neg Bool.false_ne_true]
  rcases hplain with rfl | hhead
  · rfl
  · cases word with
    | nil => rfl
    | cons byte word =>
        have hbyte : dash ≠ byte := fun heq => hhead (congrArg some heq.symm)
        simp [List.isPrefixOf, hbyte, hbyte.symm]

theorem read_value (honly : progress.onlyFiles = false) {target : Parameter}
    (hwaiting : progress.waiting = some ⟨target, none⟩) {value : Bytes} (hplain : Plain value) :
    progress.read value = .ok { progress with waiting := some ⟨target, some value⟩ } := by
  rw [read_of_plain honly hplain, readPlain, hwaiting]

theorem read_option (honly : progress.onlyFiles = false) {target : Parameter} {option : String}
    (hoption : option ∈ target.optionWords) :
    progress.read (Text.encode option.toList) = progress.wait target none := by
  rw [read, honly, if_neg Bool.false_ne_true]
  cases target with
  | file => cases hoption
  | prefixWidth =>
      rcases List.mem_pair.mp hoption with rfl | rfl
      · rfl
      · rfl
  | config =>
      rcases List.mem_pair.mp hoption with rfl | rfl
      · rfl
      · rfl

theorem read_assigned (honly : progress.onlyFiles = false) {target : Parameter}
    {opening : String} (hopening : opening ∈ target.openings) (value : Bytes) :
    progress.read (Text.encode opening.toList ++ value) = progress.set target value := by
  rw [read, honly, if_neg Bool.false_ne_true]
  cases target with
  | file => cases hopening
  | prefixWidth =>
      cases List.mem_singleton.mp hopening
      rfl
  | config =>
      cases List.mem_singleton.mp hopening
      rfl

theorem wellFormed_encode (text : Text) : wellFormed text.encode = text := by
  have hall : (text.map some).takeWhile Option.isSome = text.map some := by
    rw [List.takeWhile_eq_self_iff]
    exact List.forall_mem_map.mpr fun c _ => rfl
  rw [wellFormed, Bytes.units_encode, hall, List.filterMap_map]
  exact List.filterMap_some

theorem read_joined (honly : progress.onlyFiles = false) {text : Text} (hne : text ≠ [])
    (hhead : text.head? ≠ some '=') :
    progress.read (Text.encode ('-' :: 'p' :: text)) =
      progress.set .prefixWidth text.encode := by
  have hletters : progress.read (Text.encode ('-' :: 'p' :: text)) =
      progress.readLetters (wellFormed (Text.encode ('p' :: text)))
        ((Text.encode ('p' :: text)).drop (wellFormed (Text.encode ('p' :: text))).byteLength) := by
    rw [read, honly, if_neg Bool.false_ne_true]
    rfl
  have hrest : (Text.encode ('p' :: text)).drop (Text.byteLength ('p' :: text)) = [] := by
    rw [← Text.length_encode, List.drop_length]
  have hletter : Named.ofLetter? 'p' = some (.parameter .prefixWidth) := rfl
  rw [hletters, wellFormed_encode, hrest, readLetters, hletter]
  dsimp only
  rw [List.append_nil]
  cases hencode : text.encode with
  | nil => exact absurd (Text.encode_eq_nil_iff.mp hencode) hne
  | cons first value =>
      have hfirst : first ≠ equalsSign := by
        rintro rfl
        obtain ⟨after, rfl, _⟩ := Text.exists_of_encode_cons_ascii (by decide) hencode
        exact hhead rfl
      dsimp only
      rw [if_neg hfirst]

theorem read_debug (honly : progress.onlyFiles = false) {word : String}
    (hword : word ∈ ["-D", "--debug"]) :
    progress.read (Text.encode word.toList) = progress.turnOn .debug := by
  rw [read, honly, if_neg Bool.false_ne_true]
  rcases List.mem_pair.mp hword with rfl | rfl
  · have hletter : progress.readLetters ['D'] [] = progress.turnOn .debug := by
      simp only [readLetters, Named.ofLetter?]
      cases progress.turnOn .debug <;> rfl
    exact hletter
  · rfl

/-- Between two mentions: no value is waited for, and a file that was named is among the arguments
once they are settled. -/
structure Ready (progress : Progress) : Prop where
  onlyFiles : progress.onlyFiles = false
  valued : ∀ target, progress.waiting ≠ some ⟨target, none⟩
  named : progress.fileNamed → ∀ arguments, progress.settle = .ok arguments → arguments.has .file

theorem ready_start : start.Ready where
  onlyFiles := rfl
  valued := nofun
  named := nofun

theorem resolved_settle (progress : Progress) : Resolved progress.settle := by
  unfold settle
  split
  · exact .inl ⟨_, rfl⟩
  · exact .inr ⟨_, rfl⟩
  · exact Arguments.resolved_set _ _ _

/-- Words are read as mentions are taken in: to the same arguments, or both are rejected. -/
inductive Takes (progress : Progress) (words : List Bytes) (mentions : List Mention) : Prop
  | taken {after : Progress} (hread : words.foldlM read progress = .ok after)
      (hready : after.Ready)
      (hsettle : after.settle = progress.settle >>= (mentions.foldlM Arguments.take ·)) :
      Takes progress words mentions
  | refused (hread : Rejected (words.foldlM read progress))
      (htake : Rejected (progress.settle >>= (mentions.foldlM Arguments.take ·))) :
      Takes progress words mentions

theorem Takes.append {words rest : List Bytes} {mentions others : List Mention}
    (hwords : progress.Takes words mentions)
    (hrest : ∀ after : Progress, after.Ready → after.Takes rest others) :
    progress.Takes (words ++ rest) (mentions ++ others) := by
  cases hwords with
  | @taken middle hread hready hsettle =>
      have hboth : (progress.settle >>= ((mentions ++ others).foldlM Arguments.take ·)) =
          middle.settle >>= (others.foldlM Arguments.take ·) := by
        simp only [hsettle, List.foldlM_append, bind_assoc]
      have hwhole : (words ++ rest).foldlM read progress = rest.foldlM read middle := by
        rw [List.foldlM_append, hread]
        rfl
      cases hrest middle hready with
      | taken hlater hafter hlast =>
          exact .taken (hwhole.trans hlater) hafter (hlast.trans hboth.symm)
      | refused hlater htake => exact .refused (hwhole ▸ hlater) (hboth ▸ htake)
  | refused hread htake =>
      refine .refused ?_ ?_
      · rw [List.foldlM_append]
        exact hread.bind _
      · simp only [List.foldlM_append, ← bind_assoc]
        exact htake.bind _

def takeIn (progress : Progress) (mention : Mention) : Except Stop Progress := do
  let arguments ← progress.settle
  let arguments ← arguments.take mention
  return { progress with arguments := arguments, waiting := none }

def waitFor (progress : Progress) (target : Parameter) (value : Bytes) (fileNamed : Bool) :
    Except Stop Progress :=
  progress.settle.map fun arguments =>
    { progress with
      arguments := arguments, waiting := some ⟨target, some value⟩, fileNamed := fileNamed }

theorem foldlM_read_single (progress : Progress) (word : Bytes) :
    [word].foldlM read progress = progress.read word :=
  bind_pure _

theorem settle_foldlM_single (progress : Progress) (mention : Mention) :
    (progress.settle >>= ([mention].foldlM Arguments.take ·)) =
      progress.settle >>= (·.take mention) := by
  simp only [List.foldlM_cons, List.foldlM_nil, bind_pure]

namespace Ready

variable {words : List Bytes}

theorem takes_taken (hready : progress.Ready) {mention : Mention}
    (hread : words.foldlM read progress = progress.takeIn mention) :
    progress.Takes words [mention] := by
  rcases progress.resolved_settle with ⟨arguments, hsettle⟩ | hrejected
  · have htaken : (progress.settle >>= ([mention].foldlM Arguments.take ·)) =
        arguments.take mention := by
      rw [settle_foldlM_single, hsettle]
      rfl
    have hwords : words.foldlM read progress = arguments.take mention >>= fun after =>
        .ok { progress with arguments := after, waiting := none } := by
      rw [hread, takeIn, hsettle]
      rfl
    rcases arguments.resolved_take mention with ⟨after, htake⟩ | hrefused
    · rw [htake] at hwords
      refine .taken hwords ⟨hready.onlyFiles, nofun, fun hnamed settled hsettled => ?_⟩
        (htaken.trans htake).symm
      cases hsettled
      have hfile := hready.named hnamed arguments hsettle
      exact (Arguments.gains_of_take htake).kept (.parameter .file) hfile
    · exact .refused (hwords ▸ hrefused.bind _) (htaken ▸ hrefused)
  · exact .refused (hread ▸ hrejected.bind _) (hrejected.bind _)

theorem takes_waiting (hready : progress.Ready) {target : Parameter} {value : Bytes}
    {fileNamed : Bool} (hnamed : fileNamed → progress.fileNamed ∨ target = .file)
    (hread : words.foldlM read progress = progress.waitFor target value fileNamed) :
    progress.Takes words [.parameter target value] := by
  rcases progress.resolved_settle with ⟨arguments, hsettle⟩ | hrejected
  · rw [waitFor, hsettle] at hread
    refine .taken hread ⟨hready.onlyFiles, nofun, fun hfile settled hsettled => ?_⟩ ?_
    · have hgains := Arguments.gains_of_set hsettled
      rcases hnamed hfile with hbefore | rfl
      · exact hgains.kept (.parameter .file) (hready.named hbefore arguments hsettle)
      · exact hgains.present
    · rw [settle_foldlM_single, hsettle]
      rfl
  · exact .refused (hread ▸ hrejected.map _) (hrejected.bind _)

theorem takes_file (hready : progress.Ready) {word : Bytes} (hplain : Plain word) :
    progress.Takes [word] [.parameter .file word] := by
  have hplace : progress.read word = progress.readFile word := by
    rw [read_of_plain hready.onlyFiles hplain, readPlain]
    split
    · next target hwaiting => exact absurd hwaiting (hready.valued target)
    · rfl
  cases hnamed : progress.fileNamed with
  | true =>
      -- A file was named before: neither its name nor this one's is taken in twice.
      refine .refused ⟨.unexpectedArgument word.decodeLossy, ?_⟩ ?_
      · rw [foldlM_read_single, hplace, readFile, if_pos hnamed]
        rfl
      · rw [settle_foldlM_single]
        rcases progress.resolved_settle with ⟨arguments, hsettle⟩ | hrejected
        · rw [hsettle]
          exact ⟨_, if_pos (hready.named hnamed arguments hsettle)⟩
        · exact hrejected.bind _
  | false =>
      have hread : [word].foldlM read progress = progress.waitFor .file word true := by
        rw [foldlM_read_single, hplace, readFile, hnamed, if_neg Bool.false_ne_true]
        rfl
      exact hready.takes_waiting (fun _ => .inr rfl) hread

theorem takes_apart (hready : progress.Ready) {target : Parameter} {option : String}
    {value : Bytes} (hoption : option ∈ target.optionWords) (hplain : Plain value) :
    progress.Takes [Text.encode option.toList, value] [.parameter target value] := by
  have hread : [Text.encode option.toList, value].foldlM read progress =
      progress.waitFor target value progress.fileNamed := by
    rw [List.foldlM_cons, read_option hready.onlyFiles hoption, wait, waitFor]
    rcases progress.resolved_settle with ⟨arguments, hsettle⟩ | ⟨error, hsettle⟩
    · have hvalue := @read_value
        { progress with arguments := arguments, waiting := some ⟨target, none⟩ }
        hready.onlyFiles target rfl value hplain
      rw [hsettle]
      exact (foldlM_read_single _ value).trans hvalue
    · rw [hsettle]
      rfl
  exact hready.takes_waiting .inl hread

theorem takes_mention (hready : progress.Ready) {mention : Mention}
    (hmention : mention.Spelled words) : progress.Takes words [mention] := by
  cases hmention with
  | alone hplain => exact hready.takes_file hplain
  | apart hoption hplain => exact hready.takes_apart hoption hplain
  | assigned hopening value =>
      refine hready.takes_taken ?_
      rw [foldlM_read_single, read_assigned hready.onlyFiles hopening]
      rfl
  | joined hne hhead =>
      refine hready.takes_taken ?_
      rw [foldlM_read_single, read_joined hready.onlyFiles hne hhead]
      rfl
  | debug hword =>
      refine hready.takes_taken ?_
      rw [foldlM_read_single, read_debug hready.onlyFiles hword]
      rfl

theorem takes (hready : progress.Ready) {mentions : List Mention}
    (hspelling : Spelling mentions words) : progress.Takes words mentions := by
  induction hspelling generalizing progress with
  | nil => exact .taken rfl hready (bind_pure _).symm
  | cons hmention _ ih =>
      exact (hready.takes_mention hmention).append fun after hafter => ih hafter

theorem rejected_append (hready : progress.Ready) {mentions : List Mention}
    (hspelling : Spelling mentions words) {later : List Bytes}
    (hlater : ∀ after : Progress, after.Ready → Rejected (later.foldlM read after)) :
    Rejected ((words ++ later).foldlM read progress) := by
  rw [List.foldlM_append]
  cases hready.takes hspelling with
  | taken hread hafter _ =>
      rw [hread]
      exact hlater _ hafter
  | refused hread _ => exact hread.bind _

end Ready

theorem rejected_of_awaiting (honly : progress.onlyFiles = false) {target : Parameter}
    (hwaiting : progress.waiting = some ⟨target, none⟩) {mention : Mention} {words : List Bytes}
    (hmention : mention.Spelled words) (hother : mention.named ≠ .parameter .file) :
    Rejected (words.foldlM read progress) := by
  have hsettle : Rejected progress.settle := ⟨.missingValue target, by rw [settle, hwaiting]⟩
  cases hmention with
  | alone hplain => exact absurd rfl hother
  | apart hoption hplain =>
      rw [List.foldlM_cons, read_option honly hoption]
      exact (hsettle.map _).bind _
  | assigned hopening value =>
      rw [foldlM_read_single, read_assigned honly hopening]
      exact hsettle.bind _
  | joined hne hhead =>
      rw [foldlM_read_single, read_joined honly hne hhead]
      exact hsettle.bind _
  | debug hword =>
      rw [foldlM_read_single, read_debug honly hword]
      exact hsettle.bind _

theorem Ready.rejected_interrupted (hready : progress.Ready) {target : Parameter}
    {option : String} (hoption : option ∈ target.optionWords) {mention : Mention}
    {words : List Bytes} (hmention : mention.Spelled words)
    (hother : mention.named ≠ .parameter .file) (rest : List Bytes) :
    Rejected ((Text.encode option.toList :: (words ++ rest)).foldlM read progress) := by
  rw [List.foldlM_cons, read_option hready.onlyFiles hoption, wait]
  rcases progress.resolved_settle with ⟨arguments, hsettle⟩ | hrejected
  · have hinterrupted := @rejected_of_awaiting
      { progress with arguments := arguments, waiting := some ⟨target, none⟩ }
      hready.onlyFiles target rfl mention words hmention hother
    have hwords := hinterrupted.bind (rest.foldlM read ·)
    rw [← List.foldlM_append] at hwords
    rw [hsettle]
    exact hwords
  · exact (hrejected.map _).bind _

end Progress

end CommandLine

end GrammarListing
