import GrammarListing.CommandLine.Arguments
import GrammarListing.Proofs.Text.Encoding
import Mathlib.Data.List.Nodup
namespace GrammarListing

structure Text.Decimal (digits : Text) (number : Nat) : Prop where
  ne_nil : digits ≠ []
  digit : ∀ c ∈ digits, c.isDigit
  value : Nat.ofDigitChars 10 digits 0 = number

theorem Text.decimal_toDigits (number : Nat) : Decimal (Nat.toDigits 10 number) number where
  ne_nil := Nat.toDigits_ne_nil
  digit := fun _ hc => Nat.isDigit_of_mem_toDigits (by decide) (by decide) hc
  value := Nat.ofDigitChars_ten_toDigits

namespace CommandLine

theorem le_ofDigitChars (digits : Text) (value : Nat) :
    value ≤ Nat.ofDigitChars 10 digits value := by
  induction digits generalizing value with
  | nil => exact Nat.le_refl value
  | cons c digits ih =>
      rw [Nat.ofDigitChars_cons]
      exact Nat.le_trans (by omega) (ih _)

/-- Digits are read to the end if what they stand for is below the limit: no value on the way is
greater. -/
theorem widthFrom?_of_digits {digits : Text} (hdigits : ∀ c ∈ digits, c.isDigit) {value : Nat}
    (hlimit : Nat.ofDigitChars 10 digits value < widthLimit) :
    widthFrom? value digits = .ok (Nat.ofDigitChars 10 digits value) := by
  induction digits generalizing value with
  | nil => rfl
  | cons c digits ih =>
      obtain ⟨hc, hrest⟩ := List.forall_mem_cons.mp hdigits
      rw [Nat.ofDigitChars_cons] at hlimit ⊢
      have hvalue : value * 10 + Text.digitValue c = 10 * value + (c.toNat - '0'.toNat) := by
        rw [Text.digitValue, if_pos hc, Nat.mul_comm]
      have hlt := Nat.lt_of_le_of_lt (le_ofDigitChars digits _) hlimit
      rw [widthFrom?, if_pos hc]
      dsimp only
      rw [hvalue, if_pos hlt, ih hrest hlimit]

theorem width?_of_decimal {digits : Text} {number : Nat} (hdecimal : digits.Decimal number)
    (hlimit : number < widthLimit) : width? digits = .ok number := by
  obtain ⟨hne, hdigits, rfl⟩ := hdecimal
  unfold width?
  split
  · exact absurd rfl hne
  · exact absurd (hdigits '+' List.mem_cons_self) (by decide)
  · exact absurd (hdigits '+' List.mem_cons_self) (by decide)
  · exact widthFrom?_of_digits hdigits hlimit

theorem Arguments.widthOf?_of_decimal {digits : Text} {number : Nat}
    (hdecimal : digits.Decimal number) (hlimit : number < widthLimit) :
    widthOf? digits.encode = .ok number := by
  have hdecode : digits.encode.decode? = some digits := Bytes.decode?_eq_some_iff.mpr rfl
  rw [widthOf?, hdecode]
  dsimp only
  rw [width?_of_decimal hdecimal hlimit]
  rfl

/-- There is nothing but a message on what is wrong with the command line. -/
def Rejected {Value : Type} (result : Except Stop Value) : Prop :=
  ∃ error, result = .error (.rejected error)

def Resolved {Value : Type} (result : Except Stop Value) : Prop :=
  (∃ value, result = .ok value) ∨ Rejected result

theorem Rejected.bind {Value Other : Type} {result : Except Stop Value}
    (hrejected : Rejected result) (later : Value → Except Stop Other) :
    Rejected (result >>= later) := by
  obtain ⟨error, rfl⟩ := hrejected
  exact ⟨error, rfl⟩

theorem Rejected.map {Value Other : Type} {result : Except Stop Value}
    (hrejected : Rejected result) (extend : Value → Other) : Rejected (result.map extend) := by
  obtain ⟨error, rfl⟩ := hrejected
  exact ⟨error, rfl⟩

theorem Resolved.map {Value Other : Type} {result : Except Stop Value} (hresolved : Resolved result)
    (extend : Value → Other) : Resolved (result.map extend) := by
  rcases hresolved with ⟨value, rfl⟩ | hrejected
  · exact .inl ⟨extend value, rfl⟩
  · exact .inr (hrejected.map extend)

inductive Mention where
  | parameter (target : Parameter) (value : Bytes)
  | debug

def Mention.named : Mention → Named
  | .parameter target _ => .parameter target
  | .debug => .switch .debug

namespace Arguments

variable {arguments after : Arguments} {mention : Mention}

def gives (arguments : Arguments) : Named → Bool
  | .parameter target => arguments.has target
  | .switch .debug => arguments.debug
  | .switch _ => false

def take (arguments : Arguments) : Mention → Except Stop Arguments
  | .parameter target value => arguments.set target value
  | .debug => arguments.turnOn .debug

inductive Tells (arguments : Arguments) : Mention → Prop
  | file {path : Path} (hfile : arguments.file = some path) :
      Tells arguments (.parameter .file path.bytes)
  | prefixWidth {width : Nat} (hwidth : arguments.prefixWidth = some width) {digits : Text}
      (hdecimal : digits.Decimal width) :
      Tells arguments (.parameter .prefixWidth digits.encode)
  | config {path : Path} (hconfig : arguments.config = some path) :
      Tells arguments (.parameter .config path.bytes)
  | debug (hdebug : arguments.debug) : Tells arguments .debug

/-- Mentions that tell every part of the arguments that is given, each once. -/
structure Told (arguments : Arguments) (mentions : List Mention) : Prop where
  tells : ∀ mention ∈ mentions, arguments.Tells mention
  once : (mentions.map Mention.named).Nodup
  all : ∀ named, arguments.gives named → named ∈ mentions.map Mention.named

structure Givable (arguments : Arguments) : Prop where
  file : ∀ path, arguments.file = some path → ¬ path.isEmpty
  prefixWidth : ∀ width, arguments.prefixWidth = some width → width < widthLimit
  config : ∀ path, arguments.config = some path → ¬ path.isEmpty

def only (arguments : Arguments) (names : List Named) : Arguments where
  file := if .parameter .file ∈ names then arguments.file else none
  prefixWidth := if .parameter .prefixWidth ∈ names then arguments.prefixWidth else none
  config := if .parameter .config ∈ names then arguments.config else none
  debug := if .switch .debug ∈ names then arguments.debug else false

theorem only_nil (arguments : Arguments) : arguments.only [] = .empty :=
  rfl

theorem only_of_all {names : List Named}
    (hall : ∀ named, arguments.gives named → named ∈ names) : arguments.only names = arguments := by
  have hpart : ∀ {Part : Type} (part : Option Part) (named : Named),
      (part.isSome → named ∈ names) → (if named ∈ names then part else none) = part := by
    intro Part part named hnamed
    cases part with
    | none => exact ite_self none
    | some value => exact if_pos (hnamed rfl)
  have hdebug : (if .switch .debug ∈ names then arguments.debug else false) =
      arguments.debug := by
    cases hshown : arguments.debug with
    | false => exact ite_self false
    | true => exact if_pos (hall (.switch .debug) hshown)
  rw [only, hpart _ _ (hall (.parameter .file)), hpart _ _ (hall (.parameter .prefixWidth)),
    hpart _ _ (hall (.parameter .config)), hdebug]

theorem not_gives_only {names : List Named} {named : Named} (hfresh : named ∉ names) :
    ¬ (arguments.only names).gives named := by
  rcases named with (_ | _ | _) | (_ | _ | _) <;> simp [gives, has, only, hfresh]

theorem take_only (hgivable : arguments.Givable) (htells : arguments.Tells mention)
    {names : List Named} (hfresh : mention.named ∉ names) :
    (arguments.only names).take mention = .ok (arguments.only (names ++ [mention.named])) := by
  cases htells with
  | @file path hfile =>
      have habsent : ¬ (arguments.only names).has .file := not_gives_only hfresh
      have hpath : pathOf? .file path.bytes = .ok path := if_neg (hgivable.file path hfile)
      rw [take, set, if_neg habsent, hpath]
      simp [Except.map, only, Mention.named, hfile]
  | @prefixWidth width hwidth digits hdecimal =>
      have habsent : ¬ (arguments.only names).has .prefixWidth := not_gives_only hfresh
      have hread := widthOf?_of_decimal hdecimal (hgivable.prefixWidth width hwidth)
      rw [take, set, if_neg habsent, hread]
      simp [Except.map, only, Mention.named, hwidth]
  | @config path hconfig =>
      have habsent : ¬ (arguments.only names).has .config := not_gives_only hfresh
      have hpath : pathOf? .config path.bytes = .ok path := if_neg (hgivable.config path hconfig)
      rw [take, set, if_neg habsent, hpath]
      simp [Except.map, only, Mention.named, hconfig]
  | debug hdebug =>
      have habsent : ¬ (arguments.only names).debug := not_gives_only hfresh
      rw [take, turnOn, if_neg habsent]
      simp [only, Mention.named, hdebug]

theorem foldlM_take_only (hgivable : arguments.Givable) {mentions : List Mention}
    (htells : ∀ mention ∈ mentions, arguments.Tells mention) {names : List Named}
    (honce : (names ++ mentions.map Mention.named).Nodup) :
    mentions.foldlM take (arguments.only names) =
      .ok (arguments.only (names ++ mentions.map Mention.named)) := by
  -- The names that are taken in grow by one at each mention.
  induction mentions generalizing names with
  | nil => rw [List.map_nil, List.append_nil]; rfl
  | cons mention mentions ih =>
      obtain ⟨hmention, hrest⟩ := List.forall_mem_cons.mp htells
      rw [List.map_cons] at honce ⊢
      have hfresh := (List.nodup_cons.mp (List.nodup_middle.mp honce)).1
      have hstep := take_only hgivable hmention fun hin => hfresh (List.mem_append_left _ hin)
      rw [List.append_cons names mention.named (mentions.map Mention.named)] at honce ⊢
      rw [List.foldlM_cons, hstep]
      exact ih hrest honce

theorem Told.foldlM_take {mentions : List Mention} (htold : arguments.Told mentions)
    (hgivable : arguments.Givable) : mentions.foldlM take .empty = .ok arguments := by
  have htaken := @foldlM_take_only arguments hgivable mentions htold.tells [] htold.once
  rwa [only_nil, List.nil_append, only_of_all htold.all] at htaken

theorem resolved_pathOf? (target : Parameter) (value : Bytes) :
    Resolved (pathOf? target value) := by
  unfold pathOf?
  split
  · exact .inr ⟨_, rfl⟩
  · exact .inl ⟨_, rfl⟩

theorem resolved_widthOf? (value : Bytes) : Resolved (widthOf? value) := by
  unfold widthOf?
  split
  · next text _ =>
      cases width? text with
      | error defect => exact .inr ⟨_, rfl⟩
      | ok width => exact .inl ⟨width, rfl⟩
  · exact .inr ⟨_, rfl⟩

theorem resolved_set (arguments : Arguments) (target : Parameter) (value : Bytes) :
    Resolved (arguments.set target value) := by
  unfold set
  split
  · exact .inr ⟨_, rfl⟩
  · cases target with
    | file => exact (resolved_pathOf? .file value).map _
    | prefixWidth => exact (resolved_widthOf? value).map _
    | config => exact (resolved_pathOf? .config value).map _

theorem resolved_take (arguments : Arguments) (mention : Mention) :
    Resolved (arguments.take mention) := by
  cases mention with
  | parameter target value => exact arguments.resolved_set target value
  | debug =>
      rw [take, turnOn]
      split
      · exact .inr ⟨_, rfl⟩
      · exact .inl ⟨_, rfl⟩

theorem resolved_foldlM_take (arguments : Arguments) (mentions : List Mention) :
    Resolved (mentions.foldlM take arguments) := by
  induction mentions generalizing arguments with
  | nil => exact .inl ⟨arguments, rfl⟩
  | cons mention mentions ih =>
      rw [List.foldlM_cons]
      rcases arguments.resolved_take mention with ⟨after, htake⟩ | hrejected
      · rw [htake]
        exact ih after
      · exact .inr (hrejected.bind _)

structure Gains (arguments : Arguments) (named : Named) (after : Arguments) : Prop where
  absent : ¬ arguments.gives named
  present : after.gives named
  kept : ∀ other, arguments.gives other → after.gives other

theorem map_eq_ok {Value : Type} {found : Except Stop Value} {extend : Value → Arguments}
    (hok : found.map extend = .ok after) : ∃ value, after = extend value := by
  cases found with
  | error other => cases hok
  | ok value =>
      cases hok
      exact ⟨value, rfl⟩

theorem gains_of_set {target : Parameter} {value : Bytes}
    (hset : arguments.set target value = .ok after) :
    arguments.Gains (.parameter target) after := by
  unfold set at hset
  split at hset
  · cases hset
  · next habsent =>
      -- Each parameter fills a field of its own and leaves the others.
      cases target
      all_goals
        obtain ⟨found, rfl⟩ := map_eq_ok hset
        refine ⟨habsent, rfl, ?_⟩
        rintro ((_ | _ | _) | (_ | _ | _)) <;> simp [gives, has]

theorem gains_of_take (htake : arguments.take mention = .ok after) :
    arguments.Gains mention.named after := by
  cases mention with
  | parameter target value => exact gains_of_set htake
  | debug =>
      rw [take, turnOn] at htake
      split at htake
      · cases htake
      · next habsent =>
          cases htake
          refine ⟨habsent, rfl, ?_⟩
          rintro ((_ | _ | _) | (_ | _ | _)) <;> simp [gives, has]

theorem nodup_of_foldlM_take {mentions : List Mention}
    (htake : mentions.foldlM take arguments = .ok after) :
    (mentions.map Mention.named).Nodup ∧
      ∀ named ∈ mentions.map Mention.named, ¬ arguments.gives named := by
  induction mentions generalizing arguments with
  | nil => exact ⟨List.nodup_nil, nofun⟩
  | cons mention mentions ih =>
      rw [List.foldlM_cons] at htake
      cases hfirst : arguments.take mention with
      | error stop =>
          rw [hfirst] at htake
          cases htake
      | ok middle =>
          rw [hfirst] at htake
          obtain ⟨honce, hfresh⟩ := ih htake
          have hgains := gains_of_take hfirst
          rw [List.map_cons]
          refine ⟨List.nodup_cons.mpr ⟨fun hin => hfresh _ hin hgains.present, honce⟩, ?_⟩
          exact List.forall_mem_cons.mpr
            ⟨hgains.absent, fun named hin hgiven => hfresh named hin (hgains.kept named hgiven)⟩

theorem rejected_of_repeated {mentions : List Mention}
    (hrepeated : ¬ (mentions.map Mention.named).Nodup) (arguments : Arguments) :
    Rejected (mentions.foldlM take arguments) := by
  rcases arguments.resolved_foldlM_take mentions with ⟨after, htake⟩ | hrejected
  · exact absurd (nodup_of_foldlM_take htake).1 hrepeated
  · exact hrejected

end Arguments

end CommandLine

end GrammarListing
