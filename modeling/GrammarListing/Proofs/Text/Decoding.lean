import GrammarListing.Text.Basic
import Mathlib.Data.List.Basic
namespace GrammarListing

/-! Decoding in parts.  Nothing is owed after an ASCII byte, so what stands up to it and what
stands behind it are decoded apart, however malformed either is. -/

/-- What is owed next is a tail byte, and the character that it leads to is not ASCII. -/
structure Owed.Sound (owed : Owed) : Prop where
  low : 0x80 ≤ owed.low.toNat
  high : owed.high.toNat ≤ 0xBF
  beyond : 0x80 ≤ (owed.bits * 64 + (owed.low.toNat - 0x80)) * Nat.pow 64 owed.more

theorem LeadByte.sound_of_ofByte {byte : UInt8} {owed : Owed}
    (hlead : LeadByte.ofByte byte = .sequence owed) : owed.Sound := by
  unfold LeadByte.ofByte at hlead
  simp only [UInt8.lt_iff_toNat_lt, ← UInt8.toNat_inj] at hlead
  -- Each range of lead bytes leaves its own range of second bytes.
  repeat' split at hlead
  all_goals cases hlead
  all_goals
    refine ⟨by simp, by simp, ?_⟩
    simp only [UInt8.reduceToNat, Nat.pow_eq] at *
    omega

theorem LeadByte.eq_of_ofByte_character {byte : UInt8}
    (hlead : LeadByte.ofByte byte = .character '\n') : byte = 0x0A := by
  have hcode : ∀ code < 0x80, Char.ofNat code = '\n' → code = 0x0A := by decide
  unfold LeadByte.ofByte at hlead
  split at hlead
  · next hascii =>
      refine UInt8.toNat_inj.mp (hcode _ (UInt8.lt_iff_toNat_lt.mp hascii) ?_)
      exact LeadByte.character.inj hlead
  · repeat' split at hlead
    all_goals cases hlead

namespace Owed

def gather (owed : Owed) (byte : UInt8) : Nat :=
  owed.bits * 64 + byte.toNat % 64

def Admits (owed : Owed) (byte : UInt8) : Prop :=
  owed.low ≤ byte ∧ byte ≤ owed.high

instance (owed : Owed) (byte : UInt8) : Decidable (owed.Admits byte) :=
  inferInstanceAs (Decidable (_ ∧ _))

theorem Sound.le_gather {owed : Owed} {byte : UInt8} (hsound : owed.Sound)
    (hadmits : owed.Admits byte) :
    owed.bits * 64 + (owed.low.toNat - 0x80) ≤ owed.gather byte := by
  have hlow := UInt8.le_iff_toNat_le.mp hadmits.1
  have hhigh := UInt8.le_iff_toNat_le.mp hadmits.2
  have hsoundLow := hsound.low
  have hsoundHigh := hsound.high
  rw [gather]
  omega

theorem Sound.not_admits_ascii {owed : Owed} {byte : UInt8} (hsound : owed.Sound)
    (hascii : byte < 0x80) : ¬ owed.Admits byte := by
  intro hadmits
  have hlow := UInt8.le_iff_toNat_le.mp hadmits.1
  have hlt := UInt8.lt_iff_toNat_lt.mp hascii
  exact absurd (Nat.le_trans hsound.low hlow) (Nat.not_le_of_lt hlt)

theorem Sound.next {owed : Owed} {byte : UInt8} {more : Nat} (hsound : owed.Sound)
    (hmore : owed.more = more + 1) (hadmits : owed.Admits byte) :
    Owed.Sound ⟨more, 0x80, 0xBF, owed.gather byte⟩ where
  low := by simp
  high := by simp
  beyond := by
    have hbeyond := hsound.beyond
    rw [hmore, Nat.pow_eq, Nat.pow_succ', ← Nat.pow_eq, ← Nat.mul_assoc] at hbeyond
    calc 0x80 ≤ (owed.bits * 64 + (owed.low.toNat - 0x80)) * 64 * Nat.pow 64 more := hbeyond
      _ ≤ owed.gather byte * 64 * Nat.pow 64 more :=
        Nat.mul_le_mul_right _ (Nat.mul_le_mul_right _ (hsound.le_gather hadmits))
      _ = _ := by simp

theorem Sound.char_ne {owed : Owed} {byte : UInt8} (hsound : owed.Sound)
    (hmore : owed.more = 0) (hadmits : owed.Admits byte) :
    Char.ofNat (owed.gather byte) ≠ '\n' := by
  have hbeyond := hsound.beyond
  rw [hmore, Nat.pow_eq, Nat.pow_zero, Nat.mul_one] at hbeyond
  have hgather := Nat.le_trans hbeyond (hsound.le_gather hadmits)
  intro heq
  by_cases hvalid : (owed.gather byte).isValidChar
  · rw [Char.ofNat, dif_pos hvalid] at heq
    have hcode : owed.gather byte = '\n'.toNat := congrArg Char.toNat heq
    rw [hcode] at hgather
    exact absurd hgather (by decide)
  · rw [Char.ofNat, dif_neg hvalid] at heq
    exact absurd heq (by decide)

end Owed

namespace Decoder

def Sound (decoder : Decoder) : Prop :=
  ∀ owed ∈ decoder.owed, owed.Sound

def behind (decoder : Decoder) (units : List (Option Char)) : Decoder :=
  ⟨decoder.owed, decoder.units ++ units⟩

theorem lead_behind (units before : List (Option Char)) (byte : UInt8) :
    lead (units ++ before) byte = (lead units byte).behind before := by
  unfold lead
  cases LeadByte.ofByte byte <;> rfl

/-! The four ways of a push: a byte starts a unit where nothing is owed, is the last one of a
sequence, leads on to the next one, or breaks the sequence off. -/

theorem push_settled (units : List (Option Char)) (byte : UInt8) :
    push ⟨none, units⟩ byte = lead units byte :=
  rfl

theorem push_last {owed : Owed} {byte : UInt8} (hmore : owed.more = 0)
    (hadmits : owed.Admits byte) (units : List (Option Char)) :
    push ⟨some owed, units⟩ byte = ⟨none, some (Char.ofNat (owed.gather byte)) :: units⟩ := by
  obtain ⟨more, low, high, bits⟩ := owed
  cases hmore
  exact if_pos hadmits

theorem push_next {owed : Owed} {byte : UInt8} {more : Nat} (hmore : owed.more = more + 1)
    (hadmits : owed.Admits byte) (units : List (Option Char)) :
    push ⟨some owed, units⟩ byte = ⟨some ⟨more, 0x80, 0xBF, owed.gather byte⟩, units⟩ := by
  obtain ⟨_, low, high, bits⟩ := owed
  cases hmore
  exact if_pos hadmits

theorem push_unadmitted {owed : Owed} {byte : UInt8} (hnot : ¬ owed.Admits byte)
    (units : List (Option Char)) :
    push ⟨some owed, units⟩ byte = lead (none :: units) byte :=
  if_neg hnot

theorem sound_lead (units : List (Option Char)) (byte : UInt8) : (lead units byte).Sound := by
  intro owed howed
  unfold lead at howed
  cases hlead : LeadByte.ofByte byte with
  | character c =>
      rw [hlead] at howed
      cases howed
  | sequence found =>
      rw [hlead] at howed
      cases howed
      exact LeadByte.sound_of_ofByte hlead
  | malformed =>
      rw [hlead] at howed
      cases howed

theorem Sound.push {decoder : Decoder} (hsound : decoder.Sound) (byte : UInt8) :
    (decoder.push byte).Sound := by
  obtain ⟨owed?, units⟩ := decoder
  cases owed? with
  | none => exact sound_lead units byte
  | some owed =>
      by_cases hadmits : owed.Admits byte
      · cases hmore : owed.more with
        | zero =>
            rw [push_last hmore hadmits]
            intro next hnext
            cases hnext
        | succ more =>
            rw [push_next hmore hadmits]
            intro next hnext
            cases hnext
            exact (hsound owed rfl).next hmore hadmits
      · rw [push_unadmitted hadmits]
        exact sound_lead (none :: units) byte

theorem sound_start : start.Sound := by
  intro owed howed
  cases howed

theorem Sound.foldl_push {decoder : Decoder} (hsound : decoder.Sound) (bytes : Bytes) :
    (bytes.foldl Decoder.push decoder).Sound := by
  induction bytes generalizing decoder with
  | nil => exact hsound
  | cons byte bytes ih => exact ih (hsound.push byte)

theorem Sound.push_ascii {decoder : Decoder} (hsound : decoder.Sound) {byte : UInt8}
    (hascii : byte < 0x80) :
    decoder.push byte = ⟨none, some (Char.ofNat byte.toNat) :: decoder.finish.reverse⟩ := by
  obtain ⟨owed?, units⟩ := decoder
  have hlead : ∀ units, lead units byte = ⟨none, some (Char.ofNat byte.toNat) :: units⟩ := by
    intro units
    rw [lead, LeadByte.ofByte, if_pos hascii]
  cases owed? with
  | none =>
      rw [push_settled, hlead]
      simp [finish]
  | some owed =>
      rw [push_unadmitted ((hsound owed rfl).not_admits_ascii hascii), hlead]
      simp [finish]

theorem push_behind (decoder : Decoder) (before : List (Option Char)) (byte : UInt8) :
    (decoder.behind before).push byte = (decoder.push byte).behind before := by
  obtain ⟨owed?, units⟩ := decoder
  cases owed? with
  | none => exact lead_behind units before byte
  | some owed =>
      by_cases hadmits : owed.Admits byte
      · cases hmore : owed.more with
        | zero =>
            rw [behind, push_last hmore hadmits, push_last hmore hadmits]
            rfl
        | succ more =>
            rw [behind, push_next hmore hadmits, push_next hmore hadmits]
            rfl
      · rw [behind, push_unadmitted hadmits, push_unadmitted hadmits]
        exact lead_behind (none :: units) before byte

theorem foldl_push_behind (bytes : Bytes) (decoder : Decoder) (before : List (Option Char)) :
    bytes.foldl push (decoder.behind before) = (bytes.foldl push decoder).behind before := by
  induction bytes generalizing decoder with
  | nil => rfl
  | cons byte bytes ih => rw [List.foldl_cons, push_behind, ih, List.foldl_cons]

theorem finish_behind (decoder : Decoder) (before : List (Option Char)) :
    (decoder.behind before).finish = before.reverse ++ decoder.finish := by
  obtain ⟨owed?, units⟩ := decoder
  cases owed? <;> simp [behind, finish]

theorem finish_foldl_push (bytes : Bytes) (before : List (Option Char)) :
    (bytes.foldl push ⟨none, before⟩).finish = before.reverse ++ Bytes.units bytes := by
  rw [Bytes.units, ← finish_behind, ← foldl_push_behind]
  rfl

/-! Decoding makes no more units than there are bytes: what a byte may end besides its own unit was
owed since an earlier one. -/

def size (decoder : Decoder) : Nat :=
  decoder.units.length + decoder.owed.toList.length

theorem length_finish (decoder : Decoder) : decoder.finish.length = decoder.size := by
  obtain ⟨owed?, units⟩ := decoder
  cases owed? <;> simp [finish, size]

theorem size_lead (units : List (Option Char)) (byte : UInt8) :
    (lead units byte).size = units.length + 1 := by
  unfold lead
  cases LeadByte.ofByte byte <;> rfl

theorem size_push_le (decoder : Decoder) (byte : UInt8) :
    (decoder.push byte).size ≤ decoder.size + 1 := by
  obtain ⟨owed?, units⟩ := decoder
  cases owed? with
  | none => exact Nat.le_of_eq (size_lead units byte)
  | some owed =>
      by_cases hadmits : owed.Admits byte
      · cases hmore : owed.more with
        | zero =>
            rw [push_last hmore hadmits]
            exact Nat.le_succ _
        | succ more =>
            rw [push_next hmore hadmits]
            exact Nat.le_succ _
      · rw [push_unadmitted hadmits]
        exact Nat.le_of_eq (size_lead (none :: units) byte)

theorem size_foldl_push_le (bytes : Bytes) (decoder : Decoder) :
    (bytes.foldl push decoder).size ≤ decoder.size + bytes.length := by
  induction bytes generalizing decoder with
  | nil => exact Nat.le_refl _
  | cons byte bytes ih =>
      have hfirst := decoder.size_push_le byte
      have hrest := ih (decoder.push byte)
      rw [List.foldl_cons, List.length_cons]
      omega

/-- The character that an unfinished sequence leads to is no line feed. -/
theorem head?_finish_owed {owed : Owed} (hsound : owed.Sound) (bytes : Bytes) :
    (bytes.foldl push ⟨some owed, []⟩).finish.head? ≠ some (some '\n') := by
  induction bytes generalizing owed with
  | nil => simp [finish]
  | cons byte bytes ih =>
      rw [List.foldl_cons]
      by_cases hadmits : owed.Admits byte
      · cases hmore : owed.more with
        | zero =>
            rw [push_last hmore hadmits, finish_foldl_push]
            simpa using hsound.char_ne hmore hadmits
        | succ more =>
            rw [push_next hmore hadmits]
            exact ih (hsound.next hmore hadmits)
      · rw [push_unadmitted hadmits, ← List.nil_append [none], lead_behind, foldl_push_behind,
          finish_behind]
        simp

end Decoder

namespace Bytes

theorem length_decodeLossy_le (bytes : Bytes) : bytes.decodeLossy.length ≤ bytes.length := by
  have hsize := Decoder.size_foldl_push_le bytes Decoder.start
  have hstart : Decoder.start.size = 0 := rfl
  rw [hstart, Nat.zero_add] at hsize
  rwa [decodeLossy, List.length_map, units, Decoder.length_finish]

theorem units_concat_ascii (bytes : Bytes) {byte : UInt8} (hascii : byte < 0x80) :
    units (bytes ++ [byte]) = bytes.units ++ [some (Char.ofNat byte.toNat)] := by
  have hsound := Decoder.sound_start.foldl_push bytes
  rw [units, List.foldl_append, List.foldl_cons, hsound.push_ascii hascii]
  simp [Decoder.finish, units]

theorem units_ascii_append (bytes : Bytes) {byte : UInt8} (hascii : byte < 0x80)
    (later : Bytes) :
    units (bytes ++ [byte] ++ later) = units (bytes ++ [byte]) ++ later.units := by
  have hsound := Decoder.sound_start.foldl_push bytes
  rw [units_concat_ascii bytes hascii, units, List.foldl_append, List.foldl_append,
    List.foldl_cons, hsound.push_ascii hascii, List.foldl_nil, Decoder.finish_foldl_push]
  simp [units]

theorem decodeLossy_concat_ascii (bytes : Bytes) {byte : UInt8} (hascii : byte < 0x80) :
    decodeLossy (bytes ++ [byte]) = bytes.decodeLossy ++ [Char.ofNat byte.toNat] := by
  rw [decodeLossy, units_concat_ascii bytes hascii, List.map_append]
  rfl

/-- Bytes that end with an ASCII byte are decoded apart from those behind them. -/
theorem decodeLossy_append {bytes : Bytes} (hends : ∀ byte ∈ bytes.getLast?, byte < 0x80)
    (later : Bytes) :
    decodeLossy (bytes ++ later) = bytes.decodeLossy ++ later.decodeLossy := by
  rcases List.eq_nil_or_concat' bytes with rfl | ⟨before, byte, rfl⟩
  · rfl
  · have hascii : byte < 0x80 := hends byte (by simp)
    rw [decodeLossy, units_ascii_append before hascii, List.map_append]
    rfl

theorem head?_of_head?_decodeLossy {bytes : Bytes} (hhead : bytes.decodeLossy.head? = some '\n') :
    bytes.head? = some 0x0A := by
  cases bytes with
  | nil => cases hhead
  | cons byte bytes =>
      have hunits : units (byte :: bytes) =
          (bytes.foldl Decoder.push (Decoder.lead [] byte)).finish := rfl
      rw [decodeLossy, hunits, List.head?_map, Option.map_eq_some_iff] at hhead
      obtain ⟨unit, hunit, hfeed⟩ := hhead
      unfold Decoder.lead at hunit
      split at hunit
      · next c hlead =>
          rw [Decoder.finish_foldl_push] at hunit
          cases hunit
          exact congrArg some (LeadByte.eq_of_ofByte_character (hfeed ▸ hlead))
      · next owed hlead =>
          have hsound := LeadByte.sound_of_ofByte hlead
          cases unit with
          | none => exact absurd hfeed (by decide)
          | some c =>
              cases hfeed
              exact absurd hunit (Decoder.head?_finish_owed hsound bytes)
      · rw [Decoder.finish_foldl_push] at hunit
        cases hunit
        exact absurd hfeed (by decide)

end Bytes

end GrammarListing
