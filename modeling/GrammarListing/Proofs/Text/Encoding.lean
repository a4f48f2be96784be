import GrammarListing.Proofs.Text.Decoding
namespace GrammarListing

/-! Encoded text is decoded to itself.  A character's first byte tells how many bytes there are and
leaves a range for the second one that its code lies in; the bytes after the first have six bits
each. -/

namespace LeadByte

theorem ofByte_one {code : Nat} (hhigh : code < 0x80) :
    ofByte (UInt8.ofNat code) = .character (Char.ofNat code) := by
  have hcode : (UInt8.ofNat code).toNat = code := by
    simp only [UInt8.toNat_ofNat']
    omega
  simp only [ofByte, UInt8.lt_iff_toNat_lt, hcode]
  exact if_pos hhigh

theorem ofByte_two {code : Nat} (hlow : 0xC2 ≤ code) (hhigh : code < 0xE0) :
    ofByte (UInt8.ofNat code) = .sequence ⟨0, 0x80, 0xBF, code - 0xC0⟩ := by
  have hcode : (UInt8.ofNat code).toNat = code := by
    simp only [UInt8.toNat_ofNat']
    omega
  simp only [ofByte, UInt8.lt_iff_toNat_lt, hcode]
  rw [if_neg (by simp; omega), if_neg (by simp; omega), if_pos (by simpa using hhigh)]

theorem ofByte_three {code : Nat} (hlow : 0xE0 ≤ code) (hhigh : code < 0xF0) :
    ofByte (UInt8.ofNat code) = .sequence ⟨1, if code = 0xE0 then 0xA0 else 0x80,
      if code = 0xED then 0x9F else 0xBF, code - 0xE0⟩ := by
  have hcode : (UInt8.ofNat code).toNat = code := by
    simp only [UInt8.toNat_ofNat']
    omega
  simp only [ofByte, UInt8.lt_iff_toNat_lt, ← UInt8.toNat_inj, hcode]
  rw [if_neg (by simp; omega), if_neg (by simp; omega), if_neg (by simp; omega)]
  by_cases hfirst : code = 0xE0
  · subst hfirst
    rfl
  by_cases hsurrogate : code = 0xED
  · subst hsurrogate
    rfl
  rw [if_neg hfirst, if_neg hsurrogate]
  simp [hfirst, hsurrogate, hhigh]

theorem ofByte_four {code : Nat} (hlow : 0xF0 ≤ code) (hhigh : code < 0xF5) :
    ofByte (UInt8.ofNat code) = .sequence ⟨2, if code = 0xF0 then 0x90 else 0x80,
      if code = 0xF4 then 0x8F else 0xBF, code - 0xF0⟩ := by
  have hcases : code = 0xF0 ∨ code = 0xF1 ∨ code = 0xF2 ∨ code = 0xF3 ∨ code = 0xF4 := by omega
  rcases hcases with rfl | rfl | rfl | rfl | rfl <;> rfl

end LeadByte

namespace Owed

variable {more bits tail : Nat} {low high : UInt8}

theorem admits_tail (hlow : low.toNat ≤ tail + 0x80) (hhigh : tail + 0x80 ≤ high.toNat) :
    Owed.Admits ⟨more, low, high, bits⟩ (UInt8.ofNat (tail + 0x80)) := by
  have hbyte := high.toNat_lt
  have htail : (UInt8.ofNat (tail + 0x80)).toNat = tail + 0x80 := by
    simp only [UInt8.toNat_ofNat']
    omega
  rw [Admits, UInt8.le_iff_toNat_le, UInt8.le_iff_toNat_le, htail]
  exact ⟨hlow, hhigh⟩

theorem gather_tail (htail : tail < 64) :
    Owed.gather ⟨more, low, high, bits⟩ (UInt8.ofNat (tail + 0x80)) = bits * 64 + tail := by
  simp only [gather, UInt8.toNat_ofNat']
  omega

end Owed

namespace Decoder

theorem push_lead {byte : UInt8} {owed : Owed} (hlead : LeadByte.ofByte byte = .sequence owed)
    (units : List (Option Char)) : push ⟨none, units⟩ byte = ⟨some owed, units⟩ := by
  simp only [push, lead, hlead]

variable {more bits tail : Nat} {low high : UInt8}

theorem push_tail_last (htail : tail < 64) (hlow : low.toNat ≤ tail + 0x80)
    (hhigh : tail + 0x80 ≤ high.toNat) (units : List (Option Char)) :
    push ⟨some ⟨0, low, high, bits⟩, units⟩ (UInt8.ofNat (tail + 0x80)) =
      ⟨none, some (Char.ofNat (bits * 64 + tail)) :: units⟩ := by
  rw [push_last rfl (Owed.admits_tail hlow hhigh), Owed.gather_tail htail]

theorem push_tail_next (htail : tail < 64) (hlow : low.toNat ≤ tail + 0x80)
    (hhigh : tail + 0x80 ≤ high.toNat) (units : List (Option Char)) :
    push ⟨some ⟨more + 1, low, high, bits⟩, units⟩ (UInt8.ofNat (tail + 0x80)) =
      ⟨some ⟨more, 0x80, 0xBF, bits * 64 + tail⟩, units⟩ := by
  rw [push_next rfl (Owed.admits_tail hlow hhigh), Owed.gather_tail htail]

theorem push_encodeChar (c : Char) (units : List (Option Char)) :
    (String.utf8EncodeChar c).foldl push ⟨none, units⟩ = ⟨none, some c :: units⟩ := by
  have hc : Char.ofNat c.val.toNat = c := c.ofNat_toNat
  have hvalid : c.val.toNat < 0xD800 ∨ 0xDFFF < c.val.toNat ∧ c.val.toNat < 0x110000 := c.valid
  unfold String.utf8EncodeChar
  generalize c.val.toNat = code at hc hvalid
  subst hc
  dsimp only
  split
  · next hone =>
      rw [List.foldl_cons, List.foldl_nil]
      simp only [push, lead, LeadByte.ofByte_one (Nat.lt_succ_of_le hone)]
  split
  · next hone htwo =>
      rw [List.foldl_cons, List.foldl_cons, List.foldl_nil,
        push_lead (LeadByte.ofByte_two (by omega) (by omega)),
        push_tail_last (by omega) (by simp) (by simp; omega)]
      congr 4
      omega
  split
  · next hone htwo hthree =>
      rw [List.foldl_cons, List.foldl_cons, List.foldl_cons, List.foldl_nil,
        push_lead (LeadByte.ofByte_three (by omega) (by omega)),
        push_tail_next (by omega) (by split <;> simp; omega) (by split <;> simp <;> omega),
        push_tail_last (by omega) (by simp) (by simp; omega)]
      congr 4
      omega
  · next hone htwo hthree =>
      rw [List.foldl_cons, List.foldl_cons, List.foldl_cons, List.foldl_cons, List.foldl_nil,
        push_lead (LeadByte.ofByte_four (by omega) (by omega)),
        push_tail_next (by omega) (by split <;> simp; omega) (by split <;> simp <;> omega),
        push_tail_next (by omega) (by simp) (by simp; omega),
        push_tail_last (by omega) (by simp) (by simp; omega)]
      congr 4
      omega

end Decoder

namespace Bytes

theorem units_encode (text : Text) : units text.encode = text.map some := by
  induction text with
  | nil => rfl
  | cons c text ih =>
      rw [Text.encode_cons, units, List.foldl_append, Decoder.start, Decoder.push_encodeChar,
        Decoder.finish_foldl_push, ih]
      rfl

@[simp] theorem decodeLossy_encode (text : Text) : decodeLossy text.encode = text := by
  rw [decodeLossy, units_encode, List.map_map]
  exact List.map_id text

end Bytes

inductive Owed.Finishes : Owed → Bytes → Nat → Prop
  | last {owed : Owed} {byte : UInt8} (hmore : owed.more = 0) (hadmits : owed.Admits byte) :
      Finishes owed [byte] (owed.gather byte)
  | next {owed : Owed} {more : Nat} {byte : UInt8} {rest : Bytes} {code : Nat}
      (hmore : owed.more = more + 1) (hadmits : owed.Admits byte)
      (hrest : Finishes ⟨more, 0x80, 0xBF, owed.gather byte⟩ rest code) :
      Finishes owed (byte :: rest) code

theorem Decoder.exists_finishes {owed : Owed} {bytes : Bytes} {text : Text}
    (hunits : (bytes.foldl push ⟨some owed, []⟩).finish = text.map some) :
    ∃ tail rest code later, bytes = tail ++ rest ∧ owed.Finishes tail code ∧
      text = Char.ofNat code :: later ∧ rest.units = later.map some := by
  induction bytes generalizing owed with
  | nil => cases text <;> cases hunits
  | cons byte bytes ih =>
      rw [List.foldl_cons] at hunits
      by_cases hadmits : owed.Admits byte
      · cases hmore : owed.more with
        | zero =>
            rw [push_last hmore hadmits, finish_foldl_push] at hunits
            cases text with
            | nil => cases hunits
            | cons c later =>
                obtain ⟨hc, hlater⟩ := List.cons.inj hunits
                rw [← Option.some.inj hc]
                exact ⟨[byte], bytes, _, later, rfl, .last hmore hadmits, rfl, hlater⟩
        | succ more =>
            rw [push_next hmore hadmits] at hunits
            obtain ⟨tail, rest, code, later, rfl, hfinishes, htext, hrest⟩ := ih hunits
            exact ⟨byte :: tail, rest, code, later, rfl, .next hmore hadmits hfinishes, htext,
              hrest⟩
      · rw [push_unadmitted hadmits, ← List.nil_append [none], lead_behind, foldl_push_behind,
          finish_behind] at hunits
        cases text <;> cases hunits

section Character

variable {code : Nat}

theorem toNat_charOfNat (hvalid : code.isValidChar) : (Char.ofNat code).val.toNat = code := by
  rw [Char.ofNat, dif_pos hvalid]
  rfl

theorem encodeChar_one (hhigh : code < 0x80) :
    String.utf8EncodeChar (Char.ofNat code) = [UInt8.ofNat code] := by
  have hcode := @toNat_charOfNat code (.inl (by omega))
  simp only [String.utf8EncodeChar, hcode]
  rw [if_pos (by omega)]

theorem encodeChar_two (hlow : 0x80 ≤ code) (hhigh : code < 0x800) :
    String.utf8EncodeChar (Char.ofNat code) =
      [UInt8.ofNat (code / 64 + 0xC0), UInt8.ofNat (code % 64 + 0x80)] := by
  have hcode := @toNat_charOfNat code (.inl (by omega))
  have hfirst : code / 64 % 32 = code / 64 := Nat.mod_eq_of_lt (by omega)
  simp only [String.utf8EncodeChar, hcode]
  rw [if_neg (by omega), if_pos (by omega), hfirst]

theorem encodeChar_three (hlow : 0x800 ≤ code) (hhigh : code < 0x10000)
    (hvalid : code.isValidChar) :
    String.utf8EncodeChar (Char.ofNat code) =
      [UInt8.ofNat (code / 4096 + 0xE0), UInt8.ofNat (code / 64 % 64 + 0x80),
        UInt8.ofNat (code % 64 + 0x80)] := by
  have hcode := toNat_charOfNat hvalid
  have hfirst : code / 4096 % 16 = code / 4096 := Nat.mod_eq_of_lt (by omega)
  simp only [String.utf8EncodeChar, hcode]
  rw [if_neg (by omega), if_neg (by omega), if_pos (by omega), hfirst]

theorem encodeChar_four (hlow : 0x10000 ≤ code) (hhigh : code < 0x110000) :
    String.utf8EncodeChar (Char.ofNat code) =
      [UInt8.ofNat (code / 262144 + 0xF0), UInt8.ofNat (code / 4096 % 64 + 0x80),
        UInt8.ofNat (code / 64 % 64 + 0x80), UInt8.ofNat (code % 64 + 0x80)] := by
  have hcode := @toNat_charOfNat code (.inr ⟨by omega, hhigh⟩)
  have hfirst : code / 262144 % 8 = code / 262144 := Nat.mod_eq_of_lt (by omega)
  simp only [String.utf8EncodeChar, hcode]
  rw [if_neg (by omega), if_neg (by omega), if_neg (by omega), hfirst]

end Character

namespace Owed

variable {more bits : Nat} {low high byte : UInt8} {tail : Bytes} {code : Nat}

theorem Admits.toNat_le (hadmits : Owed.Admits ⟨more, low, high, bits⟩ byte) :
    low.toNat ≤ byte.toNat ∧ byte.toNat ≤ high.toNat :=
  ⟨UInt8.le_iff_toNat_le.mp hadmits.1, UInt8.le_iff_toNat_le.mp hadmits.2⟩

theorem Finishes.last_eq (hfinishes : Finishes ⟨0, low, high, bits⟩ tail code) :
    ∃ byte : UInt8, tail = [byte] ∧ low.toNat ≤ byte.toNat ∧ byte.toNat ≤ high.toNat ∧
      code = bits * 64 + byte.toNat % 64 := by
  cases hfinishes with
  | last hmore hadmits => exact ⟨_, rfl, hadmits.toNat_le.1, hadmits.toNat_le.2, rfl⟩
  | next hmore hadmits hrest => cases hmore

theorem Finishes.next_eq (hfinishes : Finishes ⟨more + 1, low, high, bits⟩ tail code) :
    ∃ (byte : UInt8) (rest : Bytes), tail = byte :: rest ∧ low.toNat ≤ byte.toNat ∧
      byte.toNat ≤ high.toNat ∧
      Finishes ⟨more, 0x80, 0xBF, bits * 64 + byte.toNat % 64⟩ rest code := by
  cases hfinishes with
  | last hmore hadmits => cases hmore
  | next hmore hadmits hrest =>
      cases hmore
      exact ⟨_, _, rfl, hadmits.toNat_le.1, hadmits.toNat_le.2, hrest⟩

end Owed

namespace LeadByte

theorem lt_of_ofByte_character {byte : UInt8} {c : Char} (hlead : ofByte byte = .character c) :
    byte.toNat < 0x80 ∧ c = Char.ofNat byte.toNat := by
  unfold ofByte at hlead
  split at hlead
  · next hascii =>
      cases hlead
      exact ⟨UInt8.lt_iff_toNat_lt.mp hascii, rfl⟩
  · repeat' split at hlead
    all_goals cases hlead

theorem range_of_ofByte_sequence {byte : UInt8} {owed : Owed}
    (hlead : ofByte byte = .sequence owed) : 0xC2 ≤ byte.toNat ∧ byte.toNat < 0xF5 := by
  unfold ofByte at hlead
  simp only [UInt8.lt_iff_toNat_lt, ← UInt8.toNat_inj, UInt8.reduceToNat] at hlead
  repeat' split at hlead
  all_goals cases hlead
  all_goals omega

/-- What starts and finishes a sequence is the encoding of the character that it leads to. -/
theorem encodeChar_of_finishes {byte : UInt8} {owed : Owed} {tail : Bytes} {code : Nat}
    (hlead : ofByte byte = .sequence owed) (hfinishes : owed.Finishes tail code) :
    String.utf8EncodeChar (Char.ofNat code) = byte :: tail := by
  obtain ⟨hlow, hhigh⟩ := range_of_ofByte_sequence hlead
  have hbyte : byte = UInt8.ofNat byte.toNat := UInt8.ofNat_toNat.symm
  rw [hbyte] at hlead
  by_cases htwo : byte.toNat < 0xE0
  · rw [ofByte_two hlow htwo] at hlead
    cases hlead
    obtain ⟨last, rfl, hlastLow, hlastHigh, hcode⟩ := hfinishes.last_eq
    simp only [UInt8.reduceToNat] at hlastLow hlastHigh
    rw [encodeChar_two (by omega) (by omega), show code / 64 + 0xC0 = byte.toNat by omega,
      show code % 64 + 0x80 = last.toNat by omega, UInt8.ofNat_toNat, UInt8.ofNat_toNat]
  by_cases hthree : byte.toNat < 0xF0
  · rw [ofByte_three (by omega) hthree] at hlead
    cases hlead
    obtain ⟨second, rest, rfl, hsecondLow, hsecondHigh, hrest⟩ := hfinishes.next_eq
    obtain ⟨last, rfl, hlastLow, hlastHigh, hcode⟩ := hrest.last_eq
    simp only [UInt8.reduceToNat, apply_ite UInt8.toNat] at *
    have hsecond : 0x80 ≤ second.toNat ∧ second.toNat ≤ 0xBF ∧
        (byte.toNat = 0xE0 → 0xA0 ≤ second.toNat) ∧
        (byte.toNat = 0xED → second.toNat ≤ 0x9F) := by
      split at hsecondLow <;> split at hsecondHigh <;> omega
    clear hsecondLow hsecondHigh
    have hvalid : code.isValidChar := by
      rw [Nat.isValidChar]
      omega
    rw [encodeChar_three (by omega) (by omega) hvalid,
      show code / 4096 + 0xE0 = byte.toNat by omega,
      show code / 64 % 64 + 0x80 = second.toNat by omega,
      show code % 64 + 0x80 = last.toNat by omega, UInt8.ofNat_toNat, UInt8.ofNat_toNat,
      UInt8.ofNat_toNat]
  · rw [ofByte_four (by omega) hhigh] at hlead
    cases hlead
    obtain ⟨second, rest, rfl, hsecondLow, hsecondHigh, hrest⟩ := hfinishes.next_eq
    obtain ⟨third, rest, rfl, hthirdLow, hthirdHigh, hrest⟩ := hrest.next_eq
    obtain ⟨last, rfl, hlastLow, hlastHigh, hcode⟩ := hrest.last_eq
    simp only [UInt8.reduceToNat, apply_ite UInt8.toNat] at *
    have hsecond : 0x80 ≤ second.toNat ∧ second.toNat ≤ 0xBF ∧
        (byte.toNat = 0xF0 → 0x90 ≤ second.toNat) ∧
        (byte.toNat = 0xF4 → second.toNat ≤ 0x8F) := by
      split at hsecondLow <;> split at hsecondHigh <;> omega
    clear hsecondLow hsecondHigh
    rw [encodeChar_four (by omega) (by omega),
      show code / 262144 + 0xF0 = byte.toNat by omega,
      show code / 4096 % 64 + 0x80 = second.toNat by omega,
      show code / 64 % 64 + 0x80 = third.toNat by omega,
      show code % 64 + 0x80 = last.toNat by omega, UInt8.ofNat_toNat, UInt8.ofNat_toNat,
      UInt8.ofNat_toNat, UInt8.ofNat_toNat]

end LeadByte

namespace Bytes

theorem eq_encode_of_units {bytes : Bytes} {text : Text} (hunits : bytes.units = text.map some) :
    bytes = text.encode := by
  induction hlength : bytes.length using Nat.strongRecOn generalizing bytes text with
  | ind length ih =>
      cases bytes with
      | nil =>
          cases text with
          | nil => rfl
          | cons c later => cases hunits
      | cons byte bytes =>
          have hread : (bytes.foldl Decoder.push (Decoder.lead [] byte)).finish = text.map some :=
            hunits
          unfold Decoder.lead at hread
          split at hread
          · next c hlead =>
              obtain ⟨hascii, rfl⟩ := LeadByte.lt_of_ofByte_character hlead
              rw [Decoder.finish_foldl_push] at hread
              cases text with
              | nil => cases hread
              | cons found later =>
                  obtain ⟨hfound, hlater⟩ := List.cons.inj hread
                  rw [ih bytes.length (by simp [← hlength]) hlater rfl, Text.encode_cons,
                    ← Option.some.inj hfound, encodeChar_one hascii, UInt8.ofNat_toNat]
                  rfl
          · next owed hlead =>
              obtain ⟨tail, rest, code, later, rfl, hfinishes, rfl, hlater⟩ :=
                Decoder.exists_finishes hread
              have hshorter : rest.length < length := by
                rw [← hlength, List.length_cons, List.length_append]
                omega
              rw [ih rest.length hshorter hlater rfl, Text.encode_cons,
                LeadByte.encodeChar_of_finishes hlead hfinishes]
              rfl
          · next hlead =>
              rw [Decoder.finish_foldl_push] at hread
              cases text <;> cases hread

theorem mapM_id_eq_some_iff {units : List (Option Char)} {text : Text} :
    units.mapM id = some text ↔ units = text.map some := by
  induction units generalizing text with
  | nil => cases text <;> simp
  | cons unit units ih =>
      cases unit with
      | none => cases text <;> simp
      | some c => cases text <;> simp [List.mapM_cons, Option.bind_eq_some_iff, ih, and_comm]

theorem decode?_eq_some_iff {bytes : Bytes} {text : Text} :
    bytes.decode? = some text ↔ bytes = text.encode := by
  rw [decode?, mapM_id_eq_some_iff]
  exact ⟨eq_encode_of_units, fun hbytes => by rw [hbytes, units_encode]⟩

end Bytes

end GrammarListing
