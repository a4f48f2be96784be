import GrammarListing.Proofs.Config.Layering
import GrammarListing.Proofs.Text.Encoding
namespace GrammarListing

theorem Bytes.units_zeros (count : Nat) :
    units (List.replicate count 0) = List.replicate count (some '\x00') := by
  induction count with
  | zero => rfl
  | succ count ih =>
      have hascii : (0 : UInt8) < 0x80 := by decide
      have happend := units_ascii_append [] hascii (List.replicate count 0)
      rw [List.nil_append, List.singleton_append, ih] at happend
      exact happend

namespace Contents

theorem bytes_of_zeros_eq {contents : Contents} (hzeros : contents.zeros = 0) :
    contents.bytes = contents.data := by
  rw [bytes, hzeros, List.replicate_zero, List.append_nil]

theorem units_bytes (contents : Contents) :
    contents.bytes.units = contents.data.units ++ List.replicate contents.zeros (some '\x00') := by
  rw [bytes]
  cases contents.zeros with
  | zero => rw [List.replicate_zero, List.replicate_zero, List.append_nil, List.append_nil]
  | succ count =>
      have hascii : (0 : UInt8) < 0x80 := by decide
      rw [List.replicate_succ, List.append_cons, Bytes.units_ascii_append _ hascii,
        Bytes.units_concat_ascii _ hascii, Bytes.units_zeros, List.append_assoc]
      rfl

theorem bytes_of_decode? {contents : Contents} {text : Text}
    (hdecode : contents.data.decode? = some text) :
    contents.bytes = Text.encode (text ++ List.replicate contents.zeros '\x00') := by
  refine Bytes.eq_encode_of_units ?_
  rw [units_bytes, Bytes.decode?_eq_some_iff.mp hdecode, Bytes.units_encode, List.map_append,
    List.map_replicate]

theorem exists_decode? {contents : Contents} {text : Text} (htext : contents.bytes = text.encode) :
    ∃ front, contents.data.decode? = some front := by
  have hunits := contents.units_bytes
  rw [htext, Bytes.units_encode] at hunits
  obtain ⟨front, _, _, hfront, _⟩ := List.map_eq_append_iff.mp hunits
  exact ⟨front, Bytes.mapM_id_eq_some_iff.mpr hfront.symm⟩

end Contents

theorem Config.Layer.ofContents?_of_text {contents : Contents} {text : Text}
    (htext : contents.bytes = text.encode) :
    ofContents? contents =
      if contents.zeros = 0 then ofText? text else .error .noDocument := by
  obtain ⟨front, hfront⟩ := Contents.exists_decode? htext
  simp only [ofContents?, hfront]
  split
  · next hzeros =>
      rw [Contents.bytes_of_zeros_eq hzeros] at htext
      rw [Option.some.inj (hfront.symm.trans (Bytes.decode?_eq_some_iff.mpr htext))]
  · rfl

theorem Config.Layer.ofContents?_of_malformed {contents : Contents}
    (hmalformed : ∀ text : Text, contents.bytes ≠ text.encode) :
    ofContents? contents = .error (.unreadable .malformedText) := by
  cases hdecode : contents.data.decode? with
  | none => simp only [ofContents?, hdecode]
  | some text => exact absurd (Contents.bytes_of_decode? hdecode) (hmalformed _)

namespace Host

/-- What keeps a file from loading.  A run of zero bytes is text, but there is none in a
document. -/
inductive Unloadable (host : Host) (path : Path) : Config.LoadError → Prop
  | unreadable {fault : Fault} (hfault : host.contents path = .error fault) :
      Unloadable host path (.unreadable fault)
  | malformed {contents : Contents} (hcontents : host.contents path = .ok contents)
      (hmalformed : ∀ text : Text, contents.bytes ≠ text.encode) :
      Unloadable host path (.unreadable .malformedText)
  | noDocument {contents : Contents} {text : Text} (hcontents : host.contents path = .ok contents)
      (htext : contents.bytes = text.encode)
      (hnone : contents.zeros ≠ 0 ∨ Toml.parse? text = none) :
      Unloadable host path .noDocument
  | misfit {contents : Contents} {text : Text} {entries : Toml.Entries}
      {mismatch : Config.Mismatch} (hcontents : host.contents path = .ok contents)
      (htext : contents.bytes = text.encode) (hzeros : contents.zeros = 0)
      (hentries : Toml.parse? text = some entries)
      (hmisfit : Config.Layer.ofEntries? entries = .error mismatch) :
      Unloadable host path (.misfit mismatch)

variable {host : Host} {path : Path}

theorem Unloadable.layer?_eq {error : Config.LoadError} (hunloadable : host.Unloadable path error) :
    host.layer? path = .error error := by
  rw [layer?]
  cases hunloadable with
  | unreadable hfault => rw [hfault]
  | malformed hcontents hmalformed =>
      rw [hcontents]
      exact Config.Layer.ofContents?_of_malformed hmalformed
  | noDocument hcontents htext hnone =>
      rw [hcontents]
      dsimp only
      rw [Config.Layer.ofContents?_of_text htext, Config.Layer.ofText?]
      split
      · next hzeros => rw [hnone.resolve_left (not_not_intro hzeros)]
      · rfl
  | misfit hcontents htext hzeros hentries hmisfit =>
      rw [hcontents]
      dsimp only
      rw [Config.Layer.ofContents?_of_text htext, if_pos hzeros, Config.Layer.ofText?, hentries]
      dsimp only
      rw [hmisfit]
      rfl

theorem unloadable_of_text {contents : Contents} {text : Text} {error : Config.LoadError}
    (hcontents : host.contents path = .ok contents) (htext : contents.bytes = text.encode)
    (herror : host.layer? path = .error error) : host.Unloadable path error := by
  rw [layer?, hcontents] at herror
  dsimp only at herror
  rw [Config.Layer.ofContents?_of_text htext, Config.Layer.ofText?] at herror
  by_cases hzeros : contents.zeros = 0
  · rw [if_pos hzeros] at herror
    cases hentries : Toml.parse? text with
    | none =>
        rw [hentries] at herror
        cases herror
        exact .noDocument hcontents htext (.inr hentries)
    | some entries =>
        rw [hentries] at herror
        dsimp only at herror
        cases hmisfit : Config.Layer.ofEntries? entries with
        | ok layer =>
            rw [hmisfit] at herror
            cases herror
        | error mismatch =>
            rw [hmisfit] at herror
            cases herror
            exact .misfit hcontents htext hzeros hentries hmisfit
  · rw [if_neg hzeros] at herror
    cases herror
    exact .noDocument hcontents htext (.inl hzeros)

theorem layer?_eq_error_iff {error : Config.LoadError} :
    host.layer? path = .error error ↔ host.Unloadable path error := by
  refine ⟨fun herror => ?_, Unloadable.layer?_eq⟩
  cases hcontents : host.contents path with
  | error fault =>
      rw [layer?, hcontents] at herror
      cases herror
      exact .unreadable hcontents
  | ok contents =>
      by_cases hencoded : ∃ text : Text, contents.bytes = text.encode
      · obtain ⟨text, htext⟩ := hencoded
        exact unloadable_of_text hcontents htext herror
      · have hmalformed := not_exists.mp hencoded
        rw [layer?, hcontents] at herror
        dsimp only at herror
        rw [Config.Layer.ofContents?_of_malformed hmalformed] at herror
        cases herror
        exact .malformed hcontents hmalformed

theorem layer?_congr {other : Host} (hlookup : other.lookup path = host.lookup path) :
    other.layer? path = host.layer? path := by
  simp only [layer?, contents, hlookup]

theorem config?_congr {other : Host} (hlookup : other.lookup path = host.lookup path) :
    other.config? path = host.config? path := by
  rw [config?, config?, layer?_congr hlookup]

def loadedFile (host : Host) (path : Path) : Config.LoadedFile :=
  ⟨path, host.layer? path⟩

theorem loadedFiles_eq (host : Host) (start : Path) :
    host.loadedFiles start = (host.configFiles start).map host.loadedFile :=
  rfl

end Host

end GrammarListing
