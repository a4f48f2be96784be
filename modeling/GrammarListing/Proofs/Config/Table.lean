import GrammarListing.Config.Record
import GrammarListing.Proofs.Toml.Keys
import Mathlib.Data.List.Induction
namespace GrammarListing

def Toml.Entries.data (table : Toml.Entries) : List (Text × Config.Datum) :=
  table.map fun entry => (entry.1, entry.2.datum)

theorem Toml.Value.eq_string_of_datum {value : Toml.Value} {text : Text}
    (hdatum : value.datum = .string text) : value = .string text := by
  cases value <;> cases hdatum
  rfl

theorem Toml.Value.eq_integer_of_datum {value : Toml.Value} {number : Int}
    (hdatum : value.datum = .integer number) : value = .integer number := by
  cases value <;> cases hdatum
  rfl

namespace Config

theorem Datum.exists_text_of_path? {datum : Datum} {path : Path} (hpath : datum.path? = .ok path) :
    ∃ text : Text, datum = .string text ∧ path = ⟨text.encode⟩ := by
  unfold Datum.path? at hpath
  split at hpath
  · next text =>
      cases hpath
      exact ⟨text, rfl, rfl⟩
  · cases hpath

theorem Datum.eq_integer_of_width? {datum : Datum} {width : Nat}
    (hwidth : datum.width? = .ok width) : datum = .integer width := by
  unfold Datum.width? at hwidth
  split at hwidth
  · cases hwidth
    rfl
  · cases hwidth
  · cases hwidth

theorem Field.eq_name_of_ofName? {name : Text} {field : Field}
    (hfield : ofName? name = some field) : name = field.name := by
  unfold ofName? at hfield
  split at hfield
  · next hname =>
      cases hfield
      exact hname
  split at hfield
  · next hname =>
      cases hfield
      exact hname
  · cases hfield

/-- An entry that sets a field to a value of its kind. -/
inductive Setting : Text × Toml.Value → Prop
  | source (text : Text) : Setting ("source".toList, .string text)
  | prefixWidth (width : Nat) : Setting ("prefix_width".toList, .integer width)

theorem Setting.eq_of_datum {entry setting : Text × Toml.Value} (hsetting : Setting setting)
    (hname : entry.1 = setting.1) (hdatum : entry.2.datum = setting.2.datum) : entry = setting := by
  cases hsetting with
  | source text => exact Prod.ext hname (Toml.Value.eq_string_of_datum hdatum)
  | prefixWidth width => exact Prod.ext hname (Toml.Value.eq_integer_of_datum hdatum)

theorem eq_of_data_eq {table settings : Toml.Entries}
    (hsettings : ∀ setting ∈ settings, Setting setting) (hdata : table.data = settings.data) :
    table = settings := by
  induction settings generalizing table with
  | nil => exact List.map_eq_nil_iff.mp hdata
  | cons setting settings ih =>
      obtain ⟨hsetting, hrest⟩ := List.forall_mem_cons.mp hsettings
      obtain ⟨entry, entries, rfl, hentry, hentries⟩ := List.map_eq_cons_iff.mp hdata
      obtain ⟨hname, hdatum⟩ := Prod.mk.inj hentry
      rw [hsetting.eq_of_datum hname hdatum, ih hrest hentries]

namespace Layer

inductive Gains (layer : Layer) : Text × Toml.Value → Layer → Prop
  | source (text : Text) :
      Gains layer ("source".toList, .string text) { layer with source? := some ⟨text.encode⟩ }
  | prefixWidth (width : Nat) :
      Gains layer ("prefix_width".toList, .integer width)
        { layer with prefixWidth? := some width }

variable {layer next : Layer} {entry : Text × Toml.Value} {entries : Toml.Entries}

theorem Gains.setting (hgains : layer.Gains entry next) : Setting entry := by
  cases hgains with
  | source text => exact .source text
  | prefixWidth width => exact .prefixWidth width

theorem exists_gains (hsetting : Setting entry) (layer : Layer) :
    ∃ next, layer.Gains entry next := by
  cases hsetting with
  | source text => exact ⟨_, .source text⟩
  | prefixWidth width => exact ⟨_, .prefixWidth width⟩

theorem setNamed_of_gains (hgains : layer.Gains entry next) :
    layer.setNamed entry.1 entry.2.datum = .ok next := by
  cases hgains with
  | source text => rfl
  | prefixWidth width => rfl

theorem gains_of_set {field : Field} {value : Toml.Value}
    (hset : layer.set field value.datum = .ok next) : layer.Gains (field.name, value) next := by
  cases field with
  | source =>
      rw [set] at hset
      cases hpath : value.datum.path? with
      | error mismatch =>
          rw [hpath] at hset
          cases hset
      | ok path =>
          rw [hpath] at hset
          cases hset
          obtain ⟨text, htext, rfl⟩ := Datum.exists_text_of_path? hpath
          rw [Toml.Value.eq_string_of_datum htext]
          exact .source text
  | prefixWidth =>
      rw [set] at hset
      cases hwidth : value.datum.width? with
      | error mismatch =>
          rw [hwidth] at hset
          cases hset
      | ok width =>
          rw [hwidth] at hset
          cases hset
          have hinteger := Datum.eq_integer_of_width? hwidth
          rw [Toml.Value.eq_integer_of_datum hinteger]
          exact .prefixWidth width

theorem gains_of_setNamed (hset : layer.setNamed entry.1 entry.2.datum = .ok next) :
    layer.Gains entry next := by
  unfold setNamed at hset
  split at hset
  · next field hfield =>
      have hgains := gains_of_set hset
      rwa [← Field.eq_name_of_ofName? hfield] at hgains
  · cases hset

theorem ofEntries?_concat (entries : Toml.Entries) (entry : Text × Toml.Value) :
    ofEntries? (entries ++ [entry]) =
      ofEntries? entries >>= fun layer => layer.setNamed entry.1 entry.2.datum := by
  rw [ofEntries?, List.foldlM_append]
  simp only [List.foldlM_cons, List.foldlM_nil, bind_pure]
  rfl

theorem exists_gains_of_concat (hlayer : ofEntries? (entries ++ [entry]) = .ok next) :
    ∃ layer, ofEntries? entries = .ok layer ∧ layer.Gains entry next := by
  rw [ofEntries?_concat] at hlayer
  cases hfront : ofEntries? entries with
  | error mismatch =>
      rw [hfront] at hlayer
      cases hlayer
  | ok layer =>
      rw [hfront] at hlayer
      exact ⟨layer, rfl, gains_of_setNamed hlayer⟩

theorem setting_of_ofEntries? (hlayer : ofEntries? entries = .ok layer) :
    ∀ entry ∈ entries, Setting entry := by
  induction entries using List.reverseRecOn generalizing layer with
  | nil => exact List.forall_mem_nil _
  | append_singleton entries entry ih =>
      obtain ⟨front, hfront, hgains⟩ := exists_gains_of_concat hlayer
      exact List.forall_mem_append.mpr ⟨ih hfront, List.forall_mem_singleton.mpr hgains.setting⟩

theorem exists_ofEntries? (hsettings : ∀ entry ∈ entries, Setting entry) :
    ∃ layer, ofEntries? entries = .ok layer := by
  induction entries using List.reverseRecOn with
  | nil => exact ⟨.empty, rfl⟩
  | append_singleton entries entry ih =>
      obtain ⟨hfront, hlast⟩ := List.forall_mem_append.mp hsettings
      obtain ⟨layer, hlayer⟩ := ih hfront
      obtain ⟨next, hgains⟩ := exists_gains (List.forall_mem_singleton.mp hlast) layer
      refine ⟨next, ?_⟩
      rw [ofEntries?_concat, hlayer]
      exact setNamed_of_gains hgains

structure OfTable (layer : Layer) (table : Toml.Entries) : Prop where
  source : ∀ path, layer.source? = some path ↔
    ∃ text : Text, ("source".toList, .string text) ∈ table ∧ path = ⟨text.encode⟩
  prefixWidth : ∀ width : Nat, layer.prefixWidth? = some width ↔
    ("prefix_width".toList, .integer width) ∈ table

theorem OfTable.concat (htable : layer.OfTable entries) (hgains : layer.Gains entry next)
    (hnew : entry.1 ∉ entries.keys) : next.OfTable (entries ++ [entry]) := by
  have habsent : ∀ value, (entry.1, value) ∉ entries :=
    fun value hmem => hnew (List.mem_map.mpr ⟨_, hmem, rfl⟩)
  cases hgains with
  | source text =>
      constructor
      · intro path
        constructor
        · intro hsome
          cases hsome
          exact ⟨text, List.mem_append_right _ (List.mem_singleton.mpr rfl), rfl⟩
        · rintro ⟨found, hfound, rfl⟩
          rcases List.mem_append.mp hfound with hfront | hlast
          · exact absurd hfront (habsent _)
          · cases List.mem_singleton.mp hlast
            rfl
      · intro width
        rw [List.mem_append, ← htable.prefixWidth]
        refine (or_iff_left fun hlast => ?_).symm
        cases (Prod.mk.inj (List.mem_singleton.mp hlast)).2
  | prefixWidth width =>
      constructor
      · intro path
        simp only [List.mem_append, htable.source]
        refine exists_congr fun text => and_congr_left fun _ => (or_iff_left fun hlast => ?_).symm
        cases (Prod.mk.inj (List.mem_singleton.mp hlast)).2
      · intro other
        constructor
        · intro hsome
          cases hsome
          exact List.mem_append_right _ (List.mem_singleton.mpr rfl)
        · intro hfound
          rcases List.mem_append.mp hfound with hfront | hlast
          · exact absurd hfront (habsent _)
          · have hwidth := Toml.Value.integer.inj (Prod.mk.inj (List.mem_singleton.mp hlast)).2
            exact congrArg some (Int.ofNat.inj hwidth).symm

theorem ofTable_of_ofEntries? (hdistinct : entries.Distinct)
    (hlayer : ofEntries? entries = .ok layer) : layer.OfTable entries := by
  induction entries using List.reverseRecOn generalizing layer with
  | nil =>
      cases hlayer
      constructor
      · intro path
        simp [empty]
      · intro width
        simp [empty]
  | append_singleton entries entry ih =>
      obtain ⟨front, hfront, hgains⟩ := exists_gains_of_concat hlayer
      obtain ⟨hbefore, hnew⟩ := Toml.Entries.distinct_concat_iff.mp hdistinct
      exact (ih hbefore hfront).concat hgains hnew

theorem OfTable.eq_of_perm {other : Layer} {reordered : Toml.Entries}
    (hother : other.OfTable reordered) (htable : layer.OfTable entries)
    (hperm : reordered.Perm entries) : other = layer := by
  have hsource : other.source? = layer.source? := by
    apply Option.ext
    intro path
    simp only [hother.source, htable.source, hperm.mem_iff]
  have hwidth : other.prefixWidth? = layer.prefixWidth? := by
    apply Option.ext
    intro width
    simp only [hother.prefixWidth, htable.prefixWidth, hperm.mem_iff]
  cases other
  cases layer
  cases hsource
  cases hwidth
  rfl

theorem toOption_ofEntries?_of_not (hmisfit : ¬ ∀ entry ∈ entries, Setting entry) :
    (ofEntries? entries).toOption = none := by
  cases hlayer : ofEntries? entries with
  | error mismatch => rfl
  | ok layer => exact absurd (setting_of_ofEntries? hlayer) hmisfit

/-- The order of the entries decides which mismatch is reported, but not what is set. -/
theorem toOption_ofEntries?_perm {reordered : Toml.Entries} (hdistinct : entries.Distinct)
    (hperm : reordered.Perm entries) :
    (ofEntries? reordered).toOption = (ofEntries? entries).toOption := by
  have hsame : (∀ entry ∈ reordered, Setting entry) ↔ ∀ entry ∈ entries, Setting entry := by
    simp only [hperm.mem_iff]
  by_cases hsettings : ∀ entry ∈ entries, Setting entry
  · obtain ⟨layer, hlayer⟩ := exists_ofEntries? hsettings
    obtain ⟨other, hother⟩ := exists_ofEntries? (hsame.mpr hsettings)
    have hreordered : reordered.Distinct := (hperm.map _).nodup_iff.mpr hdistinct
    have htable := ofTable_of_ofEntries? hdistinct hlayer
    rw [hlayer, hother, (ofTable_of_ofEntries? hreordered hother).eq_of_perm htable hperm]
  · rw [toOption_ofEntries?_of_not hsettings, toOption_ofEntries?_of_not (mt hsame.mp hsettings)]

end Layer

end Config

end GrammarListing
