import GrammarListing.Toml.Document
import Mathlib.Data.List.Nodup
namespace GrammarListing.Toml

/-! Keys of a document.  Every step of filling a table keeps its keys, adds one that is not there or
puts one last, so no key of the top table is given twice. -/

namespace Entries

def keys (entries : Entries) : List Text :=
  entries.map (·.1)

def Distinct (entries : Entries) : Prop :=
  entries.keys.Nodup

/-- What one step of filling a table does to its keys. -/
inductive Rekeyed (entries : Entries) : Entries → Prop
  | kept {next : Entries} (hkeys : next.keys = entries.keys) : Rekeyed entries next
  | added {key : Text} {value : Value} (hnew : key ∉ entries.keys) :
      Rekeyed entries (entries ++ [(key, value)])
  | moved (key : Text) (value : Value) : Rekeyed entries (entries.erase key ++ [(key, value)])

variable {entries next : Entries} {key : Text} {value : Value}

theorem keys_put (entries : Entries) (key : Text) (value : Value) :
    (entries.put key value).keys = entries.keys := by
  rw [keys, keys, put, List.map_map]
  apply List.map_congr_left
  intro entry _
  by_cases hkey : entry.1 == key
  · rw [Function.comp_apply, if_pos hkey]
    exact (eq_of_beq hkey).symm
  · rw [Function.comp_apply, if_neg hkey]

theorem Rekeyed.put (entries : Entries) (key : Text) (value : Value) :
    Rekeyed entries (entries.put key value) :=
  .kept (keys_put entries key value)

theorem not_mem_keys_of_contains (hnew : ¬ entries.contains key) : key ∉ entries.keys := by
  intro hmem
  obtain ⟨entry, hentry, rfl⟩ := List.mem_map.mp hmem
  apply hnew
  exact List.any_eq_true.mpr ⟨entry, hentry, beq_self_eq_true _⟩

theorem not_mem_keys_of_lookup (hnew : entries.lookup key = none) : key ∉ entries.keys := by
  intro hmem
  obtain ⟨entry, hentry, rfl⟩ := List.mem_map.mp hmem
  have hne := List.lookup_eq_none_iff.mp hnew entry hentry
  rw [bne_self_eq_false] at hne
  cases hne

theorem not_mem_keys_erase (entries : Entries) (key : Text) : key ∉ (entries.erase key).keys := by
  intro hmem
  obtain ⟨entry, hentry, rfl⟩ := List.mem_map.mp hmem
  have hne := (List.mem_filter.mp hentry).2
  rw [bne_self_eq_false] at hne
  cases hne

theorem distinct_concat_iff :
    Distinct (entries ++ [(key, value)]) ↔ entries.Distinct ∧ key ∉ entries.keys := by
  have hkeys : keys (entries ++ [(key, value)]) = entries.keys.concat key := by
    rw [List.concat_eq_append]
    exact List.map_append
  rw [Distinct, hkeys, List.nodup_concat, and_comm, Distinct]

theorem Distinct.erase (hdistinct : entries.Distinct) (key : Text) :
    Distinct (Entries.erase entries key) :=
  List.Nodup.sublist (List.Sublist.map _ List.filter_sublist) hdistinct

theorem Rekeyed.distinct (hrekeyed : Rekeyed entries next) (hdistinct : entries.Distinct) :
    next.Distinct := by
  cases hrekeyed with
  | kept hkeys =>
      rw [Distinct, hkeys]
      exact hdistinct
  | added hnew =>
      exact distinct_concat_iff.mpr ⟨hdistinct, hnew⟩
  | moved key value =>
      exact distinct_concat_iff.mpr ⟨hdistinct.erase key, not_mem_keys_erase entries key⟩

theorem rekeyed_of_assign? {path : List Text} (hassign : entries.assign? path value = some next) :
    Rekeyed entries next := by
  unfold assign? at hassign
  split at hassign
  · cases hassign
  · split at hassign
    · cases hassign
    · next hnew =>
        cases hassign
        exact .added (not_mem_keys_of_contains hnew)
  · split at hassign
    · next hnew =>
        obtain ⟨inner, _, hnext⟩ := Option.bind_eq_some_iff.mp hassign
        cases hnext
        exact .added (not_mem_keys_of_lookup hnew)
    · obtain ⟨inner, _, hnext⟩ := Option.bind_eq_some_iff.mp hassign
      cases hnext
      exact .put entries _ _
    · split at hassign
      · cases hassign
      · obtain ⟨inner, _, hnext⟩ := Option.bind_eq_some_iff.mp hassign
        cases hnext
        exact .put entries _ _
    · split at hassign
      · cases hassign
      · obtain ⟨last, _, hassign⟩ := Option.bind_eq_some_iff.mp hassign
        obtain ⟨inner, _, hnext⟩ := Option.bind_eq_some_iff.mp hassign
        cases hnext
        exact .put entries _ _
    · cases hassign

theorem rekeyed_of_descend? {path : List Text} {change : Text → Entries → Option Entries}
    (hchange : ∀ {key entries next}, change key entries = some next → Rekeyed entries next)
    (hdescend : entries.descend? path change = some next) : Rekeyed entries next := by
  unfold descend? at hdescend
  split at hdescend
  · cases hdescend
  · exact hchange hdescend
  · split at hdescend
    · next hnew =>
        obtain ⟨inner, _, hnext⟩ := Option.bind_eq_some_iff.mp hdescend
        cases hnext
        exact .added (not_mem_keys_of_lookup hnew)
    · cases hdescend
    · obtain ⟨inner, _, hnext⟩ := Option.bind_eq_some_iff.mp hdescend
      cases hnext
      exact .put entries _ _
    · obtain ⟨last, _, hdescend⟩ := Option.bind_eq_some_iff.mp hdescend
      obtain ⟨inner, _, hnext⟩ := Option.bind_eq_some_iff.mp hdescend
      cases hnext
      exact .put entries _ _
    · cases hdescend

theorem rekeyed_of_openTable? {pairs : List (List Text × Value)}
    (hopen : openTable? pairs key entries = some next) : Rekeyed entries next := by
  unfold openTable? at hopen
  split at hopen
  · next hnew =>
      obtain ⟨inner, _, hnext⟩ := Option.bind_eq_some_iff.mp hopen
      cases hnext
      exact .added (not_mem_keys_of_lookup hnew)
  · obtain ⟨inner, _, hnext⟩ := Option.bind_eq_some_iff.mp hopen
    cases hnext
    exact .moved key _
  · cases hopen

theorem rekeyed_of_addTable? {pairs : List (List Text × Value)}
    (hadd : addTable? pairs key entries = some next) : Rekeyed entries next := by
  unfold addTable? at hadd
  split at hadd
  · next hnew =>
      obtain ⟨element, _, hnext⟩ := Option.bind_eq_some_iff.mp hadd
      cases hnext
      exact .added (not_mem_keys_of_lookup hnew)
  · obtain ⟨element, _, hnext⟩ := Option.bind_eq_some_iff.mp hadd
    cases hnext
    exact .put entries key _
  · cases hadd

theorem rekeyed_of_apply? {part : Section} (happly : part.apply? entries = some next) :
    Rekeyed entries next := by
  unfold Section.apply? at happly
  split at happly
  · exact rekeyed_of_descend? rekeyed_of_addTable? happly
  · exact rekeyed_of_descend? rekeyed_of_openTable? happly

theorem Distinct.of_foldlM {α : Type} {step : Entries → α → Option Entries}
    (hstep : ∀ {entries item next}, step entries item = some next → Rekeyed entries next)
    {items : List α} (hrun : items.foldlM step entries = some next)
    (hdistinct : entries.Distinct) : next.Distinct := by
  induction items generalizing entries with
  | nil =>
      cases hrun
      exact hdistinct
  | cons item items ih =>
      rw [List.foldlM_cons] at hrun
      obtain ⟨middle, hmiddle, hrest⟩ := Option.bind_eq_some_iff.mp hrun
      exact ih hrest ((hstep hmiddle).distinct hdistinct)

end Entries

theorem distinct_of_parse? {text : Text} {entries : Entries}
    (hparse : parse? text = some entries) : entries.Distinct := by
  unfold parse? at hparse
  obtain ⟨statements, _, hentries⟩ := Option.bind_eq_some_iff.mp hparse
  obtain ⟨top, htop, hsections⟩ := Option.bind_eq_some_iff.mp hentries
  have hempty : Entries.Distinct [] := List.nodup_nil
  have hassigned := hempty.of_foldlM Entries.rekeyed_of_assign? htop
  exact hassigned.of_foldlM Entries.rekeyed_of_apply? hsections

end GrammarListing.Toml
