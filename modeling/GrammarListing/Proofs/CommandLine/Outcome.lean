import GrammarListing.Proofs.CommandLine.Configuration
import GrammarListing.Proofs.Stream.ReadBack
namespace GrammarListing.CommandLine

/-! What a run comes to.  It fails with nothing written, or it writes the listing of the source that
it goes by; and its notes change neither, but tell what was written. -/

theorem run_all_or_nothing (host : Host) (program : Option Path) (words : List Bytes)
    (input : Reader) :
    (∀ error, Arguments.ofWords? words = .error (.rejected error) →
      (run host program words input).exit.code = 2 ∧
        (run host program words input).output = []) ∧
    (Arguments.ofWords? words = .error .help ∨ Arguments.ofWords? words = .error .version →
      (run host program words input).exit.code = 0) ∧
    ∀ arguments, Arguments.ofWords? words = .ok arguments →
      (arguments.usesStdin ↔ arguments.file = some (.ofString "-")) ∧
      (∀ path, (∃ error, host.config? path = .error error) ↔
        ∀ table, ¬ host.Accepted path table) ∧
      (∀ config, Effective host arguments config ↔
        ∃ files, TakesFrom host arguments files ∧ Configured host arguments files config) ∧
      (Refused host arguments input →
        (run host program words input).exit.code = 1 ∧
          (run host program words input).output = []) ∧
      (¬ Refused host arguments input →
        ∃ config source listing, Effective host arguments config ∧
          Supplies host arguments config input source ∧
          source.listing? config.prefixWidth = some listing ∧
          (run host program words input).exit.code = 0 ∧
          (run host program words input).output = listing.text.encode ∧
          source.PrintedAs config.prefixWidth (run host program words input).output ∧
          (source.rules config.prefixWidth = [] →
            (run host program words input).output = [])) ∧
      ∀ other : Host, arguments.config = none →
        (other.loadedFiles other.directory).filter Config.LoadedFile.loads =
          (host.loadedFiles host.directory).filter Config.LoadedFile.loads →
        (¬ arguments.usesStdin → ∀ config, Effective host arguments config →
          other.lookup config.source = host.lookup config.source) →
        (run other program words input).exit = (run host program words input).exit ∧
          (run other program words input).output = (run host program words input).output := by
  refine ⟨fun error hrejected => ?_, fun hasked => ?_, fun arguments haccepted => ?_⟩
  · rw [run, hrejected]
    exact ⟨rfl, rfl⟩
  · cases hasked with
    | inl hhelp =>
        rw [run, hhelp]
        rfl
    | inr hversion =>
        rw [run, hversion]
        rfl
  · simp only [run_of_accepted haccepted]
    refine ⟨usesStdin_iff, fun path => Host.exists_config_error_iff, fun config => effective_iff,
      fun hrefused => ?_, fun hrefused => ?_, fun other hnone hfiles hlookup => ?_⟩
    · obtain ⟨hexit, houtput⟩ := hrefused.runWith_empty
      exact ⟨by rw [hexit]; rfl, houtput⟩
    · obtain ⟨config, source, listing, heffective, hsupplies, hlisting, hexit, houtput⟩ :=
        runWith_of_not_refused hrefused
      have hprinted := Bytes.printedAs_text hlisting
      rw [← houtput] at hprinted
      refine ⟨config, source, listing, heffective, hsupplies, hlisting, by rw [hexit]; rfl,
        houtput, hprinted, fun hempty => ?_⟩
      rw [source.listing?_eq, hempty] at hlisting
      cases hlisting
      exact houtput
    · refine runWith_congr (effectiveConfig_congr hnone hfiles) fun config hconfig => ?_
      refine write_congr fun hfile => hlookup hfile config ?_
      have heffective : Effective host arguments _ := .discovered hnone
      rwa [heffective.eq_of_ok hconfig]

namespace Arguments

end Arguments

section Notes

variable {host : Host} {arguments : Arguments} {input : Reader}

end Notes

end GrammarListing.CommandLine
