import GrammarListing.Proofs.Toml.Reading
namespace GrammarListing.Toml

structure ValuesLeave (bound : Nat) : Prop where
  value : ∀ {depth text value rest}, value? bound depth text = some (value, rest) →
    Leaves text rest
  items : ∀ {depth read text value rest}, items? bound depth read text = some (value, rest) →
    Leaves text rest
  pairs : ∀ {depth read text value rest}, pairs? bound depth read text = some (value, rest) →
    Leaves text rest

namespace ValuesLeave

variable {bound depth : Nat} {text rest : Text} {value : Value}

theorem value_succ (hleave : ValuesLeave bound)
    (hread : value? (bound + 1) depth text = some (value, rest)) : Leaves text rest := by
  unfold value? at hread
  split at hread
  · obtain ⟨⟨string, after⟩, hstring, hvalue⟩ := Option.map_eq_some_iff.mp hread
    cases hvalue
    exact leaves_of_string? rfl hstring
  · obtain ⟨⟨string, after⟩, hstring, hvalue⟩ := Option.map_eq_some_iff.mp hread
    cases hvalue
    exact leaves_of_string? rfl hstring
  · cases depth with
    | zero => cases hread
    | succ depth => exact .read rfl (hleave.items hread)
  · next body =>
      cases depth with
      | zero => cases hread
      | succ depth =>
          have hblanks := leaves_skipBlanks body
          dsimp only at hread
          split at hread
          · next after hclosed =>
              cases hread
              rw [hclosed] at hblanks
              exact .read rfl (hblanks.trans (.read rfl (.all _)))
          · exact .read rfl (hleave.pairs hread)
  · cases hread
    exact .read rfl (.read rfl (.read rfl (.read rfl (.all _))))
  · cases hread
    exact .read rfl (.read rfl (.read rfl (.read rfl (.read rfl (.all _)))))
  · exact leaves_of_number? hread

theorem items_succ (hleave : ValuesLeave bound) {read : List Value}
    (hread : items? (bound + 1) depth read text = some (value, rest)) : Leaves text rest := by
  unfold items? at hread
  split at hread
  · cases hread
  · next after hgap =>
      cases hread
      exact (leaves_of_skipGap? hgap).trans (.read rfl (.all _))
  · next body _ hgap =>
      split at hread
      · cases hread
      · next item after hitem =>
          have hfront := (leaves_of_skipGap? hgap).trans (hleave.value hitem)
          split at hread
          · next next hnext =>
              exact (hfront.trans (leaves_of_skipGap? hnext)).trans
                (.read rfl (hleave.items hread))
          · next next hnext =>
              cases hread
              exact (hfront.trans (leaves_of_skipGap? hnext)).trans (.read rfl (.all _))
          · cases hread

theorem pairs_succ (hleave : ValuesLeave bound) {read : List (List Text × Value)}
    (hread : pairs? (bound + 1) depth read text = some (value, rest)) : Leaves text rest := by
  unfold pairs? at hread
  obtain ⟨⟨key, afterKey⟩, hkey, hread⟩ := Option.bind_eq_some_iff.mp hread
  obtain ⟨body, hequals, hread⟩ := Option.bind_eq_some_iff.mp hread
  obtain ⟨⟨item, after⟩, hitem, hread⟩ := Option.bind_eq_some_iff.mp hread
  have hname := (leaves_of_key? hkey).trans (leaves_of_expect? rfl hequals)
  have hfront := (hname.trans (leaves_skipBlanks body)).trans (hleave.value hitem)
  have hblanks := hfront.trans (leaves_skipBlanks after)
  dsimp only at hread
  split at hread
  · next next hnext =>
      rw [hnext] at hblanks
      exact hblanks.trans (.read rfl (hleave.pairs hread))
  · next next hnext =>
      obtain ⟨_, _, hvalue⟩ := Option.map_eq_some_iff.mp hread
      cases hvalue
      rw [hnext] at hblanks
      exact hblanks.trans (.read rfl (.all _))
  · cases hread

end ValuesLeave

theorem valuesLeave (bound : Nat) : ValuesLeave bound := by
  induction bound with
  | zero =>
      constructor
      · intro depth text value rest hread
        cases hread
      · intro depth read text value rest hread
        cases hread
      · intro depth read text value rest hread
        cases hread
  | succ bound ih => exact ⟨ih.value_succ, ih.items_succ, ih.pairs_succ⟩

section Statements

variable {text rest : Text}

theorem leaves_of_statement? {bound : Nat} {statement : Statement}
    (hread : statement? bound text = some (statement, rest)) : Leaves text rest := by
  unfold statement? at hread
  split at hread
  · next body =>
      obtain ⟨⟨key, afterKey⟩, hkey, hread⟩ := Option.bind_eq_some_iff.mp hread
      obtain ⟨inner, hfirst, hread⟩ := Option.bind_eq_some_iff.mp hread
      obtain ⟨outer, hsecond, hread⟩ := Option.bind_eq_some_iff.mp hread
      obtain ⟨after, hend, hread⟩ := Option.bind_eq_some_iff.mp hread
      cases hread
      have hclosed := (leaves_of_expect? rfl hfirst).trans (leaves_of_expect? rfl hsecond)
      have hheader := (leaves_of_key? hkey).trans hclosed
      exact .read rfl (.read rfl (hheader.trans (leaves_of_lineEnd? hend)))
  · next body =>
      obtain ⟨⟨key, afterKey⟩, hkey, hread⟩ := Option.bind_eq_some_iff.mp hread
      obtain ⟨closed, hclosed, hread⟩ := Option.bind_eq_some_iff.mp hread
      obtain ⟨after, hend, hread⟩ := Option.bind_eq_some_iff.mp hread
      cases hread
      have hheader := (leaves_of_key? hkey).trans (leaves_of_expect? rfl hclosed)
      exact .read rfl (hheader.trans (leaves_of_lineEnd? hend))
  · obtain ⟨⟨key, afterKey⟩, hkey, hread⟩ := Option.bind_eq_some_iff.mp hread
    obtain ⟨body, hequals, hread⟩ := Option.bind_eq_some_iff.mp hread
    obtain ⟨⟨value, afterValue⟩, hvalue, hread⟩ := Option.bind_eq_some_iff.mp hread
    obtain ⟨after, hend, hread⟩ := Option.bind_eq_some_iff.mp hread
    cases hread
    have hname := (leaves_of_key? hkey).trans (leaves_of_expect? rfl hequals)
    have hpair := (hname.trans (leaves_skipBlanks body)).trans ((valuesLeave bound).value hvalue)
    exact hpair.trans (leaves_of_lineEnd? hend)

theorem leaves_of_statements? {bound valueBound : Nat} {read statements : List Statement}
    (hread : statements? bound valueBound read text = some statements) : Leaves text [] := by
  fun_induction statements? bound valueBound read text with
  | case1 => cases hread
  | case2 read text bound hend =>
      have hblanks := leaves_skipBlanks text
      rwa [hend] at hblanks
  | case3 read text bound c body hbody _ after hafter ih =>
      have hblanks := leaves_skipBlanks text
      rw [hbody] at hblanks
      exact (hblanks.trans (leaves_of_lineEnd? hafter)).trans (ih hread)
  | case4 => cases hread
  | case5 read text bound c body hbody _ statement after hafter ih =>
      have hblanks := leaves_skipBlanks text
      rw [hbody] at hblanks
      exact (hblanks.trans (leaves_of_statement? hafter)).trans (ih hread)
  | case6 => cases hread

theorem isDocumentChar_of_parse? {entries : Entries} (hparse : parse? text = some entries) :
    ∀ c ∈ text, isDocumentChar c := by
  unfold parse? at hparse
  obtain ⟨statements, hstatements, _⟩ := Option.bind_eq_some_iff.mp hparse
  have hbody := leaves_of_statements? hstatements
  apply Leaves.forall_mem
  split at hbody
  · exact .read rfl hbody
  · exact hbody

end Statements

end GrammarListing.Toml
