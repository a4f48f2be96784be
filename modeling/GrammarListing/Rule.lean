import GrammarListing.Text.Basic
namespace GrammarListing

/-! Rules.  A rule is a text with a marked place, given both as a byte offset and as a
character column.  A rule made from a text marks its first delimiter; a rule given by hand may
mark any offset, also one that is no place between two characters. -/

namespace Text

def delimiter : Text := [':', ':', '=']

def delimiterColumnFrom? (column : Nat) (text : Text) : Option Nat :=
  match text with
  | [] => none
  | c :: rest =>
      if delimiter.isPrefixOf (c :: rest) then some column
      else delimiterColumnFrom? (column + 1) rest

def delimiterColumn? (text : Text) : Option Nat :=
  text.delimiterColumnFrom? 0

/-- The character index that stands at a byte offset, if the offset is a place between two
characters, counting on from `index`. -/
def indexAtFrom? (index : Nat) (offset : Nat) (text : Text) : Option Nat :=
  match text with
  | [] => if offset = 0 then some index else none
  | c :: rest =>
      if offset = 0 then some index
      else if offset < c.utf8Size then none
      else indexAtFrom? (index + 1) (offset - c.utf8Size) rest

def indexAt? (offset : Nat) (text : Text) : Option Nat :=
  text.indexAtFrom? 0 offset

def splitAtByte? (text : Text) (offset : Nat) : Option (Text × Text) :=
  (text.indexAt? offset).map fun index => (text.take index, text.drop index)

end Text

structure Rule where
  lineNumber : Nat
  text : Text
  offset : Nat
  column : Nat
deriving DecidableEq

namespace Rule

def ofText? (lineNumber : Nat) (text : Text) : Option Rule :=
  text.delimiterColumn?.map fun column =>
    ⟨lineNumber, text, Text.byteLength (text.take column), column⟩

def sides? (rule : Rule) : Option (Text × Text) :=
  rule.text.splitAtByte? rule.offset

def head? (rule : Rule) : Option Text :=
  rule.sides?.map (·.1)

def tail? (rule : Rule) : Option Text :=
  rule.sides?.map (·.2)

def Genuine (rule : Rule) : Prop :=
  ofText? rule.lineNumber rule.text = some rule

instance (rule : Rule) : Decidable rule.Genuine :=
  inferInstanceAs (Decidable (_ = _))

theorem Genuine.of_ofText? {lineNumber : Nat} {text : Text} {rule : Rule}
    (h : ofText? lineNumber text = some rule) : rule.Genuine := by
  obtain ⟨column, hcolumn, rfl⟩ := Option.map_eq_some_iff.mp h
  simp [Genuine, ofText?, hcolumn]

end Rule

/-! Rule comments.  A text holds a rule comment from the place where `//` and one white
character stand, with a delimiter somewhere after them and no line feed from there on. -/

namespace Text

def opensRuleComment (text : Text) : Bool :=
  match text with
  | '/' :: '/' :: white :: body =>
      isWhite white && !body.contains '\n' && (delimiterColumn? body).isSome
  | _ => false

def ruleCommentIndexFrom? (index : Nat) (text : Text) : Option Nat :=
  match text with
  | [] => none
  | c :: rest =>
      if opensRuleComment (c :: rest) then some index
      else ruleCommentIndexFrom? (index + 1) rest

def ruleCommentIndex? (text : Text) : Option Nat :=
  text.ruleCommentIndexFrom? 0

def ruleCommentStart? (text : Text) : Option Nat :=
  text.ruleCommentIndex?.map fun index => Text.byteLength (text.take index)

def isRuleComment (text : Text) : Bool :=
  text.ruleCommentIndex?.isSome

end Text

/-! Extraction.  A line is recognised as it stands; its rule is the trimmed line without its
first `prefixWidth` characters, if a delimiter is left in it.  Lines are numbered from one. -/

namespace Rule

def ofLine? (prefixWidth : Nat) (lineNumber : Nat) (line : Text) : Option Rule :=
  if line.isRuleComment then ofText? lineNumber (line.trim.drop prefixWidth)
  else none

def ofLines (prefixWidth : Nat) (lines : List Text) : List Rule :=
  (lines.zipIdx 1).filterMap fun line => ofLine? prefixWidth line.2 line.1

end Rule

def Text.rules (source : Text) (prefixWidth : Nat) : List Rule :=
  Rule.ofLines prefixWidth source.lines

/-! Alignment.  The column of a list of rules is the greatest of theirs, and each rule is padded
with spaces right before its marked place until it stands there.  Rules given by hand may ask for
more spaces than any text can hold. -/

namespace Text

/-- The length in bytes of the longest text that can be held. -/
def longest : Nat := Nat.pow 2 63 - 1

def blockSize : Nat := 64

def block : Text := List.replicate blockSize ' '

/-- Adds `count` spaces to written pieces, a block at a time; the pieces come last first. -/
def pushBlocks (written : List Text) (count : Nat) : List Text :=
  if count = 0 then written
  else pushBlocks (block.take (min count blockSize) :: written) (count - min count blockSize)
termination_by count
decreasing_by
  simp only [blockSize]
  omega

def pushSpaces (text : Text) (count : Nat) : Text :=
  (pushBlocks [text] count).reverse.flatten

end Text

namespace Rule

def commonColumn (rules : List Rule) : Nat :=
  (rules.map column).foldr max 0

/-- The spaces that a rule needs to reach a column; none when it stands farther right. -/
def padding (rule : Rule) (column : Nat) : Nat :=
  column - rule.column

def align? (rule : Rule) (column : Nat) : Option Text :=
  rule.sides?.map fun sides => sides.1.pushSpaces (rule.padding column) ++ sides.2

def alignAll? (rules : List Rule) (column : Nat) : Option (List Text) :=
  rules.mapM (·.align? column)

def fits (rule : Rule) (column : Nat) : Bool :=
  rule.text.byteLength + rule.padding column ≤ Text.longest

def alignHeld? (rules : List Rule) (column : Nat) : Option (List Text) :=
  if rules.all (·.fits column) then alignAll? rules column else none

end Rule

structure Listing where
  lines : List Text
  lineNumbers : List Nat
  column : Nat
deriving DecidableEq

namespace Listing

def ofRules? (rules : List Rule) : Option Listing :=
  (Rule.alignAll? rules (Rule.commonColumn rules)).map fun lines =>
    ⟨lines, rules.map Rule.lineNumber, Rule.commonColumn rules⟩

def text (listing : Listing) : Text :=
  listing.lines.flatMap (· ++ ['\n'])

end Listing

def Bytes.listing? (contents : Bytes) (prefixWidth : Nat) : Option Listing :=
  Listing.ofRules? (contents.decodeLossy.rules prefixWidth)

end GrammarListing
