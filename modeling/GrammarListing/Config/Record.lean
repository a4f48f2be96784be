import GrammarListing.Json.Document
import GrammarListing.Path
import GrammarListing.Text.Printed
import GrammarListing.Toml.Document
namespace GrammarListing

structure Config where
  source : Path
  prefixWidth : Nat
deriving DecidableEq

namespace Config

def defaultSource : Path := .ofString "grammar.c"

/-- Three characters are the width of a comment's two slashes and a space. -/
def defaultPrefixWidth : Nat := 3

def initial : Config := ⟨defaultSource, defaultPrefixWidth⟩

def maxPrefixWidth : Nat := 16

inductive Defect where
  | emptySource
  | widePrefix (width : Nat)
deriving DecidableEq

def Defect.message : Defect → String
  | .emptySource => "source must not be empty"
  | .widePrefix width =>
      "prefix_width " ++ toString width ++ " exceeds maximum of " ++ toString maxPrefixWidth

/-- What makes a configuration unusable; the source is looked at first. -/
def defect? (config : Config) : Option Defect :=
  if config.source.isEmpty then some .emptySource
  else if config.prefixWidth > maxPrefixWidth then some (.widePrefix config.prefixWidth)
  else none

@[simp] theorem defect?_initial : initial.defect? = none := by decide

theorem defect?_eq_none_iff (config : Config) :
    config.defect? = none ↔
      ¬ config.source.isEmpty ∧ config.prefixWidth ≤ maxPrefixWidth := by
  unfold defect?
  split
  · next hempty => simp [hempty]
  · next hempty =>
      split <;> simp [hempty] <;> omega

inductive Field where
  | source
  | prefixWidth
deriving DecidableEq

def Field.name : Field → Text
  | .source => "source".toList
  | .prefixWidth => "prefix_width".toList

def Field.ofName? (name : Text) : Option Field :=
  if name = Field.source.name then some .source
  else if name = Field.prefixWidth.name then some .prefixWidth
  else none

@[simp] theorem Field.ofName?_name (field : Field) : ofName? field.name = some field := by
  cases field <;> decide

/-- A float comes as its document would write it. -/
inductive Datum where
  | null
  | boolean (value : Bool)
  | integer (value : Int)
  | float (written : String)
  | string (text : Text)
  | sequence
  | map
deriving DecidableEq

def Datum.describe : Datum → String
  | .null => "null"
  | .boolean value => "boolean `" ++ (if value then "true" else "false") ++ "`"
  | .integer value => "integer `" ++ toString value ++ "`"
  | .float written => "floating point `" ++ written ++ "`"
  | .string text => "string " ++ String.ofList text.quoted
  | .sequence => "sequence"
  | .map => "map"

inductive Expected where
  | path
  | width
  | config
deriving DecidableEq

def Expected.describe : Expected → String
  | .path => "path string"
  | .width => "usize"
  | .config => "struct Config"

inductive Mismatch where
  | unknownField (name : Text)
  | wrongType (datum : Datum) (expected : Expected)
  | wrongValue (datum : Datum) (expected : Expected)
  | tooMany (count : Nat)
deriving DecidableEq

def Mismatch.message : Mismatch → String
  | .unknownField name =>
      "unknown field `" ++ String.ofList name ++ "`, expected `" ++
        String.ofList Field.source.name ++ "` or `" ++ String.ofList Field.prefixWidth.name ++ "`"
  | .wrongType datum expected =>
      "invalid type: " ++ datum.describe ++ ", expected " ++ expected.describe
  | .wrongValue datum expected =>
      "invalid value: " ++ datum.describe ++ ", expected " ++ expected.describe
  | .tooMany count =>
      "invalid length " ++ toString count ++ ", expected fewer elements in array"

def Datum.path? : Datum → Except Mismatch Path
  | .string text => .ok ⟨text.encode⟩
  | datum => .error (.wrongType datum .path)

def Datum.width? : Datum → Except Mismatch Nat
  | .integer (.ofNat value) => .ok value
  | .integer (.negSucc value) => .error (.wrongValue (.integer (.negSucc value)) .width)
  | datum => .error (.wrongType datum .width)

end Config

def Toml.floatStyle : Binary64.Style := ⟨.up, fun _ => true⟩

def Toml.Value.datum : Toml.Value → Config.Datum
  | .string text => .string text
  | .integer value => .integer value
  | .float value => .float (value.text Toml.floatStyle)
  | .boolean value => .boolean value
  | .dateTime => .map
  | .array _ => .sequence
  | .table _ _ => .map
  | .tables _ => .sequence

/-- Numbers from a hundred thousandth up to below ten to the sixteenth are written out, and a
tie goes to the even digit. -/
def Json.floatStyle : Binary64.Style := ⟨.toEven, fun order => -5 ≤ order && order ≤ 15⟩

def Json.Value.datum : Json.Value → Config.Datum
  | .null => .null
  | .boolean value => .boolean value
  | .integer value => .integer value
  | .float value => .float (value.text Json.floatStyle)
  | .string text => .string text
  | .array _ => .sequence
  | .object _ => .map

/-! A layer sets some fields of a configuration and leaves the others alone.  A document makes a
layer only if every one of its keys is a field and every value fits. -/

namespace Config

structure Layer where
  source? : Option Path
  prefixWidth? : Option Nat
deriving DecidableEq

namespace Layer

def empty : Layer := ⟨none, none⟩

def set (layer : Layer) (field : Field) (datum : Datum) : Except Mismatch Layer :=
  match field with
  | .source => datum.path?.map fun path => { layer with source? := some path }
  | .prefixWidth => datum.width?.map fun width => { layer with prefixWidth? := some width }

def setNamed (layer : Layer) (name : Text) (datum : Datum) : Except Mismatch Layer :=
  match Field.ofName? name with
  | some field => layer.set field datum
  | none => .error (.unknownField name)

def ofEntries? (entries : Toml.Entries) : Except Mismatch Layer :=
  entries.foldlM (fun layer entry => layer.setNamed entry.1 entry.2.datum) empty

end Layer

/-- A relative source is taken from the base directory, unless that is the empty path. -/
def resolve (base : Option Path) (source : Path) : Path :=
  match base with
  | none => source
  | some base => if source.isAbsolute || base.isEmpty then source else base.join source

def apply (config : Config) (base : Option Path) (layer : Layer) : Config where
  source := (layer.source?.map (resolve base)).getD config.source
  prefixWidth := layer.prefixWidth?.getD config.prefixWidth

@[simp] theorem apply_empty (config : Config) (base : Option Path) :
    config.apply base .empty = config := rfl

end Config

/-! A whole configuration written as one value: an object by the names of its fields, or an array
by their order.  What is left out has its initial value, and unknown members are passed over. -/

namespace Config

private def setIfGiven (field : Field) (value? : Option Json.Value) (layer : Layer) :
    Except Mismatch Layer :=
  match value? with
  | some value => layer.set field value.datum
  | none => .ok layer

/-- The fields are read in the order of their names from an object, and the source first from
an array. -/
def ofJson? (value : Json.Value) : Except Mismatch Config :=
  match value with
  | .object _ => do
      let layer ← setIfGiven .prefixWidth (value.member? Field.prefixWidth.name) .empty
      let layer ← setIfGiven .source (value.member? Field.source.name) layer
      return initial.apply none layer
  | .array items => do
      let layer ← setIfGiven .source items[0]? .empty
      let layer ← setIfGiven .prefixWidth items[1]? layer
      if items.length > 2 then throw (.tooMany items.length)
      return initial.apply none layer
  | _ => throw (.wrongType value.datum .config)

end Config

end GrammarListing
