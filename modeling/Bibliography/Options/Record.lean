import Bibliography.Options
import Bibliography.Json.Record

/-!
# Bibliography.Options.Record

Options as JSON.  One table lists the options in their order, with their names
and with how each is read and written.
-/

namespace Bibliography

/-! ## values of options -/

/-- How the value of an option is decoded and encoded. -/
structure ValueCodec (α : Type) where
  decode : Json → Option α
  encode : α → Json

namespace ValueCodec

/-- A natural number. -/
def count : ValueCodec Nat where
  decode
    | .number n => n
    | _ => none
  encode n := .number (some n)

/-- A text. -/
def text : ValueCodec Text where
  decode
    | .text t => some t
    | _ => none
  encode := .text

/-- A list of values. -/
def list {α : Type} (c : ValueCodec α) : ValueCodec (List α) where
  decode
    | .array items => items.mapM c.decode
    | _ => none
  encode as := .array (as.map c.encode)

/-- One of some named values: its name, or an object with its name and
`null`. -/
def named {α : Type} (all : List α) (name : α → String) : ValueCodec α where
  decode
    | .text t | .object [(t, .null)] => all.find? fun a => (name a).toList = t
    | _ => none
  encode a := .text (name a).toList

/-- A value, or `true` or `false`. -/
def toggle {α : Type} (c : ValueCodec α) : ValueCodec (Toggle α) where
  decode
    | .bool b => some (.flag b)
    | v => (c.decode v).map .value
  encode
    | .flag b => .bool b
    | .value a => c.encode a

end ValueCodec

/-- How an option is read and written. -/
structure OptionCodec (α : Type) where
  read : Json.Reader α
  write : α → Json

namespace OptionCodec

/-- An option that is on or off. -/
def switch : OptionCodec Bool := ⟨.bool, .bool⟩

/-- An option that is a list of texts. -/
def texts : OptionCodec (List Text) := ⟨.texts, (ValueCodec.list .text).encode⟩

/-- An option that is a number, if it is given. -/
def limit : OptionCodec (Option Nat) :=
  ⟨.optional .count, fun n => (n.map ValueCodec.count.encode).getD .null⟩

/-- An option that may be switched on or off or given a value.  The record is
one level of nesting, and the value has what is left of the limit. -/
def toggle {α : Type} (c : ValueCodec α) : OptionCodec (Option (Toggle α)) :=
  ⟨.optional (.decoded (Json.depthLimit - 1) c.toggle.decode),
    fun t => (t.map c.toggle.encode).getD .null⟩

end OptionCodec

/-! ## the table -/

/-- An option: its names, and how it is read into options and written from
them. -/
structure OptionEntry where
  member : Json.Member Options
  write : Options → Json

/-- The entry of an option from its name, its codec and its place in the
options. -/
def OptionEntry.of {α : Type} (name : String) (c : OptionCodec α) (get : Options → α)
    (set : α → Options → Options) (otherName : Option String := none) : OptionEntry :=
  ⟨⟨name, otherName, c.read.map set⟩, fun o => c.write (get o)⟩

namespace Options

open OptionCodec in
/-- The options in their order. -/
def table : List OptionEntry :=
  let rules : ValueCodec (List DuplicateRule) := .list (.named DuplicateRule.all DuplicateRule.name)
  let strategy : ValueCodec MergeStrategy := .named MergeStrategy.all MergeStrategy.name
  let names : ValueCodec (List Text) := .list .text
  [ .of "omit" texts omitted fun v o => { o with omitted := v },
    .of "curly" switch curly fun v o => { o with curly := v },
    .of "numeric" switch numeric fun v o => { o with numeric := v },
    .of "space" (toggle .count) space fun v o => { o with space := v },
    .of "tab" switch tab fun v o => { o with tab := v },
    .of "align" (toggle .count) align fun v o => { o with align := v },
    .of "sort" (toggle names) sort fun v o => { o with sort := v },
    .of "duplicates" (toggle rules) duplicates fun v o => { o with duplicates := v },
    .of "merge" (toggle strategy) merge fun v o => { o with merge := v },
    .of "stripEnclosingBraces" switch stripEnclosingBraces
      fun v o => { o with stripEnclosingBraces := v },
    .of "dropAllCaps" switch dropAllCaps fun v o => { o with dropAllCaps := v },
    .of "escape" switch escape fun v o => { o with escape := v },
    .of "sortFields" (toggle names) sortFields (fun v o => { o with sortFields := v })
      (some "sortProperties"),
    .of "stripComments" switch stripComments fun v o => { o with stripComments := v },
    .of "trailingCommas" switch trailingCommas fun v o => { o with trailingCommas := v },
    .of "encodeUrls" switch encodeUrls fun v o => { o with encodeUrls := v },
    .of "tidyComments" switch tidyComments fun v o => { o with tidyComments := v },
    .of "removeEmptyFields" switch removeEmptyFields fun v o => { o with removeEmptyFields := v },
    .of "removeDuplicateFields" switch removeDuplicateFields
      fun v o => { o with removeDuplicateFields := v },
    .of "generateKeys" (toggle .text) generateKeys fun v o => { o with generateKeys := v },
    .of "maxAuthors" limit maxAuthors fun v o => { o with maxAuthors := v },
    .of "lowercase" switch lowercase fun v o => { o with lowercase := v },
    .of "enclosingBraces" (toggle names) enclosingBraces
      fun v o => { o with enclosingBraces := v },
    .of "wrap" (toggle .count) wrap fun v o => { o with wrap := v } ]

/-- Read options from a JSON text. -/
def parse (s : Text) : Except Json.Fault Options :=
  Json.Record.parse (table.map OptionEntry.member) {} s

/-- Options as a JSON object with a member for each. -/
def toJson (o : Options) : Json :=
  .object (table.map fun e => (e.member.name.toList, e.write o))

end Options

end Bibliography
