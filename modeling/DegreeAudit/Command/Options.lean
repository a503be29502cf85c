import DegreeAudit.Text.Digit
import DegreeAudit.Text.Split

/-!
# Command line options

An option is a word that starts with two hyphens. It can be shortened as long as only one option
starts with it, and its value stands behind an equals sign or is the next word. Two hyphens behind
an equals sign are no value: they give an empty major, an empty course list, or no data folder at
all. A word that looks like a negative number, or that holds a space, is no option. Words are sorted
out before any option takes effect, so that an ambiguous word is an error wherever it stands. There
are no other arguments: one left over is an error, unless help was asked for before.
-/

namespace DegreeAudit

/-- The data folder that a command line asks for. -/
inductive DataChoice where
  /-- The standard one, as none is named. -/
  | standard
  | named (path : Text)
  /-- None at all, as no value is given. -/
  | missing
deriving DecidableEq

/-- The options of the command line. -/
structure Options where
  major : Option Text
  courses : Option Text
  dataDir : DataChoice
  json : Bool
  listMajors : Bool
  debug : Bool

namespace Options

/-- The options when none is given. -/
def none : Options := ⟨.none, .none, .standard, false, false, false⟩

end Options

namespace CommandLine

open Text

/-- What an option does. -/
inductive Switch where
  | help
  | major
  | courses
  | dataDir
  | json
  | listMajors
  | debug
deriving DecidableEq

/-- The spellings of the options. -/
def spellings : List (Text × Switch) :=
  [("-h", .help), ("--help", .help), ("--major", .major),
    ("--courses", .courses), ("--data-dir", .dataDir), ("--json", .json),
    ("--list-majors", .listMajors), ("--debug", .debug)]

/-- Whether an option takes a value. -/
def takesValue : Switch → Bool
  | .major | .courses | .dataDir => true
  | _ => false

/-- A word of the command line. -/
inductive Word where
  /-- A word that is no option. -/
  | plain (s : Text)
  /-- An option, with the value behind its equals sign. -/
  | option (switch : Switch) (value : Option Text)
  /-- The short help option with further characters behind it, with or without an equals sign. -/
  | helpCluster (rest : Text)
  /-- A word that looks like an option and is none. -/
  | unknown
  /-- Two hyphens: no option follows. -/
  | stop

/-- Whether a text is a number behind a hyphen, with or without a point; a line end may follow. -/
def isNegative (cs : Text) : Bool :=
  match cs with
  | '-' :: rest =>
    let rest := if rest.getLast? = some '\n' then rest.dropLast else rest
    match rest.span isDecimal with
    | (digits, []) => !digits.isEmpty
    | (_, '.' :: digits) => !digits.isEmpty && digits.all isDecimal
    | _ => false
  | _ => false

/-- What a word is, unless it is ambiguous. -/
def sortWord (word : Text) : Option Word :=
  match word with
  | '-' :: next :: _ =>
    match spellings.lookup word with
    | some switch => some (.option switch .none)
    | .none =>
      let (name, value) := cut '=' word
      match value, spellings.lookup name with
      | some v, some switch =>
        some (if name = "-h" then .helpCluster v else .option switch (some v))
      | _, _ =>
        if next = '-' then
          match spellings.filter fun s => name.isPrefixOf s.1 with
          | [(_, switch)] => some (.option switch value)
          | [] => some (if word.contains ' ' then .plain word else .unknown)
          | _ => .none
        else if next = 'h' then some (.helpCluster (word.drop 2))
        else some (if isNegative word || word.contains ' ' then .plain word else .unknown)
  | _ => some (.plain word)

/-- Sorts out the words up to two hyphens that stand alone. -/
def sortWords : List Text → Option (List Word)
  | [] => some []
  | word :: rest =>
    if word = "--" then some [.stop]
    else do
      let w ← sortWord word
      let ws ← sortWords rest
      return w :: ws

/-- Why the command line ends the program at once. -/
inductive Stop where
  | help
  | error
deriving DecidableEq

/-- Whether characters behind the short help option are all help options again. -/
def clusterIsHelp (cs : Text) : Bool := !cs.isEmpty && cs.all fun (c : CodePoint) => c == 'h'

/-- Sets an option that takes no value. -/
def set (switch : Switch) (o : Options) : Options :=
  match switch with
  | .json => { o with json := true }
  | .listMajors => { o with listMajors := true }
  | .debug => { o with debug := true }
  | _ => o

/-- Whether a word is a value: two hyphens are none. -/
def isValue (word : Text) : Bool := word ≠ "--"

/-- Sets an option to a value. -/
def setValue (switch : Switch) (v : Text) (o : Options) : Options :=
  let value : Text := if isValue v then v else ""
  match switch with
  | .major => { o with major := some value }
  | .courses => { o with courses := some value }
  | .dataDir => { o with dataDir := if isValue v then .named v else .missing }
  | _ => o

/-- Applies words in order. `leftOver` tells whether a word was left over. -/
def apply (leftOver : Bool) (o : Options) : List Word → Except Stop Options
  | [] => if leftOver then .error .error else .ok o
  | .plain _ :: rest => apply true o rest
  | .unknown :: rest => apply true o rest
  | .stop :: _ => .error .error
  | .helpCluster cs :: _ => .error (if clusterIsHelp cs then .help else .error)
  | .option switch (some v) :: rest =>
    if takesValue switch then apply leftOver (setValue switch v o) rest else .error .error
  | .option .help .none :: _ => .error .help
  | .option switch .none :: .plain v :: rest =>
    if takesValue switch then apply leftOver (setValue switch v o) rest
    else apply true (set switch o) rest
  | .option switch .none :: rest =>
    if takesValue switch then .error .error else apply leftOver (set switch o) rest

/-- The options that the words of a command line set. -/
def read (words : List Text) : Except Stop Options :=
  match sortWords words with
  | some ws => apply false Options.none ws
  | .none => .error .error

end CommandLine

end DegreeAudit
