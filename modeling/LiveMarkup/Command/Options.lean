import LiveMarkup.Command.Duration
import LiveMarkup.Text.Display

/-!
# Options of the command

Options come before the other arguments. They start with one or two dashes; a value follows after an
equals sign or, for an option that is not a switch, as the next argument. A double dash alone ends
the options.

`LiveMarkup.Options.parse` reads a list of arguments, and `LiveMarkup.OptionError.message` words
what is wrong with one.
-/

namespace LiveMarkup

/-- The options of the command and the other arguments. -/
structure Options where
  /-- Where the output goes; nothing and a dash mean the standard output. -/
  out : Bytes := []
  /-- Whether the outline is written in place of the document. -/
  tree : Bool := false
  /-- Whether any diagnostic makes the command fail. -/
  strict : Bool := false
  /-- Whether the file is compiled again whenever it changes. -/
  watch : Bool := false
  /-- The quiet period in nanoseconds. -/
  quiet : Int := 800000000
  /-- Where the playground is served. -/
  address : Bytes := []
  /-- Whether the log is detailed. -/
  verbose : Bool := false
  arguments : List Bytes := []
  deriving DecidableEq, Repr

/-- What can be wrong with the options. -/
inductive OptionError
  /-- The usage was asked for. -/
  | help
  | malformed (argument : Bytes)
  | unknown (name : Bytes)
  | noValue (name : Bytes)
  | badSwitch (value name : Bytes)
  | badValue (value name : Bytes)
  deriving DecidableEq, Repr

namespace OptionError

/-- The wording of an error, which the usage follows. -/
def message : OptionError → Bytes
  | .help => []
  | .malformed a => utf8 "bad flag syntax: " ++ a ++ utf8 "\n"
  | .unknown n => utf8 "flag provided but not defined: -" ++ n ++ utf8 "\n"
  | .noValue n => utf8 "flag needs an argument: -" ++ n ++ utf8 "\n"
  | .badSwitch v n =>
    utf8 "invalid boolean value " ++ displayed v ++ utf8 " for -" ++ n ++ utf8 ": parse error\n"
  | .badValue v n =>
    utf8 "invalid value " ++ displayed v ++ utf8 " for flag -" ++ n ++ utf8 ": parse error\n"

end OptionError

namespace Options

/-- How the command is used. -/
def usage : Bytes :=
  utf8 "Usage: nmlc [flags] [file]\n\n"
    ++ utf8 "Compiles an NML file (or stdin) into an HTML document.\n\n"
    ++ utf8 "  -o file\n    \twrite the document to file instead of stdout\n"
    ++ utf8 "  -quiet duration\n"
    ++ utf8 "    \tquiet period before recompiling after a change (default 800ms)\n"
    ++ utf8 "  -serve address\n    \tserve the playground on address, e.g. :8080\n"
    ++ utf8 "  -strict\n    \texit with status 1 if any diagnostic is reported\n"
    ++ utf8 "  -tree\n    \tprint the parsed element tree instead of the document\n"
    ++ utf8 "  -v\tlog debug messages\n"
    ++ utf8 "  -watch\n    \trecompile the file whenever it changes\n"

/-- The options that are switched on or off. -/
inductive Switch
  | strict | tree | verbose | watch
  deriving DecidableEq, Repr

/-- The switch with a name. -/
def Switch.ofName? (name : Bytes) : Option Switch :=
  if name = utf8 "strict" then some .strict
  else if name = utf8 "tree" then some .tree
  else if name = utf8 "v" then some .verbose
  else if name = utf8 "watch" then some .watch
  else none

/-- The options with a switch set. -/
def setSwitch (o : Options) (s : Switch) (on : Bool) : Options :=
  match s with
  | .strict => { o with strict := on }
  | .tree => { o with tree := on }
  | .verbose => { o with verbose := on }
  | .watch => { o with watch := on }

/-- The truth value that a text is. -/
def truth? (s : Bytes) : Option Bool :=
  if s ∈ ["1", "t", "T", "TRUE", "true", "True"].map utf8 then some true
  else if s ∈ ["0", "f", "F", "FALSE", "false", "False"].map utf8 then some false
  else none

/-- Whether there is an option with a value of this name. -/
def takesValue (name : Bytes) : Bool :=
  name == utf8 "o" || name == utf8 "quiet" || name == utf8 "serve"

/-- The options with the value of one set. -/
def setValue (o : Options) (name value : Bytes) : Except OptionError Options :=
  if name = utf8 "o" then .ok { o with out := value }
  else if name = utf8 "serve" then .ok { o with address := value }
  else
    match Duration.parse? value with
    | some d => .ok { o with quiet := d }
    | none => .error (.badValue value name)

/-- An option as written: its name and the value after the equals sign. -/
structure Written where
  name : Bytes
  value : Option Bytes

/-- The name of an option and the value after the equals sign, if there is one. -/
def Written.ofBody (body : Bytes) : Written :=
  let name := body.takeWhile (· ≠ octet '=')
  match body.dropWhile (· ≠ octet '=') with
  | [] => ⟨name, none⟩
  | _ :: value => ⟨name, some value⟩

/-- What an argument is. -/
inductive Kind
  /-- The first argument that is not an option. -/
  | plain
  /-- The mark that ends the options. -/
  | mark
  | option (body : Bytes)

/-- What an argument is; `body` of an option is what follows its dashes. -/
def kindOf (a : Bytes) : Kind :=
  match a with
  | [] | [_] => .plain
  | b :: c :: r =>
    if b ≠ octet '-' then .plain
    else if c = octet '-' then if r.isEmpty then .mark else .option r
    else .option (c :: r)

/-- Whether what follows the dashes can be an option. -/
def isOptionBody (body : Bytes) : Bool :=
  match body with
  | [] => false
  | b :: _ => b != octet '-' && b != octet '='

/-- The options after an option whose value, if it takes one, is not in the next argument. -/
def apply (o : Options) (w : Written) : Except OptionError Options :=
  match Switch.ofName? w.name with
  | some s =>
    match w.value with
    | none => .ok (o.setSwitch s true)
    | some v =>
      match truth? v with
      | some b => .ok (o.setSwitch s b)
      | none => .error (.badSwitch v w.name)
  | none =>
    if takesValue w.name then
      match w.value with
      | some v => o.setValue w.name v
      | none => .error (.noValue w.name)
    else if w.name = utf8 "help" ∨ w.name = utf8 "h" then .error .help
    else .error (.unknown w.name)

/-- Reads a list of arguments; `o` are the options so far. -/
def parseFrom (o : Options) : List Bytes → Except OptionError Options
  | [] => .ok o
  | a :: as =>
    match kindOf a with
    | .plain => .ok { o with arguments := a :: as }
    | .mark => .ok { o with arguments := as }
    | .option body =>
      if !isOptionBody body then .error (.malformed a)
      else
        let w := Written.ofBody body
        match as with
        | v :: rest =>
          if takesValue w.name && w.value.isNone then
            match o.setValue w.name v with
            | .ok o' => parseFrom o' rest
            | .error e => .error e
          else
            match o.apply w with
            | .ok o' => parseFrom o' (v :: rest)
            | .error e => .error e
        | [] => o.apply w

/-- Reads a list of arguments. -/
def parse (args : List Bytes) : Except OptionError Options := parseFrom {} args

/-- Whether the arguments do not go together. -/
def isMisused (o : Options) : Bool :=
  1 < o.arguments.length || (o.watch && o.arguments.isEmpty) || (o.watch && !o.address.isEmpty)

/-- The file to compile; nothing is the standard input. -/
def path (o : Options) : Bytes := o.arguments.headD []

end Options

end LiveMarkup
