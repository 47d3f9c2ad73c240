import LiveMarkup.Command.Build
import LiveMarkup.Command.Files
import LiveMarkup.Command.Options

/-!
# The command

`LiveMarkup.Command.plan` is what the arguments ask for, and `LiveMarkup.Command.run` the outcome of
the command over given files.
-/

namespace LiveMarkup

namespace Command

/-- What the arguments ask for. -/
inductive Plan
  /-- To say something and to end with a status. -/
  | quit (status : Nat) (stderr : Bytes)
  /-- To build once. -/
  | build (options : Options)
  /-- To build whenever the file changes. -/
  | watch (options : Options)
  /-- To serve the playground. -/
  | serve (options : Options)

/-- What a list of arguments asks for. -/
def plan (args : List Bytes) : Plan :=
  match Options.parse args with
  | .error .help => .quit 0 Options.usage
  | .error e => .quit 2 (e.message ++ Options.usage)
  | .ok o =>
    if o.isMisused then .quit 2 Options.usage
    else if !o.address.isEmpty then .serve o
    else if o.watch then .watch o
    else .build o

/-- The outcome of the command. -/
structure Outcome where
  status : Nat := 0
  stdout : Bytes := []
  stderr : Bytes := []
  files : Files := {}

/-- Whether the output goes to the standard output. -/
def toStdout (out : Bytes) : Bool := out.isEmpty || out == utf8 "-"

/-- The name of the standard input in messages. -/
def stdinName : Bytes := utf8 "<stdin>"

/-- The build options among the options. -/
def buildOptions (o : Options) : BuildOptions := ⟨o.tree, o.strict⟩

/-- The outcome with an error added, if there is one. -/
def Outcome.fail (r : Outcome) : Option BuildError → Outcome
  | none => r
  | some e => { r with status := 1, stderr := r.stderr ++ e.message ++ utf8 "\n" }

/-- The outcome of building a source with a name. -/
def runBuild (o : Options) (files : Files) (name src : Bytes) : Outcome :=
  let b := Build.ofSource (buildOptions o) name src
  let done := b.finish (buildOptions o) name
  if toStdout o.out then
    { stdout := b.output, stderr := b.report, files : Outcome }.fail done
  else
    match files.write o.out b.output with
    | .ok files' => { stderr := b.report, files := files' : Outcome }.fail done
    | .error e =>
      { stderr := b.report, files : Outcome }.fail
        (some (.writing (utf8 "open " ++ o.out ++ utf8 ": " ++ e.text)))

/-- The outcome of reading a file and going on with its content. -/
def withFile (files : Files) (path : Bytes) (next : Bytes → Outcome) : Outcome :=
  match files.read path with
  | .ok src => next src
  | .error e => { files : Outcome }.fail (some (.reading (readMessage path e)))

/-- Builds a file to the standard output. -/
def buildFile (o : BuildOptions) (output : Output) (files : Files) (path : Bytes) : BuildResult :=
  match files.read path with
  | .ok src => .ofSource o output path src
  | .error e => { error? := some (.reading (readMessage path e)) }

/-- The outcome of the command. Watching and serving go on until they are stopped, so they have no
outcome besides that of their start. -/
def run (args : List Bytes) (stdin : Bytes) (files : Files) : Outcome :=
  match plan args with
  | .quit status stderr => { status, stderr, files }
  | .build o =>
    if o.path.isEmpty then runBuild o files stdinName stdin
    else withFile files o.path (runBuild o files o.path)
  | .watch o => withFile files o.path (runBuild o files o.path)
  | .serve o =>
    if o.path.isEmpty then { files } else withFile files o.path fun _ => { files }

end Command

end LiveMarkup
