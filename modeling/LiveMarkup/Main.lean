import LiveMarkup.Command.Run

/-!
# The command line

Runs what `LiveMarkup.Command.plan` says on the real files. Watching looks at the file once in every
quiet period. The playground itself is `LiveMarkup.Playground.answer` and `LiveMarkup.Session.run`;
there is no network here to serve it on.
-/

namespace LiveMarkup

namespace CommandLine

/-- The octets of a text. -/
def ofBytes (s : Bytes) : ByteArray := ⟨s.toArray⟩

/-- The text of octets, for the name of a file. -/
def ofPath (s : Bytes) : String := String.ofList (Utf8.lossy s)

/-- Writes to the standard error. -/
def report (s : Bytes) : IO Unit := do
  (← IO.getStderr).write (ofBytes s)

/-- The reason for which a file could not be used. -/
def reason : IO.Error → FileError
  | .noFileOrDirectory _ _ _ => .missing
  | .inappropriateType _ _ details =>
    if details = "Is a directory" then .isDirectory else .notDirectory
  | _ => .missing

/-- The content of a file. -/
def readFile (path : Bytes) : IO (Except BuildError Bytes) := do
  try
    return .ok (← IO.FS.readBinFile (ofPath path)).toList
  catch e =>
    return .error (.reading (readMessage path (reason e)))

/-- Writes the output to where it goes. -/
def writeOutput (out content : Bytes) : IO (Option BuildError) := do
  try
    if Command.toStdout out then (← IO.getStdout).write (ofBytes content)
    else IO.FS.writeBinFile (ofPath out) (ofBytes content)
    return none
  catch e =>
    return some (.writing (utf8 "open " ++ out ++ utf8 ": " ++ (reason e).text))

/-- Builds a source with a name. -/
def build (o : Options) (name src : Bytes) : IO (Option BuildError) := do
  let b := Build.ofSource (Command.buildOptions o) name src
  report b.report
  match ← writeOutput o.out b.output with
  | some e => return some e
  | none => return b.finish (Command.buildOptions o) name

/-- Builds a file. -/
def buildFile (o : Options) : IO (Option BuildError) := do
  match ← readFile o.path with
  | .ok src => build o o.path src
  | .error e => return some e

/-- The exit status for an error, which is reported. -/
def exitStatus : Option BuildError → IO UInt32
  | none => return 0
  | some e => do
    report (e.message ++ utf8 "\n")
    return 1

/-- Builds the file whenever it has changed since `last`. -/
partial def watch (o : Options) (last : Option Bytes) : IO UInt32 := do
  IO.sleep (o.quiet / 1000000).toNat.toUInt32
  let now := (← readFile o.path).toOption
  if now != last then
    discard <| exitStatus (← buildFile o)
  watch o now

/-- Does what the arguments ask for. -/
def run (args : List Bytes) : IO UInt32 := do
  match Command.plan args with
  | .quit status stderr =>
    report stderr
    return status.toUInt32
  | .build o =>
    if o.path.isEmpty then
      let src ← (← IO.getStdin).readBinToEnd
      exitStatus (← build o Command.stdinName src.toList)
    else exitStatus (← buildFile o)
  | .watch o =>
    discard <| exitStatus (← buildFile o)
    watch o (← readFile o.path).toOption
  | .serve _ =>
    report (utf8 "serve HTTP: no network\n")
    return 1

end CommandLine

end LiveMarkup

/-- The command. -/
def main (args : List String) : IO UInt32 :=
  LiveMarkup.CommandLine.run (args.map LiveMarkup.utf8)
