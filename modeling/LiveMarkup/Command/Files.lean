import LiveMarkup.Text.Fields

/-!
# Files

The files in and below the working directory, as the command sees them. A path is followed name by
name; what is outside the working directory is not known, so nothing is found there.
-/

namespace LiveMarkup

/-- The contents of the files by their paths, which are lists of names from the working directory.
-/
structure Files where
  contents : List (List Bytes × Bytes) := []
  deriving DecidableEq, Repr

/-- Why a file cannot be used. -/
inductive FileError
  | missing
  | isDirectory
  | notDirectory
  /-- A name on the way is too long. -/
  | tooLong
  deriving DecidableEq, Repr

/-- The wording of an error. -/
def FileError.text : FileError → Bytes
  | .missing => utf8 "no such file or directory"
  | .isDirectory => utf8 "is a directory"
  | .notDirectory => utf8 "not a directory"
  | .tooLong => utf8 "file name too long"

namespace Files

/-- Where a path leads. -/
inductive Place
  /-- A directory that is not below the working directory. -/
  | outside
  | directory (names : List Bytes)
  | file (names : List Bytes) (content : Bytes)

/-- The names of a path. -/
def names (path : Bytes) : List Bytes := (path.splitOn (octet '/')).filter (!·.isEmpty)

/-- The files with their paths taken apart. -/
def ofList (l : List (Bytes × Bytes)) : Files := ⟨l.map fun f => (names f.1, f.2)⟩

/-- The content of the file with a path. -/
def content? (f : Files) (ns : List Bytes) : Option Bytes :=
  (f.contents.find? (·.1 = ns)).map Prod.snd

/-- Whether there is something below a path. -/
def isDirectory (f : Files) (ns : List Bytes) : Bool :=
  ns.isEmpty || f.contents.any fun c => ns.length < c.1.length && c.1.take ns.length == ns

/-- How many octets a name may have. -/
def maxName : Nat := 255

/-- The place of a name below a directory. -/
def child (f : Files) (ns : List Bytes) : Except FileError Place :=
  match f.content? ns with
  | some c => .ok (.file ns c)
  | none => if f.isDirectory ns then .ok (.directory ns) else .error .missing

/-- Follows one name from a place. -/
def follow (f : Files) (p : Place) (name : Bytes) : Except FileError Place :=
  match p with
  | .file _ _ => .error .notDirectory
  | .outside =>
    if name = utf8 "." ∨ name = utf8 ".." then .ok .outside else .error .missing
  | .directory ns =>
    if name = utf8 "." then .ok (.directory ns)
    else if name = utf8 ".." then .ok (if ns.isEmpty then .outside else .directory ns.dropLast)
    else if maxName < name.length then .error .tooLong
    else f.child (ns ++ [name])

/-- Follows a list of names from a place. -/
def followAll (f : Files) : Place → List Bytes → Except FileError Place
  | p, [] => .ok p
  | p, n :: ns =>
    match f.follow p n with
    | .ok q => followAll f q ns
    | .error e => .error e

/-- Where a path starts: at the root, which is outside, or in the working directory. -/
def start (path : Bytes) : Place :=
  if path.head? = some (octet '/') then .outside else .directory []

/-- Whether a path can only be that of a directory. -/
def endsInSlash (path : Bytes) : Bool := path.getLast? == some (octet '/')

/-- The content of a file. -/
def read (f : Files) (path : Bytes) : Except FileError Bytes :=
  if path.isEmpty then .error .missing
  else
    match f.followAll (start path) (names path) with
    | .error e => .error e
    | .ok (.file _ c) => if endsInSlash path then .error .notDirectory else .ok c
    | .ok _ => .error .isDirectory

/-- The files after one was written. -/
def set (f : Files) (ns : List Bytes) (content : Bytes) : Files :=
  ⟨f.contents.filter (·.1 ≠ ns) ++ [(ns, content)]⟩

/-- Writes the file with a name in the directory `p`, given where the name
leads from there. -/
def writeAt (f : Files) (p : Place) (name content : Bytes) :
    Except FileError Place → Except FileError Files
  | .ok (.file ns _) => .ok (f.set ns content)
  | .ok _ => .error .isDirectory
  | .error .missing =>
    match p with
    | .directory ns => .ok (f.set (ns ++ [name]) content)
    | _ => .ok f
  | .error e => .error e

/-- Writes a file. The directory that it is in has to be there. -/
def write (f : Files) (path content : Bytes) : Except FileError Files :=
  match (names path).getLast? with
  | none => .error (if path.isEmpty then .missing else .isDirectory)
  | some last =>
    match f.followAll (start path) (names path).dropLast with
    | .error e => .error e
    | .ok (.file _ _) => .error .notDirectory
    | .ok p =>
      if endsInSlash path then .error .isDirectory
      else f.writeAt p last content (f.follow p last)

/-- The path of a file as a text. -/
def pathText (ns : List Bytes) : Bytes := List.intercalate (utf8 "/") ns

/-- The files that were not there before, in the order of their paths. -/
def added (before after : Files) : List (Bytes × Bytes) :=
  Fields.ofList ((after.contents.filter fun c => (before.content? c.1).isNone).map fun c =>
    (pathText c.1, c.2))

end Files

/-- The wording of a file that cannot be read. -/
def readMessage (path : Bytes) (e : FileError) : Bytes :=
  (if e = .isDirectory then utf8 "read " else utf8 "open ") ++ path ++ utf8 ": " ++ e.text

end LiveMarkup
