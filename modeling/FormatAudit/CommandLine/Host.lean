import FormatAudit.Audit.Runner
import FormatAudit.CommandLine.Path
import FormatAudit.Settings.File
import FormatAudit.Text.Utf8

/-!
# What the program finds around it

The files that are known, whether dumps can be read at all, and the home directories of users. Files are given by their paths; a
directory is given by itself or by a file below it. The current directory and the directories above it always exist.
-/

namespace FormatAudit.CommandLine

/-- What a path holds. -/
inductive FileEntry where
  | bytes (content : List UInt8)
  | directory
  /-- A dump that can be read. -/
  | dump (d : Dump)
  /-- A dump that cannot be read, and why. -/
  | brokenDump (reason : String)
  /-- A dump during whose reading the user interrupts the program. -/
  | interrupted
  deriving Repr

/-- What surrounds the program. -/
structure Host where
  files : Table String FileEntry := []
  /-- Whether the reader of dumps is installed. -/
  readsDumps : Bool := true
  /-- The home directory that a path part such as `~` or `~user` stands for. -/
  home : String → Option String := fun _ => none

/-- Why a path cannot be used at all. -/
inductive PathError where
  | noHome
  | nulInside
  deriving DecidableEq, Repr

/-- The words for a path that cannot be used. -/
def PathError.message : PathError → String
  | .noHome => "Could not determine home directory."
  | .nulInside => "embedded null byte"

/-- Why settings cannot be loaded. -/
inductive LoadError where
  | settings (failure : SettingsFailure)
  | notUtf8 (fault : Text.Utf8Fault)
  | badPath (cause : PathError)
  /-- An option that adds functions was given without a value. -/
  | noFunctions
  deriving Repr

/-- The words for a place that is not UTF-8. -/
def utf8Message (f : Text.Utf8Fault) : String :=
  if f.count = 1 then
    "'utf-8' codec can't decode byte 0x" ++ String.ofList (Text.hexDigits 2 f.byte.toNat) ++ " in position " ++
      Number.natText f.position ++ ": " ++ f.reason.message
  else
    "'utf-8' codec can't decode bytes in position " ++ Number.natText f.position ++ "-" ++
      Number.natText (f.position + f.count - 1) ++ ": " ++ f.reason.message

/-- The words for an error while loading settings. -/
def LoadError.message : LoadError → String
  | .settings failure => failure.message
  | .notUtf8 fault => utf8Message fault
  | .badPath cause => cause.message
  | .noFunctions => "'list' object has no attribute 'split'"

namespace Host

/-- Whether the known files make a path a directory: it is given as one, or a file is given below it. -/
def isDirectory (h : Host) (p : Path) : Bool :=
  h.files.any fun f =>
    let own := Path.ofText f.1
    own.root == p.root && p.parts.isPrefixOf own.parts &&
      match f.2 with
      | .directory => true
      | _ => decide (p.parts.length < own.parts.length)

/-- The directory around a directory, `none` above the current directory. The root directory is its own. -/
def around (here : Path) : Option Path :=
  if here.parts.isEmpty then (if here.root = "" then none else some here)
  else some { here with parts := here.parts.dropLast }

/-- What the rest of a path leads to: a file with its entry, a directory, or an error. The first argument is the directory
reached so far, or `none` above the current directory: of what stands there nothing is known. -/
def follow (h : Host) : Option Path → List String → Except FileError (Option FileEntry)
  | _, [] => .ok none
  | none, part :: parts =>
    if part = ".." then follow h none parts
    else if Path.partLimit < part.utf8ByteSize then .error .nameTooLong
    else .error .missing
  | some here, part :: parts =>
    if part = ".." then follow h (around here) parts
    else if Path.partLimit < part.utf8ByteSize then .error .nameTooLong
    else
      let there : Path := { here with parts := here.parts ++ [part] }
      if h.isDirectory there then follow h (some there) parts
      else
        match h.files.find? (fun f => Path.ofText f.1 == there) with
        | none => .error .missing
        | some (_, entry) => if parts.isEmpty then .ok (some entry) else .error .notDirectory

/-- What a path leads to. -/
def lookUp (h : Host) (p : Path) : Except FileError (Option FileEntry) :=
  if p.isTooLong then .error .nameTooLong else h.follow (some { p with parts := [] }) p.parts

/-- A path with its home directory written out. -/
def expandHome (h : Host) (p : Path) : Except PathError Path :=
  match p.homePart? with
  | none => .ok p
  | some part =>
    if Path.hasNul part then .error .nulInside
    else
      match h.home part with
      | none => .error .noHome
      | some home => .ok { root := (Path.ofText home).root, parts := (Path.ofText home).parts ++ p.parts.tail }

/-- The bytes of a file that is read as text. -/
def readBytes (h : Host) (p : Path) : Except FileError (List UInt8) :=
  match h.lookUp p with
  | .error e => .error e
  | .ok none | .ok (some .directory) => .error .isDirectory
  | .ok (some (.bytes content)) => .ok content
  | .ok (some _) => .ok []

/-- Loads settings from a file. -/
def readSettings (h : Host) (path : String) : Logged LoadError Settings := do
  let p ← (h.expandHome (Path.ofText path)).mapError LoadError.badPath
  if Path.hasNul p.text then Logged.fail (.badPath .nulInside)
  else
    let content ← (h.readBytes p).mapError
      (fun e => LoadError.settings { error := .unreadable e, source := some p.text })
    let text ← (Text.decodeTextFile content).mapError LoadError.notUtf8
    Logged.note { level := .info, source := .settings, message := "Loaded configuration from " ++ p.text }
    (Settings.parseFrom SExpr.read (some p.text) text).mapError LoadError.settings

end Host

end FormatAudit.CommandLine
