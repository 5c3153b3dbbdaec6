import Lox.Text.Lines
import Lox.Text.Quoted
import Lox.Text.Utf8

/-!
# Files

Reading a source file: its bytes are UTF-8, and its line ends may be of any kind. `Directory` is a
working directory as a value, with the faults of opening a path in it.
-/

namespace Lox.Shell

/-- Why a file cannot be read. -/
inductive FileFault where
  | missing
  | isDirectory
  | notDirectory
  | nameTooLong
  | undecodable (fault : Text.Utf8Fault)
  /-- A fault in the words of the system. -/
  | other (text : String)
deriving Inhabited

/-- The places of the bytes at fault. -/
def utf8Place (fault : Text.Utf8Fault) : String :=
  if fault.count = 1 then
    "byte 0x" ++ String.ofList (Text.hexadecimal 2 fault.first.toNat) ++ " in position " ++
      toString fault.position
  else
    "bytes in position " ++ toString fault.position ++ "-" ++
      toString (fault.position + fault.count - 1)

/-- A numbered fault of the system. -/
def systemFault (number : Nat) (text path : String) : String :=
  "[Errno " ++ toString number ++ "] " ++ text ++ ": " ++ Text.quoted path

def FileFault.message (path : String) : FileFault → String
  | missing => "No such file or directory"
  | isDirectory => systemFault 21 "Is a directory" path
  | notDirectory => systemFault 20 "Not a directory" path
  | nameTooLong => systemFault 36 "File name too long" path
  | undecodable fault =>
    "'utf-8' codec can't decode " ++ utf8Place fault ++ ": " ++ fault.reason.text
  | other text => text

/-- The text of a file with the given bytes. -/
def decodeFile (bytes : List UInt8) : Except FileFault String :=
  match Text.decode bytes with
  | .ok text => .ok (String.ofList (Text.unifyLineEnds text))
  | .error fault => .error (.undecodable fault)

/-! ## A working directory -/

/-- The files of a working directory, by the names on the way to them. -/
structure Directory where
  files : List (List String × List UInt8)
deriving Inhabited

/-- The greatest number of bytes of a name. -/
def maxNameBytes : Nat := 255

/-- The greatest number of bytes of a path. -/
def maxPathBytes : Nat := 4095

/-- Where a path has led so far. -/
inductive Place where
  /-- A directory inside the working directory. -/
  | inside (names : List String)
  /-- So many directories above the working directory. -/
  | above (steps : Nat)
  | file (bytes : List UInt8)
deriving Inhabited

namespace Directory

/-- Whether a list of names leads to a directory. -/
def hasDirectory (d : Directory) (names : List String) : Bool :=
  names.isEmpty || d.files.any fun (file, _) => names.length < file.length && names.isPrefixOf file

/-- One step of a path. A name that has nothing behind it is a directory's own. -/
def step (d : Directory) (place : Place) (name : String) : Except FileFault Place :=
  match place with
  | .file _ => .error .notDirectory
  | .inside names =>
    if name = "" ∨ name = "." then .ok place
    else if name = ".." then
      .ok (if names.isEmpty then .above 1 else .inside names.dropLast)
    else if maxNameBytes < name.utf8ByteSize then .error .nameTooLong
    else
      let names := names ++ [name]
      match d.files.lookup names with
      | some bytes => .ok (.file bytes)
      | none => if d.hasDirectory names then .ok (.inside names) else .error .missing
  | .above steps =>
    if name = "" ∨ name = "." then .ok place
    else if name = ".." then .ok (.above (steps + 1))
    else if maxNameBytes < name.utf8ByteSize then .error .nameTooLong
    else .error .missing

/-- The bytes of the file at a path. -/
def bytesAt (d : Directory) (path : String) : Except FileFault (List UInt8) := do
  if maxPathBytes < path.utf8ByteSize then throw .nameTooLong
  let start := if path.startsWith "/" then Place.above 0 else .inside []
  match ← (path.splitOn "/").foldlM d.step start with
  | .file bytes => return bytes
  | _ => throw .isDirectory

/-- The text of the file at a path. -/
def read (d : Directory) (path : String) : Except FileFault String := do
  decodeFile (← d.bytesAt path)

end Directory

end Lox.Shell
