/-!
# Writing into a folder

What can keep a file from being written, and what comes of writing one. A file is opened first,
which makes it or empties it, and then takes the text from its first byte on. It can stop taking it,
and what it has taken by then stays.

Of the folders only one that is still empty is described here. A path is read from left to right:
every name but the last has to be that of a folder, and an empty folder has none but itself and the
one around it.
-/

namespace FormatRequest

/-- Why a file cannot be written. -/
inductive WriteFault
  | missing
  | isFolder
  | nameTooLong
  | nulInName
  | noSpace
  /-- Another reason, in the words of the system. -/
  | system (reason : String)
  deriving DecidableEq, Repr

/-- The wording of a fault. -/
def WriteFault.message : WriteFault → String
  | .missing => "No such file or directory (os error 2)"
  | .isFolder => "Is a directory (os error 21)"
  | .nameTooLong => "File name too long (os error 36)"
  | .nulInName => "file name contained an unexpected NUL byte"
  | .noSpace => "No space left on device (os error 28)"
  | .system reason => reason

/-- What comes of writing a text to a file. -/
inductive Writing
  /-- The file holds the text. -/
  | done
  /-- The file cannot be opened. It is as it was, or still missing. -/
  | refused (cause : WriteFault)
  /-- The file was opened, and took this number of bytes before it took no more. -/
  | brokeOff (cause : WriteFault) (taken : Nat)
  deriving DecidableEq, Repr

/-- A text in UTF-8. -/
def bytesOf (text : String) : List UInt8 := text.toUTF8.data.toList

/-- The first bytes of a text. -/
def firstBytes (text : String) (n : Nat) : List UInt8 := (bytesOf text).take n

/-- What comes of writing to a file that has room for a number of bytes. -/
def Writing.within (room : Nat) (text : String) : Writing :=
  if ((bytesOf text).drop room).isEmpty then .done else .brokeOff .noSpace room

/-- Says of each path and each text what comes of writing the text there. -/
abbrev Folder := (path text : String) → Writing

namespace Folder

/-- The greatest length of a name, in bytes. -/
def maxName : Nat := 255

/-- The greatest length of a path, in bytes. -/
def maxPath : Nat := 4095

/-- The number of bytes of a text in UTF-8. -/
def byteLength (text : List Char) : Nat := text.foldr (fun c n => c.utf8Size + n) 0

/-- Where a path leads to: the number of folders to go up, and the name of the file there. -/
structure Place where
  above : Nat
  name : List Char
  deriving DecidableEq, Repr

/-- Follows the names of a path, `above` folders up already. Only the folder itself and those around
it are there; doubled and final slashes leave an empty name, which stands for the folder itself. A
path that ends in a slash can only be that of a folder, and this is noticed before its last name is
looked up. -/
def follow (above : Nat) : List (List Char) → Except WriteFault Place
  | [] => .error .isFolder
  | name :: rest =>
    if name.isEmpty || name == ['.'] then follow above rest
    else if name == ['.', '.'] then follow (above + 1) rest
    else if !rest.isEmpty && rest.all List.isEmpty then .error .isFolder
    else if byteLength name > maxName then .error .nameTooLong
    else if rest.isEmpty then .ok ⟨above, name⟩
    else .error .missing

/-- The place of the file that a path leads to. -/
def place (path : String) : Except WriteFault Place :=
  let text := path.toList
  if text.contains '\x00' then .error .nulInName
  else if text.isEmpty then .error .missing
  else if byteLength text > maxPath then .error .nameTooLong
  else follow 0 (text.splitOn '/')

/-- The path of a device that can be opened by anyone and has room for nothing. -/
def fullDevice : String := "/dev/full"

/-- The folder without files. A path from the root is followed as if the folder were the root; of
what stands outside of it, only the full device is there. -/
def empty : Folder := fun path text =>
  if path = fullDevice then .within 0 text
  else
    match place path with
    | .ok _ => .done
    | .error cause => .refused cause

/-- Whether two paths lead to the same file. A file is no folder, so that no path leads past it. -/
def samePlace (path other : String) : Bool :=
  match place path, place other with
  | .ok p, .ok q => p == q
  | _, _ => false

end Folder

end FormatRequest
