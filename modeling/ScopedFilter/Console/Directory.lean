import ScopedFilter.Fields.ConfigText

/-!
Configuration files in a directory. The directory holds files only; neither it nor a directory
above it holds anything else that a path could lead to.
-/

namespace ScopedFilter

structure Directory where
  files : List (String × ByteArray)

namespace Directory

/-- Where the part of a path that has been followed leads. -/
inductive Place where
  | here
  | above
  | file (content : ByteArray)

def follow (directory : Directory) : Place → String → Option Place
  | .file _, _ => none
  | .here, "" | .here, "." => some .here
  | .above, "" | .above, "." => some .above
  | _, ".." => some .above
  | .here, name => (directory.files.lookup name).map .file
  | .above, _ => none

def longestPath : Nat := 4095

def find? (directory : Directory) (path : String) : Option Place :=
  if path = "" ∨ longestPath < path.utf8ByteSize then none
  else
    (path.splitOn "/").foldl (fun place name => place.bind (directory.follow · name)) (some .here)

end Directory

namespace Config

def ofBytes (path : String) (content : ByteArray) : Except ConfigError Config :=
  match String.fromUTF8? content with
  | some text => ofText text
  | none => .error (.unreadable path)

def ofFile (directory : Directory) (path : String) : Except ConfigError Config :=
  match directory.find? path with
  | some (.file content) => ofBytes path content
  | some _ => .error (.unreadable path)
  | none => .error (.missing path)

end Config

end ScopedFilter
