import Roaming.Text.Utf8

/-!
# Files

The files that a client's settings may name, as far as they are known: those of the current
directory.
-/

set_option autoImplicit false
set_option relaxedAutoImplicit false

namespace Roaming

open Roaming.Text (Bytes)

/-- What stands under a name. -/
inductive File where
  | directory
  | content (bytes : Bytes)

/-- Why a file cannot be read. -/
inductive FileFault where
  | missing
  | notDirectory
  | isDirectory
deriving DecidableEq, Repr

/-- The wording of a fault. -/
def FileFault.message : FileFault → String
  | .missing => "No such file or directory (os error 2)"
  | .notDirectory => "Not a directory (os error 20)"
  | .isDirectory => "Is a directory (os error 21)"

/-- The files of the current directory, by name. -/
abbrev Files := List (String × File)

namespace Files

/-- The parts of a path that lead somewhere. -/
def steps (path : String) : List String :=
  (path.splitOn "/").filter (fun s => s ≠ "" && s ≠ ".")

/-- The content of the file under a path. -/
def read (files : Files) (path : String) : Except FileFault Bytes :=
  if path = "" then .error .missing
  else if path.startsWith "/" then
    if steps path = [] then .error .isDirectory else .error .missing
  else
    match steps path with
    | [] => .error .isDirectory
    | name :: inner =>
      match files.lookup name with
      | none => .error .missing
      | some .directory => if inner = [] then .error .isDirectory else .error .missing
      | some (.content bytes) =>
        if inner = [] && path.endsWith name then .ok bytes else .error .notDirectory

end Files

end Roaming
