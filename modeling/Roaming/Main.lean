import Roaming.Demonstration

/-!
# The program

Shows the demonstration, for a request with a random transaction id.
-/

set_option autoImplicit false
set_option relaxedAutoImplicit false

/-- Writes the lines of the demonstration, or why there are none. -/
def main : IO UInt32 := do
  let n ← IO.rand 1 4294967295
  match Roaming.Demonstration.lines n.toUInt32 with
  | .ok lines =>
    for line in lines do IO.println line
    return 0
  | .error f =>
    IO.eprintln s!"Error: {f.message}"
    return 1
