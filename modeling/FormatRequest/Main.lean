import FormatRequest.CommandLine.Run

/-!
# The program

Prints what a command line asks for, or writes it to a file. What is printed and written is decided
by `plan` and `outcome`.
-/

namespace FormatRequest.CommandLine

/-- What kept the system from writing a file. -/
def writeFault : IO.Error → WriteFault
  | .noFileOrDirectory .. => .missing
  | .inappropriateType .. => .isFolder
  | .resourceExhausted _ 28 _ => .noSpace
  | e => .system (toString e)

/-- Writes a text to a file that is made or emptied first. Where the writing breaks off, nobody asks
the file how much it has taken. -/
def writeFile (path text : String) : IO Writing := do
  match ← (IO.FS.Handle.mk path .write).toBaseIO with
  | .error e => return .refused (writeFault e)
  | .ok file =>
    match ← (file.putStr text *> file.flush).toBaseIO with
    | .ok () => return .done
    | .error e => return .brokeOff (writeFault e) 0

/-- Carries out a delivery on the disk. -/
def deliver (d : Delivery) : IO (Except DeliveryFault Delivered) := do
  match d with
  | .print _ => return d.carryOut Folder.empty
  | .save path text =>
    let writing ← writeFile path text
    return d.carryOut fun _ _ => writing

/-- Runs the program on the disk and returns its exit code. -/
def runOnDisk (words : List String) : IO UInt32 := do
  let result ← match plan words with
    | .ok d => do pure ((← deliver d).mapError .delivery)
    | .error fault => pure (.error fault)
  let ended := outcome result
  (← IO.getStdout).putStr ended.stdout
  (← IO.getStderr).putStr ended.stderr
  return ended.exitCode

end FormatRequest.CommandLine

def main (words : List String) : IO UInt32 := FormatRequest.CommandLine.runOnDisk words
