import FileShell.Program.Basic
import Std.Time

/-! # The command line

The program runs on a volume in memory. It holds the working directory, the home directory and the
user's settings when the program starts, and is gone when the program ends. The input is read to its
end before the first line runs. -/

namespace FileShell

/-- The bytes still to be read from a stream, put after those that were read. -/
partial def readRest (stream : IO.FS.Stream) (read : ByteArray) : IO ByteArray := do
  let chunk ← stream.read 65536
  if chunk.isEmpty then return read else readRest stream (read ++ chunk)

/-- The directory that a variable of the environment names, the root if it names none. -/
def directoryFrom (name : String) : IO Path := do
  return ⟨((← IO.getEnv name).getD "/").toList⟩

/-- The file with the user's settings, if it can be read. -/
def settingsFile (home : Path) : IO (List (Path × Entry)) := do
  let path := configPath home
  try
    return [(path, .file (← IO.FS.readBinFile (String.ofList path.text)))]
  catch _ => return []

/-- The date and the time of day that the clock shows. -/
def clock : IO Moment := do
  let ⟨date, time⟩ ← Std.Time.PlainDateTime.now
  return ⟨date.year.toInt, date.month.toNat, date.day.toNat, time.hour.toNat, time.minute.toNat,
    time.second.toNat⟩

/-- What a run of the program depends on, gathered from its surroundings. -/
def gather (arguments : List String) : IO Launch := do
  let cwd ← directoryFrom "PWD"
  let home ← directoryFrom "HOME"
  let tree := Tree.ofEntries ([(cwd, .directory), (home, .directory)] ++ (← settingsFile home))
  let input ← readRest (← IO.getStdin) .empty
  return ⟨arguments.map String.toList, input, cwd, home, tree, ← clock⟩

end FileShell

/-- **The program.** -/
def main (arguments : List String) : IO UInt32 := do
  let result := (← FileShell.gather arguments).run
  IO.print (String.ofList result.output)
  IO.eprint (String.ofList result.errors)
  return .ofNat result.code
