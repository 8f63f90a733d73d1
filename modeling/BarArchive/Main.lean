/-
The command line: a server with one connection, over standard input and output.

The configuration comes from the environment. No sources are known, so what can be asked
for is what was pushed before.
-/
import BarArchive.Server.Config
import BarArchive.Server.State
import Std.Time.DateTime.Timestamp

namespace BarArchive.Main

/-- The variables that matter, as far as they are set. -/
def environment : IO Environment := do
  let names := ["HDS_LISTEN_ADDR", "HDS_MAX_FRAME_BYTES", "HDS_RECONNECT_SECS", "HDS_LOG_FORMAT"]
  let set ← names.filterMapM fun name => do
    return (← IO.getEnv name).map fun value => (name, value)
  return ⟨set⟩

/-- The present instant. -/
def present : IO Instant := do
  return (← Std.Time.Timestamp.now).toNanosecondsSinceUnixEpoch.val

/-- How many bytes are read at once. -/
def chunkSize : USize := 65536

/-- Reads, answers and writes until the input ends or the connection does. -/
partial def talk (input output : IO.FS.Stream) (i : Identity) (s : Server) : IO Unit := do
  let chunk ← input.read chunkSize
  if chunk.isEmpty then return
  let (s, errands) := s.receive (← present) i chunk.data.toList
  let (s, bs) := (errands.foldl Server.complete s).transmit i
  output.write ⟨bs.toArray⟩
  output.flush
  if s.isOpen i then talk input output i s

/-- Reads the configuration and serves the connection; tells whether the configuration could be read. -/
def serve : IO UInt32 := do
  match Config.load (← environment) none with
  | .error cause =>
    IO.eprintln ("Error: " ++ cause.message)
    return 1
  | .ok config =>
    let (s, i) := Server.accept
      { router := { encoder := .plain, limit := config.maxFrameBytes.toNat } }
    talk (← IO.getStdin) (← IO.getStdout) i s
    return 0

end BarArchive.Main

/-- The program. -/
def main : IO UInt32 := BarArchive.Main.serve
