/-
The configuration of a server.

Everything has a usual value, which a variable can replace. Variables are looked at in a
fixed order, and the first one that cannot be read is the one complained about; only
then are values looked at that can be read and make no sense.
-/
import BarArchive.Server.Address
import BarArchive.Server.EnvFile
import BarArchive.Text.Blank

namespace BarArchive

/-- What a server needs to know. -/
structure Config where
  listen : SocketAddress := .v4 [127, 0, 0, 1] 5557
  maxFrameBytes : UInt64 := 64 * 1024 * 1024
  reconnectSeconds : UInt64 := 30
  logFormat : String := "text"
deriving DecidableEq

/-- Why there is no configuration. -/
inductive ConfigError where
  | unreadable (name raw : String)
  | zero (name : String)
  | unsettable
deriving DecidableEq

/-- The text of a complaint. -/
def ConfigError.message (e : ConfigError) : String :=
  "Configuration error: " ++ match e with
    | unreadable name raw => "Invalid " ++ name ++ ": " ++ raw
    | zero name => name ++ " must be positive"
    | unsettable => "A variable cannot be set"

namespace Config

/-- The number of 64 bits that a text writes; blanks around it and a plus sign are allowed. -/
def number? (s : String) : Option UInt64 :=
  let digits := match Blank.trim s.toList with
    | '+' :: rest => rest
    | cs => cs
  ((Digits.nat? digits).filter fun n => n < 2 ^ 64).map Nat.toUInt64

/-- The value of a variable, or the usual one. -/
def setting {α : Type} (env : Environment) (name : String) (read? : String → Option α) (usual : α) :
    Except ConfigError α :=
  match env.find? name with
  | none => .ok usual
  | some raw =>
    match read? raw with
    | some a => .ok a
    | none => .error (.unreadable name raw)

/-- Complains about a variable that is zero. -/
def positive (name : String) (n : UInt64) : Except ConfigError Unit :=
  if n = 0 then .error (.zero name) else .ok ()

/-- The configuration that variables describe, or a complaint. -/
def ofEnvironment (env : Environment) : Except ConfigError Config := do
  let usual : Config := {}
  let listen ← setting env "HDS_LISTEN_ADDR" SocketAddress.ofText? usual.listen
  let maxFrameBytes ← setting env "HDS_MAX_FRAME_BYTES" number? usual.maxFrameBytes
  let reconnectSeconds ← setting env "HDS_RECONNECT_SECS" number? usual.reconnectSeconds
  let logFormat ← setting env "HDS_LOG_FORMAT" some usual.logFormat
  positive "HDS_MAX_FRAME_BYTES" maxFrameBytes
  positive "HDS_RECONNECT_SECS" reconnectSeconds
  return { listen, maxFrameBytes, reconnectSeconds, logFormat }

/-- The configuration that variables and a file describe, or a complaint. -/
def load (env : Environment) (file : Option String) : Except ConfigError Config := do
  if !env.entries.all fun entry => EnvFile.settable entry.2 then throw .unsettable
  match file.elim (some env) (EnvFile.load? env) with
  | none => throw .unsettable
  | some env => ofEnvironment env

end Config

end BarArchive
