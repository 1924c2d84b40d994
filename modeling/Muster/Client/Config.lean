import Muster.Config
import Muster.Link.Stream

/-! The settings of a client, and why a client does not start. -/
namespace Muster

structure ClientConfig where
  connectTimeout : Nat
  selectTimeout : Nat
  registerTimeout : Nat
  groupMessageTimeout : Nat
  /-- What a client waits at a sync point beyond the time it asked for. -/
  syncExtraLatency : Nat
deriving DecidableEq

namespace ClientConfig

def standard : ClientConfig where
  connectTimeout := Duration.ofSeconds 1
  selectTimeout := Duration.ofMillis 100
  registerTimeout := Duration.ofSeconds 2
  groupMessageTimeout := Duration.ofSeconds 2
  syncExtraLatency := Duration.ofMillis 500

/-- Names the first setting that cannot be used. -/
def validate (c : ClientConfig) : Except ConfigError Unit :=
  ConfigError.requirePositive [
    ("Connect timeout", c.connectTimeout),
    ("Select timeout", c.selectTimeout),
    ("Register timeout", c.registerTimeout),
    ("Group message timeout", c.groupMessageTimeout)]

end ClientConfig

inductive StartClientError where
  | config (e : ConfigError)
  | connect (e : IoError)
  | spawn (e : IoError)
  | serverFull
  | idInUse
  | connectionLost
  | timeout
deriving DecidableEq

def StartClientError.message : StartClientError → String
  | config e => s!"Configuration error: {e.message}"
  | connect e => s!"Failed to connect: {e.message}"
  | spawn e => s!"Failed to spawn network thread: {e.message}"
  | serverFull => "Server is full"
  | idInUse => "Client id is already in use"
  | connectionLost => "Connection lost during registration"
  | timeout => "Registration timed out"

def StartClientError.name : StartClientError → String
  | config _ => "ConfigError"
  | connect _ => "Connect"
  | spawn _ => "Spawn"
  | serverFull => "ServerFull"
  | idInUse => "IdInUse"
  | connectionLost => "ConnectionLost"
  | timeout => "Timeout"

instance : Fault StartClientError := ⟨StartClientError.name, StartClientError.message⟩

end Muster
