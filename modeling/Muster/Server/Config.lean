import Muster.Config
import Muster.Group.Directory
import Muster.Wire.Packet

/-! The settings of a server. -/
namespace Muster

structure ServerConfig where
  bindAddress : String
  selectTimeout : Nat
  groupMaxSize : Nat
  maxClients : Nat
  groupIdleTimeout : Nat
  housekeepingInterval : Nat
  startTimeout : Nat
  stopTimeout : Nat
deriving DecidableEq

namespace ServerConfig

/-- Any free port of this machine, and limits for small groups. -/
def standard : ServerConfig where
  bindAddress := "127.0.0.1:0"
  selectTimeout := Duration.ofMillis 100
  groupMaxSize := 16
  maxClients := 64
  groupIdleTimeout := Duration.ofSeconds 60
  housekeepingInterval := Duration.ofSeconds 1
  startTimeout := Duration.ofSeconds 2
  stopTimeout := Duration.ofSeconds 2

/-- Names the first setting that cannot be used. The answers to a full group must fit into
packets, and idle groups must be looked for more often than they may idle. -/
def validate (c : ServerConfig) : Except ConfigError Unit := do
  ConfigError.requirePositive [
    ("Select timeout", c.selectTimeout),
    ("Group idle timeout", c.groupIdleTimeout),
    ("Housekeeping interval", c.housekeepingInterval),
    ("Start timeout", c.startTimeout),
    ("Stop timeout", c.stopTimeout),
    ("Group max size", c.groupMaxSize)]
  if maxGroupSize < c.groupMaxSize then throw (.groupMaxSizeTooLarge maxGroupSize)
  ConfigError.requirePositive [("Max clients", c.maxClients)]
  if c.groupIdleTimeout ≤ c.housekeepingInterval then throw .housekeepingNotBelowIdle

def policy (c : ServerConfig) : Policy := ⟨c.groupMaxSize, c.groupIdleTimeout⟩

end ServerConfig

inductive StartServerError where
  | config (e : ConfigError)
  | socketCreate (cause : String)
  | socketBind (cause : String)
  | poll (cause : String)
  | spawn (cause : String)
  | timeout
deriving DecidableEq

def StartServerError.message : StartServerError → String
  | config e => s!"Configuration error: {e.message}"
  | socketCreate cause => s!"Failed to create socket: {cause}"
  | socketBind cause => s!"Failed to bind socket: {cause}"
  | poll cause => s!"Failed to create poller: {cause}"
  | spawn cause => s!"Failed to spawn server thread: {cause}"
  | timeout => "Server thread did not start in time"

def StartServerError.name : StartServerError → String
  | config _ => "ConfigError"
  | socketCreate _ => "SocketCreateError"
  | socketBind _ => "SocketBindError"
  | poll _ => "PollError"
  | spawn _ => "SpawnError"
  | timeout => "Timeout"

instance : Fault StartServerError := ⟨StartServerError.name, StartServerError.message⟩

end Muster
