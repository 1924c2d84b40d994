import Muster.Duration
import Muster.Fault

/-! What makes a configuration unusable. -/
namespace Muster

inductive ConfigError where
  /-- A limit or a time that must not be zero. -/
  | zero (setting : String)
  | housekeepingNotBelowIdle
  | groupMaxSizeTooLarge (max : Nat)
deriving DecidableEq

namespace ConfigError

def message : ConfigError → String
  | zero setting => s!"{setting} must be greater than zero"
  | housekeepingNotBelowIdle => "Housekeeping interval must be less than the group idle timeout"
  | groupMaxSizeTooLarge max => s!"Group max size must not exceed {max}"

def name : ConfigError → String
  | zero _ => "Zero"
  | housekeepingNotBelowIdle => "HousekeepingIntervalNotBelowIdleTimeout"
  | groupMaxSizeTooLarge _ => "GroupMaxSizeTooLarge"

instance : Fault ConfigError := ⟨name, message⟩

def requirePositive : List (String × Nat) → Except ConfigError Unit
  | [] => .ok ()
  | (setting, value) :: rest =>
    if value = 0 then .error (.zero setting) else requirePositive rest

end ConfigError
end Muster
