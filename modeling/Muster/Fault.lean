/-! What can go wrong. Every cause has a name that programs can tell apart, and a message for
people. -/
namespace Muster

class Fault (ε : Type) where
  name : ε → String
  message : ε → String

end Muster
