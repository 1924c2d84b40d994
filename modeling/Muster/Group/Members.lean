import Muster.Identity.NodeId

/-! Members of a group or arrivals at a sync point: connections, each with the name of its
client. -/
namespace Muster

/-- Connections to the server are numbered. -/
abbrev ConnId := Nat

abbrev Members := Std.ExtTreeMap ConnId NodeId

namespace Members

def connections (m : Members) : List ConnId := m.keys

def ids (m : Members) : List NodeId := NodeId.sort m.values

end Members
end Muster
