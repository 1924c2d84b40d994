/-! The ten kinds of messages. They are numbered from one. -/
namespace Muster

inductive Kind where
  | registerRequest | registerResponse | joinRequest | joinResponse | membershipNotice
  | leaveRequest | leaveResponse | syncRequest | syncResponse | progressNotice
deriving DecidableEq

namespace Kind

/-- A response answers one request; a notice answers none. -/
inductive Role where
  | request | response | notice
deriving DecidableEq

def Role.name : Role → String
  | request => "Request"
  | response => "Response"
  | notice => "Notification"

def role : Kind → Role
  | registerRequest | joinRequest | leaveRequest | syncRequest => .request
  | registerResponse | joinResponse | leaveResponse | syncResponse => .response
  | membershipNotice | progressNotice => .notice

/-- The kind of request that a response of this kind answers. -/
def answers? : Kind → Option Kind
  | registerResponse => some registerRequest
  | joinResponse => some joinRequest
  | leaveResponse => some leaveRequest
  | syncResponse => some syncRequest
  | _ => none

def all : List Kind :=
  [registerRequest, registerResponse, joinRequest, joinResponse, membershipNotice,
    leaveRequest, leaveResponse, syncRequest, syncResponse, progressNotice]

def number : Kind → Int32
  | registerRequest => 1
  | registerResponse => 2
  | joinRequest => 3
  | joinResponse => 4
  | membershipNotice => 5
  | leaveRequest => 6
  | leaveResponse => 7
  | syncRequest => 8
  | syncResponse => 9
  | progressNotice => 10

def ofNumber? (n : Int32) : Option Kind := all.find? fun k => k.number == n

theorem mem_all (k : Kind) : k ∈ all := by cases k <;> decide

theorem number_injective {a b : Kind} (h : a.number = b.number) : a = b := by
  revert h
  cases a <;> cases b <;> decide

@[simp] theorem ofNumber?_number (k : Kind) : ofNumber? k.number = some k := by
  cases k <;> decide

theorem ofNumber?_eq_some_iff {n : Int32} {k : Kind} : ofNumber? n = some k ↔ k.number = n := by
  constructor
  · intro h
    simpa using List.find?_some h
  · rintro rfl
    exact ofNumber?_number k

end Kind
end Muster
