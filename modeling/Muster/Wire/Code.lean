/-! The result codes of answers and notices. Each family of codes is numbered without gaps
or repetitions, so a number on the wire names at most one code of its family. -/
namespace Muster

/-- A family of result codes with the number and the name of each of its members. -/
class Code (α : Type) where
  all : List α
  number : α → Int32
  name : α → String
  mem_all : ∀ c, c ∈ all
  number_injective : ∀ a b, number a = number b → a = b

namespace Code
variable {α : Type} [Code α]

def ofNumber? (n : Int32) : Option α := (all : List α).find? fun c => number c == n

def ofName? (s : String) : Option α := (all : List α).find? fun c => name c == s

theorem ofNumber?_eq_some_iff {n : Int32} {c : α} : ofNumber? n = some c ↔ number c = n := by
  constructor
  · intro h
    simpa using List.find?_some h
  · rintro rfl
    cases h : (ofNumber? (number c) : Option α) with
    | none =>
      have := List.find?_eq_none.mp h c (mem_all c)
      simp at this
    | some d =>
      have := List.find?_some h
      rw [number_injective d c (by simpa using this)]

@[simp] theorem ofNumber?_number (c : α) : ofNumber? (number c) = some c :=
  ofNumber?_eq_some_iff.mpr rfl

end Code

inductive RegisterCode where
  | accepted | serverFull | authenticationFailure
deriving DecidableEq

instance : Code RegisterCode where
  all := [.accepted, .serverFull, .authenticationFailure]
  number
    | .accepted => 0
    | .serverFull => 1
    | .authenticationFailure => 2
  name
    | .accepted => "Accepted"
    | .serverFull => "ServerFull"
    | .authenticationFailure => "AuthenticationFailure"
  mem_all c := by cases c <;> decide
  number_injective a b := by cases a <;> cases b <;> decide

inductive JoinCode where
  | accepted | groupFull | authenticationFailure
deriving DecidableEq

instance : Code JoinCode where
  all := [.accepted, .groupFull, .authenticationFailure]
  number
    | .accepted => 0
    | .groupFull => 1
    | .authenticationFailure => 2
  name
    | .accepted => "Accepted"
    | .groupFull => "GroupFull"
    | .authenticationFailure => "AuthenticationFailure"
  mem_all c := by cases c <;> decide
  number_injective a b := by cases a <;> cases b <;> decide

inductive LeaveCode where
  | accepted
deriving DecidableEq

instance : Code LeaveCode where
  all := [.accepted]
  number _ := 0
  name _ := "Accepted"
  mem_all c := by cases c; decide
  number_injective a b _ := by cases a; cases b; rfl

/-- What changed the members of a group. -/
inductive MembershipCode where
  | join | leave | close
deriving DecidableEq

instance : Code MembershipCode where
  all := [.join, .leave, .close]
  number
    | .join => 0
    | .leave => 1
    | .close => 2
  name
    | .join => "Join"
    | .leave => "Leave"
    | .close => "Close"
  mem_all c := by cases c <;> decide
  number_injective a b := by cases a <;> cases b <;> decide

inductive SyncCode where
  | created | joined | expired | authenticationFailure
deriving DecidableEq

instance : Code SyncCode where
  all := [.created, .joined, .expired, .authenticationFailure]
  number
    | .created => 0
    | .joined => 1
    | .expired => 2
    | .authenticationFailure => 3
  name
    | .created => "Created"
    | .joined => "Joined"
    | .expired => "Expired"
    | .authenticationFailure => "AuthenticationFailure"
  mem_all c := by cases c <;> decide
  number_injective a b := by cases a <;> cases b <;> decide

/-- What happened at a sync point. -/
inductive ProgressCode where
  | success | join | leave | timeout | close
deriving DecidableEq

instance : Code ProgressCode where
  all := [.success, .join, .leave, .timeout, .close]
  number
    | .success => 0
    | .join => 1
    | .leave => 2
    | .timeout => 3
    | .close => 4
  name
    | .success => "Success"
    | .join => "Join"
    | .leave => "Leave"
    | .timeout => "Timeout"
    | .close => "Close"
  mem_all c := by cases c <;> decide
  number_injective a b := by cases a <;> cases b <;> decide

/-- The codes after which nothing more is said about a sync point. -/
def ProgressCode.isFinal : ProgressCode → Bool
  | .success | .timeout | .close => true
  | .join | .leave => false

end Muster
