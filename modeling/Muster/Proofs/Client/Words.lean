import Muster.Client.Membership

/-! What a client comes to believe of the members of a group by what the server says. Notices
are always taken in. An answer is taken in by the call that waits for it, if there still is
one, so the same words may lead to different beliefs. -/
namespace Muster

/-- The members of a group as one of them knows them. -/
abbrev Roster := Option (Std.ExtTreeSet NodeId)

/-- What the server says, and whether it is the answer to a request that has taken the client
out of the group. -/
structure Word where
  body : Body
  parts : Bool
deriving DecidableEq

/-- What a client may make of a word about the group that it knows by this name and token. The
end of a membership that it has asked for is not to be missed. -/
def Word.Turns (own : NodeId) (ref : GroupRef) (w : Word) (v v' : Roster) : Prop :=
  match w.body with
  | .membershipNotice about ids code =>
    v' = if about = ref then if code ≠ .close ∧ own ∈ ids then some (.ofList ids) else none else v
  | .joinResponse about code =>
    v' = v ∨ about = ref ∧ code = .accepted ∧ v' = some ((v.getD ∅).insert own)
  | .leaveResponse about _ => v' = v ∧ (about = ref → w.parts = false) ∨ about = ref ∧ v' = none
  | _ => v' = v

def Leads (own : NodeId) (ref : GroupRef) : List Word → Roster → Roster → Prop
  | [], v, v' => v' = v
  | w :: ws, v, v' => ∃ u, w.Turns own ref v u ∧ Leads own ref ws u v'

/-- Whatever the client takes in, it comes to believe what is so. -/
def Settles (own : NodeId) (ref : GroupRef) (ws : List Word) (v w : Roster) : Prop :=
  ∀ u, Leads own ref ws v u → u = w

/-- The words tell how things are, whatever was believed before. -/
def Tells (own : NodeId) (ref : GroupRef) (ws : List Word) (w : Roster) : Prop :=
  ∀ v, Settles own ref ws v w

/-- The words change no belief. -/
def Silent (own : NodeId) (ref : GroupRef) (ws : List Word) : Prop :=
  ∀ v, Settles own ref ws v v

section
variable {own : NodeId} {ref : GroupRef} {w : Word} {ws ws' : List Word} {u v v' r r' : Roster}

theorem Word.turns_of_other (other : w.body.group? ≠ some ref) (turns : w.Turns own ref v v') :
    v' = v := by
  obtain ⟨body, parts⟩ := w
  cases body with
  | membershipNotice about ids code =>
    have ne : about ≠ ref := fun eq => other (congrArg some eq)
    simpa only [Turns, if_neg ne] using turns
  | joinResponse about code =>
    obtain same | ⟨eq, -⟩ := turns
    · exact same
    · exact absurd (congrArg some eq) other
  | leaveResponse about code =>
    obtain ⟨same, -⟩ | ⟨eq, -⟩ := turns
    · exact same
    · exact absurd (congrArg some eq) other
  | registerRequest | registerResponse | joinRequest | leaveRequest | syncRequest | syncResponse
  | progressNotice => exact turns

theorem Word.turns_of_aside (other : w.body.group? ≠ some ref) : w.Turns own ref v v := by
  obtain ⟨body, parts⟩ := w
  cases body with
  | membershipNotice about ids code =>
    have ne : about ≠ ref := fun eq => other (congrArg some eq)
    exact (if_neg ne).symm
  | joinResponse about code => exact .inl rfl
  | leaveResponse about code => exact .inl ⟨rfl, fun eq => absurd (congrArg some eq) other⟩
  | registerRequest | registerResponse | joinRequest | leaveRequest | syncRequest | syncResponse
  | progressNotice => exact rfl

theorem Word.turns_self (response : w.body.kind.role = .response)
    (stays : w.body.group? = some ref → w.parts = false) : w.Turns own ref v v := by
  obtain ⟨body, parts⟩ := w
  cases body with
  | membershipNotice about ids code => exact nomatch response
  | joinResponse about code => exact .inl rfl
  | leaveResponse about code => exact .inl ⟨rfl, fun eq => stays (congrArg some eq)⟩
  | registerRequest | registerResponse | joinRequest | leaveRequest | syncRequest | syncResponse
  | progressNotice => exact rfl

theorem leads_append : Leads own ref (ws ++ ws') v v' ↔
    ∃ u, Leads own ref ws v u ∧ Leads own ref ws' u v' := by
  induction ws generalizing v with
  | nil =>
    constructor
    · intro leads
      exact ⟨v, rfl, leads⟩
    · rintro ⟨u, rfl, leads⟩
      exact leads
  | cons w ws ih =>
    constructor
    · rintro ⟨u, turns, leads⟩
      obtain ⟨u', leads, rest⟩ := ih.mp leads
      exact ⟨u', ⟨u, turns, leads⟩, rest⟩
    · rintro ⟨u', ⟨u, turns, leads⟩, rest⟩
      exact ⟨u, turns, ih.mpr ⟨u', leads, rest⟩⟩

theorem Settles.nil (h : Settles own ref [] v r) : v = r := h v rfl

theorem Settles.tail (h : Settles own ref (w :: ws) v r) (turns : w.Turns own ref v u) :
    Settles own ref ws u r := fun v' leads => h v' ⟨u, turns, leads⟩

theorem Settles.append (h : Settles own ref ws v r) (h' : Settles own ref ws' r r') :
    Settles own ref (ws ++ ws') v r' := by
  intro v' leads
  obtain ⟨u, leads, rest⟩ := leads_append.mp leads
  obtain rfl := h u leads
  exact h' v' rest

theorem Settles.drop (h : Settles own ref (ws ++ w :: ws') v r)
    (turns : ∀ u, w.Turns own ref u u) : Settles own ref (ws ++ ws') v r := by
  intro v' leads
  obtain ⟨u, leads, rest⟩ := leads_append.mp leads
  exact h v' (leads_append.mpr ⟨u, leads, u, turns u, rest⟩)

theorem Tells.append (h : Tells own ref ws' r) (ws : List Word) :
    Tells own ref (ws ++ ws') r := by
  intro v v' leads
  obtain ⟨u, -, rest⟩ := leads_append.mp leads
  exact h u v' rest

theorem Silent.nil : Silent own ref [] := fun _ _ same => same

theorem Silent.append (h : Silent own ref ws) (h' : Silent own ref ws') :
    Silent own ref (ws ++ ws') := fun v => (h v).append (h' v)

theorem Silent.of_forall (h : ∀ w ∈ ws, ∀ v v', w.Turns own ref v v' → v' = v) :
    Silent own ref ws := by
  induction ws with
  | nil => exact .nil
  | cons w ws ih =>
    intro v v' ⟨u, turns, leads⟩
    obtain rfl := h w List.mem_cons_self v u turns
    exact ih (fun w' mem => h w' (List.mem_cons_of_mem w mem)) u v' leads

theorem Tells.of_forall (h : ∀ w ∈ ws, ∀ v v', w.Turns own ref v v' → v' = r) (ne : ws ≠ []) :
    Tells own ref ws r := by
  induction ws with
  | nil => exact absurd rfl ne
  | cons w ws ih =>
    intro v v' ⟨u, turns, leads⟩
    obtain rfl := h w List.mem_cons_self v u turns
    cases ws with
    | nil => exact leads
    | cons w' ws =>
      exact ih (fun w mem => h w (List.mem_cons_of_mem _ mem)) nofun u v' leads

end
end Muster
