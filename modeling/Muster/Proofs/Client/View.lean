import Muster.Proofs.Client.Record
import Muster.Proofs.Client.Words

/-! What happens to the record that a client has of a group: what it makes of the words that it
takes in, and what its calls leave alone. -/
namespace Muster

def Body.tidings? : Body → Option (NodeId × Tidings)
  | .membershipNotice ref ids code => some (ref.id, .members ref.token ids code)
  | .progressNotice ref _ point code => some (ref.id, .progress point code)
  | .joinResponse ref code => some (ref.id, .joinAnswer code)
  | .leaveResponse ref _ => some (ref.id, .leaveAnswer)
  | .syncResponse ref _ terms code => some (ref.id, .syncAnswer terms.point code)
  | _ => none

/-- What a body tells of a group it tells of the one that it names, and members are announced by
the token that it names. -/
theorem Body.group?_of_tidings {body : Body} {id : NodeId} {t : Tidings}
    (told : body.tidings? = some (id, t)) :
    ∃ ref, body.group? = some ref ∧ ref.id = id ∧ ∀ token ∈ t.token?, token = ref.token := by
  cases body with
  | membershipNotice ref ids code =>
    obtain ⟨rfl, rfl⟩ := Prod.mk.inj (Option.some.inj told)
    exact ⟨ref, rfl, rfl, fun token named => (Option.some.inj named).symm⟩
  | progressNotice ref | joinResponse ref | leaveResponse ref | syncResponse ref =>
    obtain ⟨rfl, rfl⟩ := Prod.mk.inj (Option.some.inj told)
    exact ⟨ref, rfl, rfl, nofun⟩
  | registerRequest | registerResponse | joinRequest | leaveRequest | syncRequest =>
    exact nomatch told

/-- Whether a word is the answer to a request that took the client out of this group. -/
def Word.Ends (w : Word) (ref : GroupRef) : Prop := w.parts = true ∧ w.body.group? = some ref

instance (w : Word) (ref : GroupRef) : Decidable (w.Ends ref) :=
  inferInstanceAs (Decidable (_ ∧ _))

namespace Word
variable {w : Word} {ref : GroupRef} {own : NodeId} {v : Roster}

theorem turns_of_untold (untold : ∀ t, w.body.tidings? ≠ some (ref.id, t)) :
    w.Turns own ref v v := by
  obtain ⟨body, parts⟩ := w
  have other {about : GroupRef} {t : Tidings} (tidings : body.tidings? = some (about.id, t)) :
      about ≠ ref := by
    rintro rfl
    exact untold t tidings
  cases body with
  | membershipNotice about ids code => exact (if_neg (other rfl)).symm
  | joinResponse about code => exact .inl rfl
  | leaveResponse about code => exact .inl ⟨rfl, fun eq => absurd eq (other rfl)⟩
  | registerRequest | registerResponse | joinRequest | leaveRequest | syncRequest | syncResponse
  | progressNotice => exact rfl

/-- What a record makes of a word about its group. It takes in only the answer that it awaits,
which has to be about the group by the token that the record has of it, and members that are
announced by that token. -/
theorem turns_of_heed {m : Membership} {seq : Int32} {t : Tidings}
    (told : w.body.tidings? = some (m.id, t))
    (named : ∀ token ∈ t.token?, token = m.token)
    (sought : t.reply?.isSome → m.exchange = .awaiting seq → w.body.group? = some m.ref)
    (awaited : w.Ends m.ref → m.exchange = .awaiting seq) :
    w.Turns own m.ref m.members (m.heed own seq t).members := by
  obtain ⟨body, parts⟩ := w
  cases body with
  | membershipNotice about ids code =>
    obtain ⟨name, rfl⟩ := Prod.mk.inj (Option.some.inj told)
    have eq : about = m.ref := by
      show about = ⟨m.id, m.token⟩
      rw [← name, ← named about.token rfl]
    show (m.membersChanged own ids code).members = _
    rw [if_pos eq]
    unfold Membership.membersChanged
    split <;> rfl
  | joinResponse about code =>
    obtain ⟨name, rfl⟩ := Prod.mk.inj (Option.some.inj told)
    by_cases awaits : m.exchange = .awaiting seq
    · have eq := Option.some.inj (sought rfl awaits)
      have heard : m.heed own seq (.joinAnswer code) = _ := if_pos awaits
      rw [heard]
      by_cases accepted : code = .accepted
      · exact .inr ⟨eq, accepted, if_pos accepted⟩
      · exact .inl (if_neg accepted)
    · exact .inl (congrArg Membership.members (if_neg awaits))
  | leaveResponse about code =>
    obtain ⟨name, rfl⟩ := Prod.mk.inj (Option.some.inj told)
    by_cases awaits : m.exchange = .awaiting seq
    · have eq := Option.some.inj (sought rfl awaits)
      exact .inr ⟨eq, congrArg Membership.members (if_pos awaits)⟩
    · refine .inl ⟨congrArg Membership.members (if_neg awaits), fun eq => ?_⟩
      by_contra stays
      exact awaits (awaited ⟨Bool.of_not_eq_false stays, congrArg some eq⟩)
  | progressNotice | syncResponse =>
    obtain ⟨-, rfl⟩ := Prod.mk.inj (Option.some.inj told)
    exact rfl
  | registerRequest | registerResponse | joinRequest | leaveRequest | syncRequest =>
    exact nomatch told

end Word

def Client.Listed (c : Client) : Prop := ∀ (id : NodeId) (h : Handle), c.groups[id]? = some h →
  ∃ m, c.records[h]? = some m ∧ m.id = id

namespace Client
variable {c : Client} {id : NodeId} {m m' : Membership}

theorem group?_eq_some_iff : c.group? id = some m ↔
    ∃ h : Handle, c.groups[id]? = some h ∧ c.records[h]? = some m :=
  Option.bind_eq_some_iff

theorem addGroup_group? {name : NodeId} (unknown : c.groups[name]? = none) (token : Token)
    (numbered : ∀ (k : NodeId) (h : Handle), c.groups[k]? = some h → h < c.records.size)
    (known' : (c.addGroup name token).2.group? id = some m') (known : c.group? id = some m) :
    m' = m := by
  obtain ⟨h, group, record⟩ := group?_eq_some_iff.mp known
  have ne : name ≠ id := by
    rintro rfl
    exact nomatch unknown.symm.trans group
  have same : (c.addGroup name token).2.group? id = some m := by
    apply group?_eq_some_iff.mpr
    refine ⟨h, (c.addGroup_groups ..).trans ((if_neg ne).trans group), ?_⟩
    refine (c.addGroup_records ..).trans ((if_neg ?_).trans record)
    exact (Nat.ne_of_lt (numbered id h group)).symm
  exact Option.some.inj (known'.symm.trans same)

end Client

theorem Call.CallStep.group? {c c' : Client} {h : Handle} {m m₁ : Membership}
    {s s' : CallStage} {id : NodeId} (step : CallStep c h m s c' s')
    (record : c.records[h]? = some m) (known : c'.group? id = some m₁) :
    ∃ m₀, c.group? id = some m₀ ∧ m₁.members = m₀.members := by
  obtain ⟨k, group, record₁⟩ := Client.group?_eq_some_iff.mp known
  have group := step.known group
  by_cases eq : k = h
  · subst eq
    obtain ⟨m', record', move⟩ := step.moved record
    obtain rfl := Option.some.inj (record'.symm.trans record₁)
    exact ⟨m, Client.group?_eq_some_iff.mpr ⟨k, group, record⟩, move.members⟩
  · rw [step.frame eq] at record₁
    exact ⟨m₁, Client.group?_eq_some_iff.mpr ⟨k, group, record₁⟩, rfl⟩

end Muster
