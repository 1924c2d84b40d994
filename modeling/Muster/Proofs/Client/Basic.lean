import Muster.Client.Shutdown
import Muster.Proofs.Table

/-! What the operations on a client's state change, and what they leave alone. -/
namespace Muster

namespace Link

@[simp] theorem flush_pending (l : Link) : l.flush.2.pending = l.pending := by
  unfold flush
  dsimp only
  split
  · rfl
  · split <;> rfl

@[simp] theorem cancel_pending (l : Link) (seq : Int32) :
    (l.cancel seq).pending = l.pending.erase seq := rfl

theorem send_pending {l : Link} {p : Packet} (h : (l.send p).1 = .ok ()) :
    (l.send p).2.pending = (l.enqueue p).pending := by
  have flushed := flush_pending (l.enqueue p)
  unfold send at h ⊢
  split
  · rename_i fits
    rw [if_pos fits] at h
    split
    · rename_i run
      rw [run] at flushed
      exact flushed
    · rename_i run
      rw [run] at h
      exact nomatch h
  · rename_i large
    rw [if_neg large] at h
    exact nomatch h

theorem unsent_pending {l : Link} {p : Packet} {e : IoError} (h : (l.send p).1 = .error e) :
    ((l.send p).2.pending = l.pending) ∨
      (l.send p).2.pending = (l.enqueue p).pending.erase p.seq := by
  have flushed := flush_pending (l.enqueue p)
  unfold send at h ⊢
  split
  · right
    rename_i fits
    rw [if_pos fits] at h
    split
    · rename_i run
      rw [run] at h
      exact nomatch h
    · rename_i run
      rw [run] at flushed
      rw [cancel_pending]
      exact congrArg (·.erase p.seq) flushed
  · exact .inl rfl

end Link

/-- A packet that is passed on is a response to an outstanding request, or no response. -/
theorem Pending.pass_cases {pending pending' : Pending} {p : Packet} {delivery : Option Delivery}
    (run : pending.pass p = (delivery, pending')) :
    (∀ (seq : Int32) (m : Message), pending'[seq]? = some m → pending[seq]? = some m) ∧
      ∀ d, delivery = some d → d.packet = p ∧
        (p.message.role = .response ∧ (∃ request, pending[p.seq]? = some request ∧
            d.request = some request) ∨
          p.message.role ≠ .response ∧ d.request = none) := by
  unfold pass at run
  split at run
  · rename_i response
    split at run
    · rename_i request found
      obtain ⟨rfl, rfl⟩ := Prod.mk.inj run
      constructor
      · intro seq m kept
        rw [Table.getElem?_erase] at kept
        split at kept
        · exact nomatch kept
        · exact kept
      · intro d eq
        obtain rfl := Option.some.inj eq
        exact ⟨rfl, .inl ⟨response, request, found, rfl⟩⟩
    · obtain ⟨rfl, rfl⟩ := Prod.mk.inj run
      refine ⟨fun _ _ kept => kept, ?_⟩
      intro d eq
      contradiction
  · rename_i other
    obtain ⟨rfl, rfl⟩ := Prod.mk.inj run
    refine ⟨fun _ _ kept => kept, ?_⟩
    intro d eq
    obtain rfl := Option.some.inj eq
    exact ⟨rfl, .inr ⟨other, rfl⟩⟩

theorem Pending.pass_none {pending pending' : Pending} {p : Packet}
    (run : pending.pass p = (none, pending')) :
    p.message.role = .response ∧ pending[p.seq]? = none := by
  unfold pass at run
  split at run
  · rename_i response
    split at run
    · exact nomatch run
    · rename_i unknown
      exact ⟨response, unknown⟩
  · exact nomatch run

namespace Client

/-- The requests that wait for their responses. Without a connection there are none. -/
def pending (c : Client) : Pending := (c.link.map Link.pending).getD ∅

variable (c : Client) (h k : Handle) (f : Membership → Membership)

@[simp] theorem update_records : (c.update h f).records[k]? =
    if h = k then c.records[k]?.map f else c.records[k]? := by
  show (c.records.modify h f)[k]? = _
  rw [Std.ExtTreeMap.getElem?_modify]
  by_cases hk : h = k
  · subst hk
    simp
  · simp [hk]

@[simp] theorem update_groups : (c.update h f).groups = c.groups := rfl

@[simp] theorem update_link : (c.update h f).link = c.link := rfl

@[simp] theorem update_id : (c.update h f).id = c.id := rfl

@[simp] theorem update_standing : (c.update h f).standing = c.standing := rfl

@[simp] theorem addGroup_records (id : NodeId) (token : Token) :
    (c.addGroup id token).2.records[k]? =
      if c.records.size = k then some (.create id token) else c.records[k]? :=
  Table.getElem?_insert _ _ _ _

@[simp] theorem addGroup_groups (id name : NodeId) (token : Token) :
    (c.addGroup id token).2.groups[name]? =
      if id = name then some c.records.size else c.groups[name]? :=
  Table.getElem?_insert _ _ _ _

@[simp] theorem cancel_records (seq : Int32) : (c.cancel seq).records = c.records := rfl

@[simp] theorem cancel_groups (seq : Int32) : (c.cancel seq).groups = c.groups := rfl

@[simp] theorem cancel_id (seq : Int32) : (c.cancel seq).id = c.id := rfl

@[simp] theorem cancel_standing (seq : Int32) : (c.cancel seq).standing = c.standing := rfl

@[simp] theorem cancel_pending (seq : Int32) :
    (c.cancel seq).pending = c.pending.erase seq := by
  unfold pending cancel
  cases c.link with
  | none =>
    apply Std.ExtTreeMap.ext_getElem?
    intro k
    simp
  | some link => rfl

@[simp] theorem draft_records (body : Body) : (c.draft body).2.records = c.records := rfl

@[simp] theorem draft_groups (body : Body) : (c.draft body).2.groups = c.groups := rfl

@[simp] theorem draft_link (body : Body) : (c.draft body).2.link = c.link := rfl

@[simp] theorem draft_id (body : Body) : (c.draft body).2.id = c.id := rfl

@[simp] theorem draft_standing (body : Body) : (c.draft body).2.standing = c.standing := rfl

@[simp] theorem draft_message (body : Body) : (c.draft body).1.message = ⟨c.token, body⟩ := rfl

@[simp] theorem send_records (p : Packet) : (c.send p).2.records = c.records := by
  unfold send
  cases c.link <;> rfl

@[simp] theorem send_groups (p : Packet) : (c.send p).2.groups = c.groups := by
  unfold send
  cases c.link <;> rfl

@[simp] theorem send_id (p : Packet) : (c.send p).2.id = c.id := by
  unfold send
  cases c.link <;> rfl

@[simp] theorem send_config (p : Packet) : (c.send p).2.config = c.config := by
  unfold send
  cases c.link <;> rfl

@[simp] theorem send_standing (p : Packet) : (c.send p).2.standing = c.standing := by
  unfold send
  cases c.link <;> rfl

theorem send_link_none {p : Packet} (closed : c.link = none) : (c.send p).2.link = none := by
  unfold send
  rw [closed]
  exact closed

@[simp] theorem forget_records : (c.forget h).records = c.records := by
  unfold forget
  split
  · split <;> rfl
  · rfl

@[simp] theorem forget_link : (c.forget h).link = c.link := by
  unfold forget
  split
  · split <;> rfl
  · rfl

@[simp] theorem forget_id : (c.forget h).id = c.id := by
  unfold forget
  split
  · split <;> rfl
  · rfl

@[simp] theorem forget_standing : (c.forget h).standing = c.standing := by
  unfold forget
  split
  · split <;> rfl
  · rfl

theorem pending_of_link {c c' : Client} (h : c'.link = c.link) : c'.pending = c.pending := by
  unfold pending
  rw [h]

variable {c}

theorem send_pending {p : Packet} (sent : (c.send p).1 = .ok ())
    (request : p.message.role = .request) :
    c.link.isSome ∧ (c.send p).2.pending = c.pending.insert p.seq p.message := by
  unfold send pending at *
  cases hl : c.link with
  | none =>
    rw [hl] at sent
    exact nomatch sent
  | some link =>
    rw [hl] at sent
    have ok : (link.send p).1 = .ok () := by
      cases hr : (link.send p).1 with
      | ok u => rfl
      | error e =>
        simp only [hr] at sent
        exact nomatch sent
    refine ⟨rfl, ?_⟩
    show (link.send p).2.pending = link.pending.insert p.seq p.message
    rw [Link.send_pending ok]
    exact if_pos request

theorem unsent_pending {p : Packet} {e : SendError} (failed : (c.send p).1 = .error e)
    {seq : Int32} {m : Message} (h : (c.send p).2.pending[seq]? = some m) :
    c.pending[seq]? = some m := by
  unfold send pending at *
  cases hl : c.link with
  | none =>
    simp only [hl] at h
    exact h
  | some link =>
    rw [hl] at failed h
    have kept : (link.send p).2.pending[seq]? = some m := h
    cases hr : (link.send p).1 with
    | ok u =>
      simp only [hr] at failed
      exact nomatch failed
    | error e =>
      rcases Link.unsent_pending hr with same | erased
      · rw [same] at kept
        exact kept
      · rw [erased, Table.getElem?_erase] at kept
        split at kept
        · exact nomatch kept
        · rename_i ne
          show link.pending[seq]? = some m
          unfold Link.enqueue at kept
          dsimp only at kept
          split at kept
          · rw [Table.getElem?_insert, if_neg ne] at kept
            exact kept
          · exact kept

end Client
end Muster
