import Muster.Proofs.Server.Outbox

/-! Which requests change a registration: only those of its own connection to be registered. -/
namespace Muster.Server
variable {s : Server} {c k : ConnId} {id : NodeId}

/-- Who is known is registered under its name, with the token under which it asks. -/
theorem registered_of_authenticate {sender : Token} {member : NodeId}
    (known : s.authenticate c sender = some member) :
    s.registrations[c]? = some ⟨member, sender⟩ := by
  unfold authenticate at known
  split at known
  · rename_i r registered
    split at known
    · rename_i token
      rw [registered, ← token, ← Option.some.inj known]
    · contradiction
  · contradiction

theorem unregister_registrations (s : Server) (k c : ConnId) :
    (s.unregister k).registrations[c]? = if k = c then none else s.registrations[c]? := by
  unfold unregister
  split
  · rename_i absent
    split
    · rename_i eq
      exact eq ▸ absent
    · rfl
  · exact Table.getElem?_erase s.registrations k c

theorem enroll_registrations (other : k ≠ c) (id : NodeId) :
    (s.enroll k id).2.registrations[c]? = s.registrations[c]? := by
  have freed : (if s.clients.contains id then s else s.unregister k).registrations[c]? =
      s.registrations[c]? := by
    split
    · rfl
    · rw [unregister_registrations, if_neg other]
  unfold enroll
  dsimp only
  split
  · exact freed
  · exact (Table.getElem?_insert ..).trans ((if_neg other).trans freed)

theorem enroll_new (new : s.registrations[c]? = none) (id : NodeId) :
    (s.enroll c id).2.registrations[c]? = some ⟨id, (s.enroll c id).1⟩ := by
  have freed : (if s.clients.contains id then s else s.unregister c).registrations[c]? = none := by
    split
    · exact new
    · rw [unregister_registrations, if_pos rfl]
  unfold enroll
  dsimp only
  rw [freed]
  exact (Table.getElem?_insert ..).trans (if_pos rfl)

theorem enroll_own {r : Registration} (own : s.clients[r.id]? = some c)
    (registered : s.registrations[c]? = some r) : s.enroll c r.id = (r.token, s) := by
  unfold enroll
  rw [if_pos (Table.contains_of_getElem? own)]
  dsimp only
  rw [registered, Table.insert_of_getElem? own]

/-- A client that takes a free name gives up the one that it has, and gets a new token. -/
theorem enroll_free (free : s.clients[id]? = none) (c : ConnId) :
    let freed := s.unregister c
    let token := freed.tokens.draw.1
    s.enroll c id = (token, { freed with
      tokens := freed.tokens.draw.2
      registrations := freed.registrations.insert c ⟨id, token⟩
      clients := freed.clients.insert id c }) := by
  have unknown : ¬s.clients.contains id = true := by
    rw [Std.ExtTreeMap.contains_eq_isSome_getElem?, free]
    exact Bool.false_ne_true
  have new : (s.unregister c).registrations[c]? = none := by
    rw [unregister_registrations, if_pos rfl]
  intro freed token
  unfold enroll
  rw [if_neg unknown]
  dsimp only
  rw [new]

/-- Only a request to be registered changes who is. -/
theorem handle_registry (s : Server) (now : Nat) (k : ConnId) (seq : Int32) {m : Message}
    (other : ∀ id, m.body ≠ .registerRequest id) :
    (s.handle now k seq m).registrations = s.registrations ∧
      (s.handle now k seq m).clients = s.clients := by
  unfold handle handleBy
  dsimp only [Id.run, bind, pure]
  split
  · rename_i id body
    exact absurd body (other id)
  · unfold join
    split
    · exact ⟨rfl, rfl⟩
    · rw [queueAll_registrations, queueAll_clients]
      exact ⟨rfl, rfl⟩
  · unfold leave
    split
    · exact ⟨rfl, rfl⟩
    · rw [queueAll_registrations, queueAll_clients]
      exact ⟨rfl, rfl⟩
  · unfold syncBy
    dsimp only [Id.run, bind, pure]
    split
    · exact ⟨rfl, rfl⟩
    · rw [queueAll_registrations, queueAll_clients]
      exact ⟨rfl, rfl⟩
  · exact ⟨rfl, rfl⟩

theorem handle_registrations (now : Nat) {m : Message} (seq : Int32)
    (other : k = c → ∀ id, m.body ≠ .registerRequest id) :
    (s.handle now k seq m).registrations[c]? = s.registrations[c]? := by
  by_cases asked : ∃ id, m.body = .registerRequest id
  · obtain ⟨id, body⟩ := asked
    have ne : k ≠ c := fun eq => other eq id body
    unfold handle handleBy
    dsimp only [Id.run, bind, pure]
    rw [body]
    dsimp only
    unfold register
    split
    · exact enroll_registrations ne id
    · rfl
  · rw [(s.handle_registry now k seq fun id body => asked ⟨id, body⟩).1]

theorem lose_registrations (s : Server) (now : Nat) (k c : ConnId) :
    (s.lose now k).registrations[c]? = if k = c then none else s.registrations[c]? := by
  unfold lose
  dsimp only
  rw [queueAll_registrations]
  exact s.unregister_registrations k c

theorem fireDue_registrations (s : Server) (now : Nat) :
    (s.fireDue now).registrations = s.registrations := by
  unfold fireDue fireDueBy
  dsimp only [Id.run, bind, pure]
  exact queueAll_registrations _ _

/-- A new client is registered or not, and told so. -/
theorem register_answer (new : s.registrations[c]? = none) {m : Message}
    (body : m.body = .registerRequest id) (now : Nat) (seq : Int32) :
    ∃ token code, (s.handle now c seq m).outbox =
        s.outbox ++ [⟨c, .ofMessage seq ⟨s.token, .registerResponse token code⟩⟩] ∧
      (s.handle now c seq m).registrations[c]? =
        if code = .accepted then some ⟨id, token⟩ else none := by
  unfold handle handleBy
  dsimp only [Id.run, bind, pure]
  rw [body]
  dsimp only
  unfold register
  split
  · obtain ⟨outbox, token, -⟩ := s.enroll_frame c id
    refine ⟨(s.enroll c id).1, .accepted, ?_, ?_⟩
    · show (s.enroll c id).2.outbox ++ [⟨c, .ofMessage seq ⟨(s.enroll c id).2.token, _⟩⟩] = _
      rw [outbox, token]
      rfl
    · rw [if_pos rfl]
      exact enroll_new new id
  · rename_i refused
    refine ⟨.null, s.registerCode c id, rfl, ?_⟩
    rw [if_neg refused]
    exact new

end Muster.Server
