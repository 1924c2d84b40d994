import Muster.Proofs.Directory.Action
import Muster.Server.Basic

/-! What a server puts into its outbox: the response to a request, and behind it the news that
the request makes. -/
namespace Muster

/-- Whether a body is one that the server gives in response to a request. -/
def Body.Answers : Body → Body → Prop
  | .registerResponse _ _, .registerRequest _ => True
  | .joinResponse ref _, .joinRequest ref' | .leaveResponse ref _, .leaveRequest ref' => ref = ref'
  | .syncResponse ref _ terms _, .syncRequest ref' terms' => ref = ref' ∧ terms.point = terms'.point
  | _, _ => False

theorem Body.Answers.role {body request : Body} (answers : body.Answers request) :
    body.kind.role = .response := by
  cases body <;> cases request <;> first | exact answers.elim | rfl

theorem News.message_role (n : News) (token : Token) : (n.message token).role = .notice := by
  cases n <;> rfl

namespace Server

def news (token : Token) (bs : List Broadcast) : List (ConnId × Message) :=
  bs.flatMap fun b => b.receivers.map fun c => (c, b.news.message token)

/-- The outbox without the sequence numbers. -/
def mail (out : List Outgoing) : List (ConnId × Message) :=
  out.map fun o => (o.receiver, o.packet.message)

theorem queue_outbox (s : Server) (b : Broadcast) : ∃ told,
    (s.queue b).outbox = s.outbox ++ told ∧
      mail told = b.receivers.map fun c => (c, b.news.message s.token) := by
  refine ⟨_, rfl, ?_⟩
  unfold mail
  rw [List.map_map]
  rfl

theorem queueAll_outbox (s : Server) (bs : List Broadcast) : ∃ told,
    (s.queueAll bs).outbox = s.outbox ++ told ∧ mail told = news s.token bs := by
  induction bs generalizing s with
  | nil => exact ⟨[], (List.append_nil _).symm, rfl⟩
  | cons b bs ih =>
    obtain ⟨first, put, eq⟩ := s.queue_outbox b
    obtain ⟨later, put', eq'⟩ := ih (s.queue b)
    refine ⟨first ++ later, ?_, ?_⟩
    · show ((s.queue b).queueAll bs).outbox = _
      rw [put', put, List.append_assoc]
    · unfold mail at *
      rw [List.map_append, eq, eq']
      rfl

section
variable (s : Server) (bs : List Broadcast)

theorem queueAll_eq (s : Server) (bs : List Broadcast) : (s.queueAll bs).directory = s.directory ∧
    (s.queueAll bs).registrations = s.registrations ∧ (s.queueAll bs).clients = s.clients ∧
    (s.queueAll bs).token = s.token ∧ (s.queueAll bs).policy = s.policy ∧
    (s.queueAll bs).maxClients = s.maxClients := by
  induction bs generalizing s with
  | nil => exact ⟨rfl, rfl, rfl, rfl, rfl, rfl⟩
  | cons b bs ih => exact ih (s.queue b)

@[simp] theorem queueAll_directory : (s.queueAll bs).directory = s.directory :=
  (s.queueAll_eq bs).1

@[simp] theorem queueAll_registrations : (s.queueAll bs).registrations = s.registrations :=
  (s.queueAll_eq bs).2.1

@[simp] theorem queueAll_clients : (s.queueAll bs).clients = s.clients :=
  (s.queueAll_eq bs).2.2.1

@[simp] theorem queueAll_token : (s.queueAll bs).token = s.token := (s.queueAll_eq bs).2.2.2.1

@[simp] theorem queueAll_policy : (s.queueAll bs).policy = s.policy :=
  (s.queueAll_eq bs).2.2.2.2.1

@[simp] theorem queueAll_maxClients : (s.queueAll bs).maxClients = s.maxClients :=
  (s.queueAll_eq bs).2.2.2.2.2

end

/-- What a request does to the directory, what is answered, and what is told. A client that the
server does not know of is refused. -/
inductive Serves (s : Server) (now : Nat) (c : ConnId) (m : Message) :
    Body → Directory × List Broadcast → Prop where
  | register {id : NodeId} {token : Token} {code : RegisterCode}
      (body : m.body = .registerRequest id) :
      Serves s now c m (.registerResponse token code) (s.directory, [])
  | refuse {answer : Body} (unknown : s.authenticate c m.sender = none)
      (answers : answer.Answers m.body) (body : ∀ id, m.body ≠ .registerRequest id) :
      Serves s now c m answer (s.directory, [])
  | join {member : NodeId} {ref : GroupRef} (known : s.authenticate c m.sender = some member)
      (body : m.body = .joinRequest ref) :
      Serves s now c m (.joinResponse ref (s.directory.join s.policy now c member ref).answer)
        (s.directory.act s.policy now (.join c member ref))
  | leave {member : NodeId} {ref : GroupRef} (known : s.authenticate c m.sender = some member)
      (body : m.body = .leaveRequest ref) :
      Serves s now c m (.leaveResponse ref .accepted) (s.directory.act s.policy now (.leave c ref))
  | sync {member : NodeId} {ref : GroupRef} {terms : SyncTerms}
      (known : s.authenticate c m.sender = some member) (body : m.body = .syncRequest ref terms) :
      Serves s now c m
        (syncResponse ref terms.point (s.directory.sync now c ref terms).answer)
        (s.directory.act s.policy now (.sync c ref terms))

theorem Serves.answers {s : Server} {now : Nat} {c : ConnId} {m : Message} {answer : Body}
    {out : Directory × List Broadcast} (serves : s.Serves now c m answer out) :
    answer.Answers m.body := by
  cases serves with
  | register body =>
    rw [body]
    trivial
  | refuse unknown answers body => exact answers
  | join known body =>
    rw [body]
    exact rfl
  | leave known body =>
    rw [body]
    exact rfl
  | sync known body =>
    rw [body]
    exact ⟨rfl, rfl⟩

/-- A server with a response in its outbox and news behind it. -/
def Responds (s : Server) (now : Nat) (c : ConnId) (seq : Int32) (m : Message) (s' : Server) :
    Prop :=
  ∃ answer told bs, s.Serves now c m answer (s'.directory, bs) ∧
    s'.outbox = s.outbox ++ (⟨c, .ofMessage seq ⟨s.token, answer⟩⟩ :: told) ∧
      mail told = news s.token bs

section
variable {s s' : Server} {now : Nat} {c : ConnId} {seq : Int32} {m : Message} {answer : Body}

theorem responds_of_queueAll (bs : List Broadcast)
    (serves : s.Serves now c m answer (s'.directory, bs)) (outbox : s'.outbox = s.outbox)
    (token : s'.token = s.token) :
    s.Responds now c seq m ((s'.respond c seq answer).queueAll bs) := by
  obtain ⟨told, put, eq⟩ := (s'.respond c seq answer).queueAll_outbox bs
  refine ⟨answer, told, bs, ?_, ?_, ?_⟩
  · rw [queueAll_directory]
    exact serves
  · rw [put]
    show s'.outbox ++ _ ++ told = _
    rw [outbox, ← token, List.append_assoc]
    rfl
  · rw [eq, ← token]
    rfl

theorem responds_of_respond (serves : s.Serves now c m answer (s'.directory, []))
    (outbox : s'.outbox = s.outbox) (token : s'.token = s.token) :
    s.Responds now c seq m (s'.respond c seq answer) :=
  responds_of_queueAll [] serves outbox token

end

theorem unregister_frame (s : Server) (c : ConnId) : (s.unregister c).outbox = s.outbox ∧
    (s.unregister c).token = s.token ∧ (s.unregister c).directory = s.directory := by
  unfold unregister
  split <;> exact ⟨rfl, rfl, rfl⟩

theorem enroll_frame (s : Server) (c : ConnId) (id : NodeId) :
    (s.enroll c id).2.outbox = s.outbox ∧ (s.enroll c id).2.token = s.token ∧
      (s.enroll c id).2.directory = s.directory := by
  have freed : (if s.clients.contains id then s else s.unregister c).outbox = s.outbox ∧
      (if s.clients.contains id then s else s.unregister c).token = s.token ∧
      (if s.clients.contains id then s else s.unregister c).directory = s.directory := by
    split
    · exact ⟨rfl, rfl, rfl⟩
    · exact s.unregister_frame c
  unfold enroll
  dsimp only
  split <;> exact freed

/-- Every request is answered by one packet, in front of all news. -/
theorem handle_answers {m : Message} (request : m.role = .request) (s : Server) (now : Nat)
    (c : ConnId) (seq : Int32) : s.Responds now c seq m (s.handle now c seq m) := by
  obtain ⟨sender, body⟩ := m
  cases body with
  | registerRequest id =>
    show s.Responds now c seq ⟨sender, .registerRequest id⟩ (s.register c seq id)
    unfold register
    split
    · obtain ⟨outbox, token, directory⟩ := s.enroll_frame c id
      have serves : s.Serves now c ⟨sender, .registerRequest id⟩
          (.registerResponse (s.enroll c id).1 .accepted) ((s.enroll c id).2.directory, []) := by
        rw [directory]
        exact .register rfl
      exact responds_of_respond serves outbox token
    · exact responds_of_respond (.register rfl) rfl rfl
  | joinRequest ref =>
    show s.Responds now c seq ⟨sender, .joinRequest ref⟩ (s.join now c sender seq ref)
    unfold join
    split
    · rename_i unknown
      exact responds_of_respond (.refuse unknown rfl nofun) rfl rfl
    · rename_i member known
      exact responds_of_queueAll _ (.join known rfl) rfl rfl
  | leaveRequest ref =>
    show s.Responds now c seq ⟨sender, .leaveRequest ref⟩ (s.leave now c sender seq ref)
    unfold leave
    split
    · rename_i unknown
      exact responds_of_respond (.refuse unknown rfl nofun) rfl rfl
    · rename_i member known
      exact responds_of_queueAll _ (.leave known rfl) rfl rfl
  | syncRequest ref terms =>
    show s.Responds now c seq ⟨sender, .syncRequest ref terms⟩ (s.sync now c sender seq ref terms)
    unfold sync syncBy
    dsimp only [Id.run, bind, pure]
    split
    · rename_i unknown
      exact responds_of_respond (.refuse unknown ⟨rfl, rfl⟩ nofun) rfl rfl
    · rename_i member known
      exact responds_of_queueAll _ (.sync known rfl) rfl rfl
  | registerResponse | joinResponse | membershipNotice | leaveResponse | syncResponse
  | progressNotice => contradiction

theorem handle_of_not_request {m : Message} (other : m.role ≠ .request) (s : Server) (now : Nat)
    (c : ConnId) (seq : Int32) : s.handle now c seq m = s := by
  obtain ⟨sender, body⟩ := m
  cases body with
  | registerRequest | joinRequest | leaveRequest | syncRequest => exact absurd rfl other
  | registerResponse | joinResponse | membershipNotice | leaveResponse | syncResponse
  | progressNotice => rfl

/-- Every request is answered by one packet, in front of all news; nothing else makes any. -/
theorem handle_responds (s : Server) (now : Nat) (c : ConnId) (seq : Int32) (m : Message) :
    s.Responds now c seq m (s.handle now c seq m) ∨ s.handle now c seq m = s := by
  by_cases request : m.role = .request
  · exact .inl (handle_answers request s now c seq)
  · exact .inr (handle_of_not_request request s now c seq)

theorem lose_outbox (s : Server) (now : Nat) (c : ConnId) : ∃ told bs,
    ((s.lose now c).directory, bs) = s.directory.act s.policy now (.removeConnection c) ∧
      (s.lose now c).outbox = s.outbox ++ told ∧ mail told = news s.token bs := by
  unfold lose
  obtain ⟨told, put, eq⟩ := Server.queueAll_outbox { s.unregister c with
    directory := ((s.unregister c).directory.removeConnection now c).1 }
      ((s.unregister c).directory.removeConnection now c).2
  obtain ⟨outbox, token, directory⟩ := s.unregister_frame c
  refine ⟨told, ((s.unregister c).directory.removeConnection now c).2, ?_, ?_, ?_⟩
  · dsimp only
    rw [queueAll_directory, directory]
    rfl
  · rw [← outbox]
    exact put
  · rw [← token]
    exact eq

theorem fireDue_outbox (s : Server) (now : Nat) : ∃ told,
    (s.fireDue now).directory = (s.directory.fireDue s.policy now).2 ∧
      (s.fireDue now).outbox = s.outbox ++ told ∧
      mail told = news s.token ((s.directory.fireDue s.policy now).1.flatMap Prod.snd) := by
  obtain ⟨told, put, eq⟩ := Server.queueAll_outbox { s with
    directory := (s.directory.fireDue s.policy now).2 }
      ((s.directory.fireDue s.policy now).1.flatMap Prod.snd)
  exact ⟨told, queueAll_directory _ _, put, eq⟩

theorem broadcast_of_mail {token : Token} {told : List Outgoing} {bs : List Broadcast}
    (eq : mail told = news token bs) {o : Outgoing} (mem : o ∈ told) :
    ∃ b ∈ bs, o.receiver ∈ b.receivers ∧ o.packet.message = b.news.message token := by
  have mem' : (o.receiver, o.packet.message) ∈ news token bs := by
    rw [← eq]
    exact List.mem_map_of_mem mem
  obtain ⟨b, here, mem'⟩ := List.mem_flatMap.mp mem'
  obtain ⟨c, receiver, eq'⟩ := List.mem_map.mp mem'
  obtain ⟨rfl, message⟩ := Prod.mk.inj eq'
  exact ⟨b, here, receiver, message.symm⟩

theorem role_of_mail {token : Token} {told : List Outgoing} {bs : List Broadcast}
    (eq : mail told = news token bs) {o : Outgoing} (mem : o ∈ told) :
    o.packet.message.role = .notice := by
  obtain ⟨b, -, -, message⟩ := broadcast_of_mail eq mem
  rw [message]
  exact b.news.message_role token

end Server
end Muster
