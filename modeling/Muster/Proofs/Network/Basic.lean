import Muster.Proofs.Network.Delivery

/-! A server, its clients, and the packets between them. Steps may follow each other in any
order and at any time: callers begin calls, calls go on, clients connect and go, packets are
sent, handled and passed on, and clients go on with taking them in. Packets on one connection never overtake each other. -/
namespace Muster

structure Network where
  server : Server
  /-- Connections are numbered in the order in which they were made. -/
  peers : List Peer

def Server.hasMember (s : Server) (c : ConnId) (id : NodeId) : Bool :=
  match s.directory.groups[id]? with
  | some g => g.members.contains c
  | none => false

namespace Network

inductive Action where
  /-- A client connects and asks to be registered. -/
  | connect (id : NodeId) (config : ClientConfig) (numbering : Numbering)
  | ask (i : ConnId) (a : Ask)
  /-- A call takes a step. -/
  | advance (i : ConnId) (j : Nat) (numbering : Numbering)
  /-- The server handles the next request of a connection. -/
  | handle (i : ConnId)
  /-- The server handles the events that are due. -/
  | expire
  /-- The next packet reaches a client. -/
  | correlate (i : ConnId)
  /-- A client goes on with taking in what was passed on. -/
  | dispatch (i : ConnId)
  /-- A client goes on taking down its connection. -/
  | close (i : ConnId)
  /-- The server sees that a client has gone. -/
  | lose (i : ConnId)

def arrivals (origin : Option Origin) (out : List Outgoing) (i : ConnId) : List Incoming :=
  (out.filter fun o => o.receiver = i).map fun o =>
    ⟨o.packet, if o.packet.message.role = .response then origin else none⟩

/-- The network when the server has written out its outbox. -/
def deliver (n : Network) (server : Server) (origin : Option Origin) : Network where
  server := { server with outbox := [] }
  peers := n.peers.mapIdx fun i p => p.arrive (arrivals origin server.outbox i)

def change (n : Network) (i : ConnId) (f : Peer → Peer) : Network :=
  { n with peers := n.peers.modify i f }

/-- Whether a request takes a member out of the group that it names. -/
def removes (before after : Server) (i : ConnId) (request : Body) : Bool :=
  match request.group? with
  | some ref => before.hasMember i ref.id && !after.hasMember i ref.id
  | none => false

def handle (n : Network) (now : Nat) (i : ConnId) : Network :=
  match n.peers[i]?.bind fun p => p.toServer.head? with
  | none => n
  | some r =>
    let server := n.server.handle now i r.packet.seq r.packet.message
    let removed := removes n.server server i r.packet.message.body
    (n.change i .serve).deliver server (some ⟨r, removed⟩)

def lose (n : Network) (now : Nat) (i : ConnId) : Network :=
  match n.peers[i]?.bind fun p => p.client.link with
  | some _ => n
  | none => (n.change i .hangUp).deliver (n.server.lose now i) none

def act (n : Network) (now : Nat) : Action → Network
  | .connect id config numbering => { n with peers := n.peers ++ [.register id config numbering] }
  | .ask i a => n.change i fun p => p.ask now a
  | .advance i j numbering => n.change i fun p => p.advance now numbering j
  | .handle i => n.handle now i
  | .expire => n.deliver (n.server.fireDue now) none
  | .correlate i => n.change i .correlate
  | .dispatch i => n.change i .dispatch
  | .close i => n.change i .close
  | .lose i => n.lose now i

structure Episode where
  now : Nat
  action : Action
  before : Network
  after : Network

/-- What can happen on a network, with the last step first. The clocks of clients and server
need not agree, so the times of the steps are arbitrary. -/
inductive History : List Episode → Network → Prop where
  | start (config : ServerConfig) (token : Token) (now : Nat) (numbering : Numbering)
      (tokens : TokenSource) : History [] ⟨.start config token now numbering tokens, []⟩
  | act {past : List Episode} {n : Network} (run : History past n) (now : Nat) (a : Action) :
      History (⟨now, a, n, n.act now a⟩ :: past) (n.act now a)

/-- No two live requests of a client have the same number. -/
def ApartAt (n : Network) (i : ConnId) : Prop := ∀ p ∈ n.peers[i]?, p.Apart

instance (n : Network) (i : ConnId) : Decidable (n.ApartAt i) :=
  inferInstanceAs (Decidable (∀ p ∈ n.peers[i]?, p.Apart))

/-- All networks of a history, with the last first. -/
def states (past : List Episode) (n : Network) : List Network := n :: past.map Episode.before

/-- The history of steps taken one after the other at the given times; the last is first. -/
def play (config : ServerConfig) (token : Token) (tokens : TokenSource) :
    List (Nat × Action) → List Episode × Network
  | [] => ([], ⟨.start config token 0 (.ofSeed 0) tokens, []⟩)
  | (now, a) :: earlier =>
    let (past, n) := play config token tokens earlier
    (⟨now, a, n, n.act now a⟩ :: past, n.act now a)

theorem History.play (config : ServerConfig) (token : Token) (tokens : TokenSource)
    (actions : List (Nat × Action)) :
    History (play config token tokens actions).1 (play config token tokens actions).2 := by
  induction actions with
  | nil => exact .start config token 0 _ tokens
  | cons x actions ih => exact .act ih x.1 x.2

end Network

/-- What a step can do to one of the clients. -/
inductive Peer.Step (p : Peer) : Peer → Prop where
  | same : Step p p
  | ask (now : Nat) (a : Ask) : Step p (p.ask now a)
  | advance (now : Nat) (numbering : Numbering) (j : Nat) : Step p (p.advance now numbering j)
  | correlate : Step p p.correlate
  | dispatch : Step p p.dispatch
  | tearDown (whole : p.taking = .fresh) : Step p p.tearDown
  | tell {xs : List Incoming}
      (notices : ∀ x ∈ xs, x.packet.RespondsTo x.request? ∧ x.request? = none) :
      Step p (p.arrive xs)
  | answer {r : Request} {rest : List Request} {xs : List Incoming}
      (next : p.toServer = r :: rest) (genuine : ∀ x ∈ xs, x.packet.RespondsTo x.request?)
      (once : (xs.filterMap Incoming.request?).Subperm [r]) : Step p (p.serve.arrive xs)
  | hangUp {xs : List Incoming} (notices : ∀ x ∈ xs, x.packet.RespondsTo x.request? ∧
      x.request? = none) : Step p (p.hangUp.arrive xs)

theorem Peer.Sound.step {p p' : Peer} (h : p.Sound) (step : p.Step p') : p'.Sound := by
  cases step with
  | same => exact h
  | ask now a => exact h.ask now a
  | advance now numbering j => exact h.advance now numbering j
  | correlate => exact h.correlate
  | dispatch => exact h.dispatch
  | tearDown whole => exact h.tearDown whole
  | tell notices => exact h.transfer (p.tell_transfers notices)
  | answer next genuine once => exact h.transfer (answer_transfers next genuine once)
  | hangUp notices => exact h.transfer (p.hangUp_transfers notices)

theorem Peer.Step.job {p p' : Peer} (step : p.Step p') {j : Nat} {job : Job}
    (here : p.jobs[j]? = some job) : p'.jobs[j]? = some job ∨ ∃ now m c c' s',
      c.records[job.handle]? = some m ∧
      Call.advance c now job.handle job.call.created m job.call.stage = some (c', s') ∧
      p'.jobs[j]? = some (job.next p.made s') := by
  have kept {q : Peer} (transfers : p.Transfers q) : q.jobs[j]? = some job := by
    obtain ⟨toServer, toClient, rfl, -, -⟩ := transfers
    exact here
  cases step with
  | same => exact .inl here
  | ask now a =>
    left
    unfold Peer.ask
    split
    · exact getElem?_append_of here _
    · exact here
  | advance now numbering k =>
    obtain same | ⟨job', m, c, c', s', there, -, record, advanced, eq⟩ :=
      p.advance_stage now numbering k
    · rw [same]
      exact .inl here
    · have jobs : (p.advance now numbering k).jobs = p.jobs.set k (job'.next p.made s') := by
        rw [eq]
        rfl
      rw [jobs, getElem?_set_of there]
      split
      · rename_i same
        subst same
        obtain rfl := Option.some.inj (there.symm.trans here)
        exact .inr ⟨now, m, c, c', s', record, advanced, rfl⟩
      · exact .inl here
  | correlate =>
    left
    obtain same | ⟨x, rest, link, delivery, pending, -, -, -, eq⟩ := p.correlate_cases
    · rw [same]
      exact here
    · rw [eq]
      exact here
  | dispatch => exact .inl (p.dispatch_jobs ▸ here)
  | tearDown whole => exact .inl here
  | tell notices => exact .inl (kept (p.tell_transfers notices))
  | answer next genuine once => exact .inl (kept (answer_transfers next genuine once))
  | hangUp notices => exact .inl (kept (p.hangUp_transfers notices))

theorem Peer.Orderly.step {p p' : Peer} (h : p.Orderly) (apart : p.Apart) (step : p.Step p') :
    p'.Orderly := by
  cases step with
  | same => exact h
  | ask now a => exact h.ask now a
  | advance now numbering j => exact h.advance apart now numbering j
  | correlate => exact h.correlate
  | dispatch => exact h.dispatch apart
  | tearDown whole => exact h.tearDown whole
  | tell notices => exact h.transfer (p.tell_transfers notices)
  | answer next genuine once => exact h.transfer (answer_transfers next genuine once)
  | hangUp notices => exact h.transfer (p.hangUp_transfers notices)

namespace Network
variable {n n' : Network} {i k : ConnId} {p p' : Peer}

theorem arrivals_notices {origin : Option Origin} {out : List Outgoing}
    (notices : ∀ o ∈ out, o.packet.message.role = .notice) (i : ConnId) :
    ∀ x ∈ arrivals origin out i, x.packet.RespondsTo x.request? ∧ x.request? = none := by
  intro x mem
  obtain ⟨o, sent, rfl⟩ := List.mem_map.mp mem
  have role := notices o (List.mem_filter.mp sent).1
  have no : Incoming.request? ⟨o.packet,
      if o.packet.message.role = .response then origin else none⟩ = none := by
    rw [role, if_neg (by decide)]
    rfl
  refine ⟨?_, no⟩
  rw [no]
  show o.packet.message.role ≠ .response
  rw [role]
  decide

theorem deliver_peers (n : Network) (server : Server) (origin : Option Origin) (i : ConnId) :
    (n.deliver server origin).peers[i]? =
      n.peers[i]?.map fun p => p.arrive (arrivals origin server.outbox i) :=
  List.getElem?_mapIdx

theorem change_peers (n : Network) (i k : ConnId) (f : Peer → Peer) :
    (n.change i f).peers[k]? = if i = k then n.peers[k]?.map f else n.peers[k]? := by
  show (n.peers.modify i f)[k]? = _
  rw [List.getElem?_modify]
  split <;> simp

theorem History.outbox {past : List Episode} (run : History past n) : n.server.outbox = [] := by
  induction run with
  | start => rfl
  | @act past n run now a ih =>
    cases a with
    | handle i =>
      show (n.handle now i).server.outbox = []
      unfold handle
      split
      · exact ih
      · rfl
    | lose i =>
      show (n.lose now i).server.outbox = []
      unfold lose
      split
      · exact ih
      · rfl
    | expire => rfl
    | connect | ask | advance | correlate | dispatch | close => exact ih

theorem arrivals_respond {out told : List Outgoing} {packet : Packet} {k : ConnId} (o : Origin)
    (put : out = ⟨k, packet⟩ :: told) (response : packet.message.role = .response) (i : ConnId) :
    arrivals (some o) out i =
      (if k = i then [⟨packet, some o⟩] else []) ++ arrivals (some o) told i := by
  rw [put]
  unfold arrivals
  split
  · rename_i own
    rw [List.filter_cons_of_pos (by simpa using own), List.map_cons]
    exact congrArg (· :: _) (congrArg (Incoming.mk _) (if_pos response))
  · rename_i other
    rw [List.filter_cons_of_neg (by simpa using other)]
    rfl

/-- What the server writes when it handles a request: its response, if it is for this client,
and notices. -/
theorem arrivals_handle {s : Server} (empty : s.outbox = []) (now : Nat) (k i : ConnId)
    (r : Request) (removed : Bool) :
    let xs := arrivals (some ⟨r, removed⟩)
      (s.handle now k r.packet.seq r.packet.message).outbox i
    (∀ x ∈ xs, x.packet.RespondsTo x.request? ∧ x.request? = none) ∨
      k = i ∧ (∀ x ∈ xs, x.packet.RespondsTo x.request?) ∧
        (xs.filterMap Incoming.request?).Subperm [r] := by
  intro xs
  obtain responds | same := s.handle_responds now k r.packet.seq r.packet.message
  · obtain ⟨answer, told, bs, serves, put, eq⟩ := responds
    have answers := serves.answers
    rw [empty, List.nil_append] at put
    have role : (⟨s.token, answer⟩ : Message).role = .response := answers.role
    have notices : ∀ x ∈ arrivals (some ⟨r, removed⟩) told i,
        x.packet.RespondsTo x.request? ∧ x.request? = none :=
      arrivals_notices (fun o => Server.role_of_mail eq) i
    have xs_eq : xs = _ := arrivals_respond ⟨r, removed⟩ put role i
    rw [xs_eq]
    by_cases own : k = i
    · right
      refine ⟨own, ?_⟩
      rw [if_pos own]
      constructor
      · intro x mem
        rcases List.mem_cons.mp mem with rfl | mem
        · exact ⟨role, rfl, answers⟩
        · exact (notices x mem).1
      · have no := List.filterMap_eq_nil_iff.mpr fun x mem => (notices x mem).2
        rw [List.filterMap_append, no]
        exact List.Subperm.refl _
    · left
      rw [if_neg own]
      exact notices
  · left
    have xs_eq : xs = [] := by
      show arrivals _ _ i = _
      rw [same, empty]
      rfl
    rw [xs_eq]
    exact fun x mem => nomatch mem

/-- What a step does to one of the clients and to the server. -/
inductive Turn (s : Server) (i : ConnId) (p : Peer) : Server → Peer → Prop where
  | same : Turn s i p s p
  | ask (now : Nat) (a : Ask) : Turn s i p s (p.ask now a)
  | advance (now : Nat) (numbering : Numbering) (j : Nat) : Turn s i p s (p.advance now numbering j)
  | correlate : Turn s i p s p.correlate
  | dispatch : Turn s i p s p.dispatch
  | tearDown (whole : p.taking = .fresh) : Turn s i p s p.tearDown
  | expire (now : Nat) : Turn s i p { s.fireDue now with outbox := [] }
      (p.arrive (arrivals none (s.fireDue now).outbox i))
  | lose (now : Nat) {k : ConnId} (other : k ≠ i) : Turn s i p { s.lose now k with outbox := [] }
      (p.arrive (arrivals none (s.lose now k).outbox i))
  | hangUp (now : Nat) (gone : p.client.link = none) :
      Turn s i p { s.lose now i with outbox := [] }
        (p.hangUp.arrive (arrivals none (s.lose now i).outbox i))
  | overhear (now : Nat) {k : ConnId} (r : Request) (removed : Bool) (other : k ≠ i) :
      Turn s i p { s.handle now k r.packet.seq r.packet.message with outbox := [] }
        (p.arrive (arrivals (some ⟨r, removed⟩)
          (s.handle now k r.packet.seq r.packet.message).outbox i))
  | answer (now : Nat) {r : Request} {rest : List Request} (next : p.toServer = r :: rest)
      {removed : Bool} (removal : removed = removes s
        (s.handle now i r.packet.seq r.packet.message) i r.packet.message.body) :
      Turn s i p { s.handle now i r.packet.seq r.packet.message with outbox := [] }
        (p.serve.arrive (arrivals (some ⟨r, removed⟩)
          (s.handle now i r.packet.seq r.packet.message).outbox i))

section
variable {s s' : Server} (empty : s.outbox = []) (now : Nat)
include empty

theorem expire_notices : ∀ x ∈ arrivals none (s.fireDue now).outbox i,
    x.packet.RespondsTo x.request? ∧ x.request? = none := by
  obtain ⟨told, -, put, eq⟩ := s.fireDue_outbox now
  rw [empty, List.nil_append] at put
  apply arrivals_notices
  rw [put]
  exact fun o => Server.role_of_mail eq

theorem lose_notices (k : ConnId) : ∀ x ∈ arrivals none (s.lose now k).outbox i,
    x.packet.RespondsTo x.request? ∧ x.request? = none := by
  obtain ⟨told, bs, -, put, eq⟩ := s.lose_outbox now k
  rw [empty, List.nil_append] at put
  apply arrivals_notices
  rw [put]
  exact fun o => Server.role_of_mail eq

theorem overhear_notices (r : Request) (removed : Bool) (other : k ≠ i) :
    ∀ x ∈ arrivals (some ⟨r, removed⟩)
        (s.handle now k r.packet.seq r.packet.message).outbox i,
      x.packet.RespondsTo x.request? ∧ x.request? = none := by
  obtain notices | ⟨own, -⟩ := arrivals_handle empty now k i r removed
  · exact notices
  · exact absurd own other

end

theorem Turn.step {s s' : Server} (turn : Turn s i p s' p') (empty : s.outbox = []) :
    p.Step p' := by
  cases turn with
  | same => exact .same
  | ask now a => exact .ask now a
  | advance now numbering j => exact .advance now numbering j
  | correlate => exact .correlate
  | dispatch => exact .dispatch
  | tearDown whole => exact .tearDown whole
  | expire now => exact .tell (expire_notices empty now)
  | lose now other => exact .tell (lose_notices empty now _)
  | hangUp now gone => exact .hangUp (lose_notices empty now i)
  | overhear now r removed other => exact .tell (overhear_notices empty now r removed other)
  | @answer now r rest next removed =>
    obtain notices | ⟨-, genuine, once⟩ := arrivals_handle empty now i i r removed
    · apply Peer.Step.answer next fun x mem => (notices x mem).1
      have no : List.filterMap Incoming.request? _ = [] :=
        List.filterMap_eq_nil_iff.mpr fun x mem => (notices x mem).2
      rw [no]
      exact List.nil_subperm
    · exact .answer next genuine once

theorem Turn.ofClose {s : Server} (p : Peer) : Turn s i p s p.close := by
  unfold Peer.close
  split
  · rename_i whole
    exact .tearDown whole
  · exact .same

theorem change_turn {f : Peer → Peer} (turn : ∀ p : Peer, Turn n.server i p n.server (f p))
    (here : (n.change k f).peers[i]? = some p') :
    ∃ p : Peer, n.peers[i]? = some p ∧ Turn n.server i p n.server p' := by
  rw [change_peers] at here
  split at here
  · obtain ⟨p, found, rfl⟩ := Option.map_eq_some_iff.mp here
    exact ⟨p, found, turn p⟩
  · exact ⟨p', here, .same⟩

theorem lose_turn (now : Nat) (here : (n.lose now k).peers[i]? = some p') :
    ∃ p : Peer, n.peers[i]? = some p ∧ Turn n.server i p (n.lose now k).server p' := by
  unfold lose at here ⊢
  split at here
  · exact ⟨p', here, .same⟩
  · rename_i gone
    rw [deliver_peers] at here
    obtain ⟨p, found, rfl⟩ := Option.map_eq_some_iff.mp here
    rw [change_peers] at found
    split at found
    · rename_i eq
      subst eq
      obtain ⟨q, there, rfl⟩ := Option.map_eq_some_iff.mp found
      rw [there] at gone
      exact ⟨q, there, .hangUp now gone⟩
    · rename_i ne
      exact ⟨p, found, .lose now ne⟩

theorem handle_turn (now : Nat) (here : (n.handle now k).peers[i]? = some p') :
    ∃ p : Peer, n.peers[i]? = some p ∧ Turn n.server i p (n.handle now k).server p' := by
  unfold handle at here ⊢
  split at here
  · exact ⟨p', here, .same⟩
  · rename_i r head
    rw [deliver_peers] at here
    obtain ⟨p, found, rfl⟩ := Option.map_eq_some_iff.mp here
    obtain ⟨q, there, head⟩ := Option.bind_eq_some_iff.mp head
    obtain ⟨rest, next⟩ := List.head?_eq_some_iff.mp head
    rw [change_peers] at found
    split at found
    · rename_i eq
      subst eq
      rw [there] at found
      obtain rfl := Option.some.inj found
      exact ⟨q, there, .answer now next rfl⟩
    · rename_i ne
      exact ⟨p, found, .overhear now r _ ne⟩

/-- A step is a turn of every client that is there. Others may connect. -/
theorem act_turn (now : Nat) (a : Action) (here : (n.act now a).peers[i]? = some p') :
    (∃ p : Peer, n.peers[i]? = some p ∧ Turn n.server i p (n.act now a).server p') ∨
      i = n.peers.length ∧ (n.act now a).server = n.server ∧
        ∃ id config numbering, p' = .register id config numbering := by
  cases a with
  | connect id config numbering =>
    have here : (n.peers ++ [.register id config numbering])[i]? = some p' := here
    rw [List.getElem?_append] at here
    split at here
    · exact .inl ⟨p', here, .same⟩
    · rename_i le
      right
      rw [List.getElem?_singleton] at here
      split at here
      · rename_i first
        have last := Nat.le_antisymm (Nat.sub_eq_zero_iff_le.mp first) (Nat.le_of_not_lt le)
        exact ⟨last, rfl, id, config, numbering, (Option.some.inj here).symm⟩
      · contradiction
  | ask k a => exact .inl (change_turn (fun p => .ask now a) here)
  | advance k j numbering => exact .inl (change_turn (fun p => .advance now numbering j) here)
  | correlate k => exact .inl (change_turn (fun p => .correlate) here)
  | dispatch k => exact .inl (change_turn (fun p => .dispatch) here)
  | close k => exact .inl (change_turn Turn.ofClose here)
  | expire =>
    left
    have here : (n.deliver (n.server.fireDue now) none).peers[i]? = some p' := here
    rw [deliver_peers] at here
    obtain ⟨p, found, rfl⟩ := Option.map_eq_some_iff.mp here
    exact ⟨p, found, .expire now⟩
  | lose k => exact .inl (lose_turn now here)
  | handle k => exact .inl (handle_turn now here)

theorem act_length (n : Network) (now : Nat) (a : Action) :
    n.peers.length ≤ (n.act now a).peers.length := by
  have deliver (m : Network) (server : Server) (origin : Option Origin) :
      (m.deliver server origin).peers.length = m.peers.length := List.length_mapIdx
  have change (k : ConnId) (f : Peer → Peer) : (n.change k f).peers.length = n.peers.length :=
    List.length_modify f n.peers k
  cases a with
  | connect id config numbering =>
    show _ ≤ (n.peers ++ [_]).length
    rw [List.length_append]
    exact Nat.le_add_right _ _
  | ask | advance | correlate | dispatch | close => exact Nat.le_of_eq (change _ _).symm
  | expire => exact Nat.le_of_eq (deliver n _ none).symm
  | handle k =>
    show _ ≤ (n.handle now k).peers.length
    unfold handle
    split
    · exact Nat.le_refl _
    · exact Nat.le_of_eq ((deliver _ _ _).trans (change k _)).symm
  | lose k =>
    show _ ≤ (n.lose now k).peers.length
    unfold lose
    split
    · exact Nat.le_refl _
    · exact Nat.le_of_eq ((deliver _ _ _).trans (change k _)).symm

theorem act_forth (now : Nat) (a : Action) (here : n.peers[i]? = some p) :
    ∃ p', (n.act now a).peers[i]? = some p' ∧ Turn n.server i p (n.act now a).server p' := by
  obtain ⟨lt, -⟩ := List.getElem?_eq_some_iff.mp here
  have there := List.getElem?_eq_getElem (Nat.lt_of_lt_of_le lt (n.act_length now a))
  refine ⟨_, there, ?_⟩
  obtain ⟨q, before, turn⟩ | ⟨new, -⟩ := act_turn now a there
  · obtain rfl := Option.some.inj (here.symm.trans before)
    exact turn
  · exact absurd new (Nat.ne_of_lt lt)

theorem History.sound {past : List Episode} (run : History past n) (here : n.peers[i]? = some p) :
    p.Sound := by
  induction run generalizing p with
  | start => exact nomatch here
  | @act past n run now a ih =>
    obtain ⟨q, before, turn⟩ | ⟨-, -, id, config, numbering, rfl⟩ := act_turn now a here
    · exact (ih before).step (turn.step run.outbox)
    · exact Peer.Sound.register id config numbering

/-- A client is orderly if no two of its live requests ever had the same number. -/
theorem History.orderly {past : List Episode} (run : History past n)
    (apart : ∀ m ∈ past.map Episode.before, m.ApartAt i)
    (here : n.peers[i]? = some p) : p.Orderly := by
  induction run generalizing p with
  | start => exact nomatch here
  | @act past n run now a ih =>
    obtain ⟨q, before, turn⟩ | ⟨-, -, id, config, numbering, rfl⟩ := act_turn now a here
    · have orderly := ih (fun m mem => apart m (List.mem_cons_of_mem _ mem)) before
      exact orderly.step (apart n List.mem_cons_self q before) (turn.step run.outbox)
    · exact Peer.Orderly.register id config numbering

end Network
end Muster
