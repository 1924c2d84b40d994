import Muster.Proofs.Network.Trail
import Muster.Proofs.Server.Outbox

/-! What holds of a client and its packets in every state, whatever numbers its requests have:
who has claimed what, which requests are on their way, and whose responses the packets are. -/
namespace Muster

/-- Whether a packet is the server's response to the request, or a notice if there is none. -/
def Packet.RespondsTo (p : Packet) : Option Request → Prop
  | none => p.message.role ≠ .response
  | some r => p.message.role = .response ∧ p.seq = r.packet.seq ∧
      p.message.body.Answers r.packet.message.body

namespace Peer

def trail (p : Peer) : List Request := p.underway ++ p.heard.filterMap Handed.request?

def moveOn (p : Peer) (j : Nat) (job : Job) (client : Client) (s' : CallStage) : Peer :=
  { p with
    client
    jobs := p.jobs.set j (job.next p.made s')
    made := madeAfter p.made s'.errand
    toServer := p.toServer ++ (sentBy job.request job.errand s'.errand).toList }

theorem advance_stage (p : Peer) (now : Nat) (numbering : Numbering) (j : Nat) :
    p.advance now numbering j = p ∨ ∃ job m c c' s', p.jobs[j]? = some job ∧
      c = { p.client with numbering } ∧
      c.records[job.handle]? = some m ∧
      Call.advance c now job.handle job.call.created m job.call.stage = some (c', s') ∧
      p.advance now numbering j = p.moveOn j job c' s' := by
  unfold advance
  split
  · exact .inl rfl
  · rename_i job here
    dsimp only
    split
    · exact .inl rfl
    · rename_i c' call' run
      obtain ⟨m, s', record, advanced, rfl⟩ := Call.step_advance run
      exact .inr ⟨job, m, _, c', s', here, rfl, record, advanced, rfl⟩

/-- A call stays as it is or takes one of its steps, whatever numbers are drawn. -/
theorem advance_cases (p : Peer) (now : Nat) (numbering : Numbering) (j : Nat) :
    p.advance now numbering j = p ∨ ∃ job m c c' s', p.jobs[j]? = some job ∧
      c = { p.client with numbering } ∧
      c.records[job.handle]? = some m ∧ Call.CallStep c job.handle m job.call.stage c' s' ∧
      p.advance now numbering j = p.moveOn j job c' s' := by
  obtain same | ⟨job, m, c, c', s', here, client, record, advanced, eq⟩ :=
    p.advance_stage now numbering j
  · exact .inl same
  · exact .inr ⟨job, m, c, c', s', here, client, record, Call.advance_callStep advanced, eq⟩

/-- Packets go from the one end to the other or are lost, and new ones come from the server. -/
def Transfers (p p' : Peer) : Prop := ∃ toServer toClient, p' = { p with toServer, toClient } ∧
  (∀ x ∈ toClient, x ∈ p.toClient ∨ x.packet.RespondsTo x.request?) ∧
    (toServer ++ toClient.filterMap Incoming.request?).Subperm
      (p.toServer ++ p.toClient.filterMap Incoming.request?)

theorem tell_transfers (p : Peer) {xs : List Incoming}
    (notices : ∀ x ∈ xs, x.packet.RespondsTo x.request? ∧ x.request? = none) :
    p.Transfers (p.arrive xs) := by
  unfold arrive
  split
  · refine ⟨p.toServer, p.toClient ++ xs, rfl, ?_, ?_⟩
    · intro x mem
      rcases List.mem_append.mp mem with mem | mem
      · exact .inl mem
      · exact .inr (notices x mem).1
    · have none : xs.filterMap Incoming.request? = [] := by
        rw [List.filterMap_eq_nil_iff]
        exact fun x mem => (notices x mem).2
      rw [List.filterMap_append, none, List.append_nil]
  · exact ⟨p.toServer, p.toClient, rfl, fun x mem => .inl mem, List.Subperm.refl _⟩

/-- The server reads a request and writes its response, among notices. -/
theorem answer_transfers {p : Peer} {r : Request} {rest : List Request} {xs : List Incoming}
    (next : p.toServer = r :: rest) (genuine : ∀ x ∈ xs, x.packet.RespondsTo x.request?)
    (once : (xs.filterMap Incoming.request?).Subperm [r]) : p.Transfers (p.serve.arrive xs) := by
  have served : p.serve = { p with toServer := rest } := by
    unfold serve
    rw [next, List.tail_cons]
  rw [served]
  unfold arrive
  split
  · refine ⟨rest, p.toClient ++ xs, rfl, ?_, ?_⟩
    · intro x mem
      rcases List.mem_append.mp mem with mem | mem
      · exact .inl mem
      · exact .inr (genuine x mem)
    · rw [next, List.filterMap_append, ← List.append_assoc]
      have all := (List.Subperm.refl (rest ++ p.toClient.filterMap Incoming.request?)).append once
      exact all.trans (List.perm_append_singleton r _).subperm
  · refine ⟨rest, p.toClient, rfl, fun x mem => .inl mem, ?_⟩
    rw [next]
    exact (List.sublist_cons_self r _).subperm

theorem Transfers.trans {p p' p'' : Peer} (h : p.Transfers p') (h' : p'.Transfers p'') :
    p.Transfers p'' := by
  obtain ⟨toServer, toClient, rfl, incoming, sub⟩ := h
  obtain ⟨toServer', toClient', rfl, incoming', sub'⟩ := h'
  refine ⟨toServer', toClient', rfl, fun x mem => ?_, sub'.trans sub⟩
  obtain old | responds := incoming' x mem
  · exact incoming x old
  · exact .inr responds

/-- The server drops the requests of a client that has gone, and writes notices. -/
theorem hangUp_transfers (p : Peer) {xs : List Incoming}
    (notices : ∀ x ∈ xs, x.packet.RespondsTo x.request? ∧ x.request? = none) :
    p.Transfers (p.hangUp.arrive xs) := by
  have dropped : p.Transfers p.hangUp :=
    ⟨[], p.toClient, rfl, fun _ mem => .inl mem, (List.sublist_append_right _ _).subperm⟩
  exact dropped.trans (p.hangUp.tell_transfers notices)

/-- The record that was looked up is that of the group which is being told about. -/
def Turned (p : Peer) : Prop := ∀ k, p.taking.handle? = some k →
  ∃ x ∈ p.inbox.head?, ∃ m t, p.client.records[k]? = some m ∧ x.delivery.tidings? = some (m.id, t)

theorem Turned.mono {p p' : Peer} (h : p.Turned) (taking : p'.taking = p.taking)
    (head : ∀ x ∈ p.inbox.head?, x ∈ p'.inbox.head?)
    (records : ∀ (k : Handle) (m : Membership), p.client.records[k]? = some m →
      ∃ m', p'.client.records[k]? = some m' ∧ m'.id = m.id) : p'.Turned := by
  intro k looked
  rw [taking] at looked
  obtain ⟨x, first, m, t, record, told⟩ := h k looked
  obtain ⟨m', record', name⟩ := records k m record
  exact ⟨x, head x first, m', t, record', name ▸ told⟩

theorem turned_of_fresh {p : Peer} (fresh : p.taking = .fresh) : p.Turned := by
  intro k looked
  rw [fresh] at looked
  exact nomatch looked

structure Sound (p : Peer) : Prop where
  claims : Claims p.client.records p.jobs
  listed (id : NodeId) (h : Handle) (known : p.client.groups[id]? = some h) :
    ∃ m, p.client.records[h]? = some m ∧ m.id = id
  trail : Trail p.jobs p.made p.trail
  incoming (x : Incoming) (mem : x ∈ p.toClient) : x.packet.RespondsTo x.request?
  handed (x : Handed) (mem : x ∈ p.inbox ∨ x ∈ p.heard) : x.delivery.packet.RespondsTo x.request?
  down : p.closing = none ∨ p.closing = some .dropLink ∨ p.client.link = none
  turned : p.Turned

theorem mem_live_of_job {p : Peer} {j : Nat} {job : Job} {r : Request}
    (here : p.jobs[j]? = some job) (request : job.request = some r) : r ∈ p.live :=
  List.mem_append_left _ (List.mem_filterMap.mpr ⟨job, List.mem_of_getElem? here, request⟩)

theorem mem_underway_of_inbox {p : Peer} {x : Handed} {r : Request} (mem : x ∈ p.inbox)
    (request : x.request? = some r) : r ∈ p.underway := by
  unfold underway
  exact List.mem_append_right _ (List.mem_filterMap.mpr ⟨x, mem, request⟩)

/-- The client looks at something on behalf of a packet, or it is done with the packet. -/
theorem dispatch_cases {p : Peer} {x : Handed} {rest : List Handed} (next : p.inbox = x :: rest) :
    (∃ taking, p.taking.Step p.client x.delivery p.client (some taking) ∧
      p.dispatch = { p with taking }) ∨
    ∃ client, p.taking.Step p.client x.delivery client none ∧
      p.dispatch = { p with client, taking := .fresh, inbox := rest, heard := x :: p.heard } := by
  have step := p.taking.step_cases p.client x.delivery
  unfold dispatch
  rw [next]
  dsimp only
  generalize p.taking.step p.client x.delivery = after at step ⊢
  obtain ⟨client, left⟩ := after
  cases left with
  | none => exact .inr ⟨client, step, rfl⟩
  | some taking =>
    obtain rfl : client = p.client := step.client_eq
    exact .inl ⟨taking, step, rfl⟩

theorem dispatch_nil {p : Peer} (next : p.inbox = []) : p.dispatch = p := by
  unfold dispatch
  rw [next]

/-- Taking in a packet has to do with nothing else. -/
theorem dispatch_frame (p : Peer) :
    p.dispatch.toServer = p.toServer ∧ p.dispatch.toClient = p.toClient ∧
      p.dispatch.jobs = p.jobs ∧ p.dispatch.client.link = p.client.link ∧
        p.dispatch.client.id = p.client.id := by
  cases next : p.inbox with
  | nil =>
    rw [dispatch_nil next]
    exact ⟨rfl, rfl, rfl, rfl, rfl⟩
  | cons x rest =>
    obtain ⟨taking, -, eq⟩ | ⟨client, step, eq⟩ := dispatch_cases next
    · rw [eq]
      exact ⟨rfl, rfl, rfl, rfl, rfl⟩
    · rw [eq]
      exact ⟨rfl, rfl, rfl, step.link_eq, step.id_eq⟩

theorem dispatch_jobs (p : Peer) : p.dispatch.jobs = p.jobs := p.dispatch_frame.2.2.1

theorem dispatch_link (p : Peer) : p.dispatch.client.link = p.client.link := p.dispatch_frame.2.2.2.1

theorem dispatch_mem {p : Peer} {x : Handed} (mem : x ∈ p.dispatch.inbox ∨ x ∈ p.dispatch.heard) :
    x ∈ p.inbox ∨ x ∈ p.heard := by
  cases next : p.inbox with
  | nil =>
    rw [dispatch_nil next, next] at mem
    exact mem
  | cons y rest =>
    obtain ⟨taking, -, eq⟩ | ⟨client, -, eq⟩ := dispatch_cases next
    · rw [eq] at mem
      exact next ▸ mem
    · rw [eq] at mem
      rcases mem with mem | mem
      · exact .inl (List.mem_cons_of_mem y mem)
      · rcases List.mem_cons.mp mem with rfl | mem
        · exact .inl List.mem_cons_self
        · exact .inr mem

theorem dispatch_heard (p : Peer) {x : Handed} (heard : x ∈ p.heard) : x ∈ p.dispatch.heard := by
  cases next : p.inbox with
  | nil =>
    rw [dispatch_nil next]
    exact heard
  | cons y rest =>
    obtain ⟨taking, -, eq⟩ | ⟨client, -, eq⟩ := dispatch_cases next
    · rw [eq]
      exact heard
    · rw [eq]
      exact List.mem_cons_of_mem y heard

theorem correlate_cases (p : Peer) : p.correlate = p ∨ ∃ x rest link delivery pending,
    p.toClient = x :: rest ∧ p.client.link = some link ∧
      link.pending.pass x.packet = (delivery, pending) ∧
      p.correlate = { p with
        client := { p.client with link := some { link with pending } }
        toClient := rest
        inbox := p.inbox ++ (delivery.map fun d => ⟨d, x.origin⟩).toList } := by
  unfold correlate
  split
  · rename_i x rest link next linked
    exact .inr ⟨x, rest, link, _, _, next, linked, rfl, rfl⟩
  · exact .inl rfl

namespace Sound
variable {p : Peer}

theorem register (id : NodeId) (config : ClientConfig) (numbering : Numbering) :
    (Peer.register id config numbering).Sound := by
  obtain ⟨records, groups, -⟩ := Client.dial_cases id config numbering .empty
  constructor
  case claims =>
    show Claims (Client.dial _ _).records []
    rw [records]
    exact .start
  case listed =>
    intro id' k known
    have known : (Client.dial _ _).groups[id']? = some k := known
    rw [groups] at known
    simp at known
  case trail => exact .start _ rfl
  case incoming => exact fun x mem => nomatch mem
  case handed => exact fun x mem => mem.elim (fun mem => nomatch mem) fun mem => nomatch mem
  case down => exact .inl rfl
  case turned => exact turned_of_fresh rfl

section Advance
variable {j : Nat} {job : Job} {m : Membership} {c c' : Client} {s' : CallStage}

theorem moveOn (h : p.Sound) (here : p.jobs[j]? = some job)
    (client : c = { p.client with numbering := c.numbering })
    (record : c.records[job.handle]? = some m)
    (step : Call.CallStep c job.handle m job.call.stage c' s') : (p.moveOn j job c' s').Sound := by
  have records : c.records = p.client.records := by
    rw [client]
  have groups : c.groups = p.client.groups := by
    rw [client]
  constructor
  case claims => exact Claims.advance (records ▸ h.claims) here record step p.made
  case listed =>
    intro id k known
    obtain ⟨m₀, found, name⟩ := h.listed id k (groups ▸ step.known known)
    by_cases eq : k = job.handle
    · subst eq
      obtain rfl := Option.some.inj (record.symm.trans (records ▸ found))
      obtain ⟨m', record', move⟩ := step.moved record
      exact ⟨m', record', move.id.trans name⟩
    · exact ⟨m₀, (step.frame eq).trans (records ▸ found), name⟩
  case trail =>
    have advanced := h.trail.advance here (h.claims.carries j job here) step
    apply advanced.lose
    apply List.Perm.subperm
    unfold Peer.trail Peer.underway Peer.moveOn
    simp only [List.append_assoc]
    apply List.Perm.append_left
    rw [← List.append_assoc _ _ (Option.toList _), ← List.append_assoc _ _ (Option.toList _)]
    exact List.perm_append_comm
  case incoming => exact h.incoming
  case handed => exact h.handed
  case down =>
    obtain no | first | closed := h.down
    · exact .inl no
    · exact .inr (.inl first)
    · right
      right
      apply step.link_none
      rw [client]
      exact closed
  case turned =>
    refine h.turned.mono rfl (fun _ first => first) fun k m₀ record₀ => ?_
    rw [← records] at record₀
    by_cases eq : k = job.handle
    · subst eq
      obtain rfl := Option.some.inj (record.symm.trans record₀)
      obtain ⟨m', record', move⟩ := step.moved record
      exact ⟨m', record', move.id⟩
    · exact ⟨m₀, (step.frame eq).trans record₀, rfl⟩

theorem advance (h : p.Sound) (now : Nat) (numbering : Numbering) (j : Nat) :
    (p.advance now numbering j).Sound := by
  obtain same | ⟨job, m, c, c', s', here, rfl, record, step, eq⟩ := p.advance_cases now numbering j
  · rw [same]
    exact h
  · rw [eq]
    exact h.moveOn here rfl record step

end Advance

section Ask
variable {c : Client} {call : Call}

theorem begin (h : p.Sound) {now : Nat} {a : Ask} (run : a.call? p.client now = some (c, call)) :
    Sound { p with client := c, jobs := p.jobs ++ [(⟨call, none⟩ : Job)] } := by
  obtain ⟨free, idle, ⟨rfl, known⟩ | ⟨id, token, -, rfl, handle⟩⟩ := a.call?_cases run
  · have record : ∃ m, p.client.records[call.handle]? = some m := by
      obtain record | ⟨id, known⟩ := known
      · exact record
      · obtain ⟨m, record, -⟩ := h.listed id _ known
        exact ⟨m, record⟩
    exact ⟨h.claims.begin record free idle, h.listed, h.trail.begin call, h.incoming, h.handed,
      h.down, h.turned⟩
  · have new : ∃ m, (p.client.addGroup id token).2.records[call.handle]? = some m := by
      rw [Client.addGroup_records, handle, if_pos rfl]
      exact ⟨_, rfl⟩
    have old (k : Handle) (m : Membership) (record : p.client.records[k]? = some m) :
        (p.client.addGroup id token).2.records[k]? = some m := by
      rw [Client.addGroup_records, if_neg (Nat.ne_of_lt (h.claims.numbered k m record)).symm]
      exact record
    refine ⟨(h.claims.create id token).begin new free idle, ?_, h.trail.begin call, h.incoming,
      h.handed, h.down, h.turned.mono rfl (fun _ first => first) fun k m record =>
        ⟨m, old k m record, rfl⟩⟩
    intro id' k known
    rw [Client.addGroup_groups] at known
    split at known
    · rename_i eq
      obtain rfl := Option.some.inj known
      exact ⟨_, (p.client.addGroup_records ..).trans (if_pos rfl), eq⟩
    · obtain ⟨m, record, name⟩ := h.listed id' k known
      exact ⟨m, old k m record, name⟩

theorem begin_record {now : Nat} {a : Ask} (run : a.call? p.client now = some (c, call))
    {k : Handle} {m : Membership}
    (record : c.records[k]? = some m) :
    p.client.records[k]? = some m ∨ m.exchange = .idle ∧ m.wait = none := by
  obtain ⟨-, -, ⟨rfl, -⟩ | ⟨id, token, -, rfl, -⟩⟩ := a.call?_cases run
  · exact .inl record
  · rw [Client.addGroup_records] at record
    split at record
    · obtain rfl := Option.some.inj record
      exact .inr ⟨rfl, rfl⟩
    · exact .inl record

theorem begin_kept (h : p.Sound) {now : Nat} {a : Ask} (run : a.call? p.client now = some (c, call))
    {k : Handle} {m : Membership} (record : p.client.records[k]? = some m) :
    c.records[k]? = some m := by
  obtain ⟨-, -, ⟨rfl, -⟩ | ⟨id, token, -, rfl, -⟩⟩ := a.call?_cases run
  · exact record
  · rw [Client.addGroup_records, if_neg (Nat.ne_of_lt (h.claims.numbered k m record)).symm]
    exact record

theorem ask (h : p.Sound) (now : Nat) (a : Ask) : (p.ask now a).Sound := by
  unfold Peer.ask
  split
  · rename_i run
    exact h.begin run
  · exact h

end Ask

theorem transfer (h : p.Sound) {p' : Peer} (transfers : p.Transfers p') : p'.Sound := by
  obtain ⟨toServer, toClient, rfl, incoming, sub⟩ := transfers
  constructor
  case claims => exact h.claims
  case listed => exact h.listed
  case trail =>
    apply h.trail.lose
    unfold Peer.trail Peer.underway
    simp only [List.append_assoc] at sub ⊢
    rw [← List.append_assoc, ← List.append_assoc p.toServer]
    exact sub.append (List.Subperm.refl _)
  case incoming =>
    intro x mem
    obtain old | responds := incoming x mem
    · exact h.incoming x old
    · exact responds
  case handed => exact h.handed
  case down => exact h.down
  case turned => exact h.turned

theorem subperm_rotate {α : Type} {xs ys : List α} (sub : xs.Subperm ys) (as bs cs ds : List α) :
    (as ++ bs ++ (cs ++ xs) ++ ds).Subperm (as ++ (ys ++ bs) ++ cs ++ ds) := by
  have swap : (bs ++ cs ++ xs).Subperm (ys ++ (bs ++ cs)) :=
    ((List.Subperm.refl (bs ++ cs)).append sub).trans List.perm_append_comm.subperm
  have all := ((List.Subperm.refl as).append swap).append (List.Subperm.refl ds)
  simpa only [List.append_assoc] using all

theorem correlate (h : p.Sound) : p.correlate.Sound := by
  obtain same | ⟨x, rest, link, delivery, pending, next, linked, run, eq⟩ := p.correlate_cases
  · rw [same]
    exact h
  · rw [eq]
    obtain ⟨-, passed⟩ := Pending.pass_cases run
    have first : x ∈ p.toClient := by
      rw [next]
      exact List.mem_cons_self
    constructor
    case claims => exact h.claims
    case listed => exact h.listed
    case trail =>
      apply h.trail.lose
      have sub : (List.filterMap Handed.request?
          (delivery.map fun d => (⟨d, x.origin⟩ : Handed)).toList).Subperm
            x.request?.toList := by
        cases delivery with
        | none => exact List.nil_subperm
        | some d =>
          have same : Handed.request? ⟨d, x.origin⟩ = x.request? := rfl
          rw [Option.map_some, Option.toList_some, List.filterMap_cons, same]
          cases x.request? <;> exact List.Subperm.refl _
      have all := subperm_rotate sub p.toServer (rest.filterMap Incoming.request?)
        (p.inbox.filterMap Handed.request?) (p.heard.filterMap Handed.request?)
      have split : p.toClient.filterMap Incoming.request? =
          x.request?.toList ++ rest.filterMap Incoming.request? := by
        rw [next, List.filterMap_cons]
        cases x.request? <;> rfl
      unfold Peer.trail Peer.underway
      rw [split, List.filterMap_append]
      exact all
    case incoming =>
      intro y mem
      apply h.incoming
      rw [next]
      exact List.mem_cons_of_mem x mem
    case handed =>
      intro y mem
      rcases mem with mem | mem
      · rcases List.mem_append.mp mem with mem | mem
        · exact h.handed y (.inl mem)
        · obtain ⟨d, eq, rfl⟩ := Option.map_eq_some_iff.mp (Option.mem_toList.mp mem)
          obtain ⟨packet, -⟩ := passed d eq
          show d.packet.RespondsTo x.request?
          rw [packet]
          exact h.incoming x first
      · exact h.handed y (.inr mem)
    case down =>
      obtain no | dropping | closed := h.down
      · exact .inl no
      · exact .inr (.inl dropping)
      · rw [linked] at closed
        contradiction
    case turned =>
      refine h.turned.mono rfl (fun y first => ?_) fun k m record => ⟨m, record, rfl⟩
      obtain ⟨rest', inbox⟩ := List.head?_eq_some_iff.mp first
      show y ∈ (p.inbox ++ _).head?
      rw [inbox]
      rfl

theorem look (h : p.Sound) {x : Handed} {rest : List Handed} (next : p.inbox = x :: rest)
    {taking : Intake} (step : p.taking.Step p.client x.delivery p.client (some taking)) :
    Sound { p with taking } := by
  refine ⟨h.claims, h.listed, h.trail, h.incoming, h.handed, h.down, fun k looked => ?_⟩
  show ∃ x ∈ p.inbox.head?, _
  have first : x ∈ p.inbox.head? := by
    rw [next]
    rfl
  obtain found | ⟨id, t, told, known⟩ := step.handle looked
  · exact h.turned k found
  · obtain ⟨m, record, rfl⟩ := h.listed id k known
    exact ⟨x, first, m, t, record, told⟩

theorem dispatch (h : p.Sound) : p.dispatch.Sound := by
  cases next : p.inbox with
  | nil =>
    rw [dispatch_nil next]
    exact h
  | cons x rest =>
    obtain ⟨taking, step, eq⟩ | ⟨client, step, eq⟩ := dispatch_cases next
    · rw [eq]
      exact h.look next step
    · have handed (y : Handed) (mem : y ∈ p.dispatch.inbox ∨ y ∈ p.dispatch.heard) :=
        h.handed y (dispatch_mem mem)
      rw [eq] at handed ⊢
      have kept := step.kept
      constructor
      case claims => exact h.claims.kept kept
      case listed =>
        intro id k known
        rw [kept.groups] at known
        obtain ⟨m, record, name⟩ := h.listed id k known
        obtain ⟨m', record', change⟩ := kept.forth record
        exact ⟨m', record', change.id.trans name⟩
      case trail =>
        apply h.trail.lose
        have split (ys : List Handed) : (x :: ys).filterMap Handed.request? =
            x.request?.toList ++ ys.filterMap Handed.request? := by
          rw [List.filterMap_cons]
          cases x.request? <;> rfl
        unfold Peer.trail Peer.underway
        rw [next, split, split]
        simp only [List.append_assoc]
        apply List.Perm.subperm
        apply List.Perm.append_left
        apply List.Perm.append_left
        rw [← List.append_assoc, ← List.append_assoc]
        exact List.perm_append_comm.append_right _
      case incoming => exact h.incoming
      case handed => exact handed
      case down =>
        rw [step.link_eq]
        exact h.down
      case turned => exact turned_of_fresh rfl

/-- A packet changes at most the record that was looked up for it, when the client is done with
it. -/
theorem dispatch_record (h : p.Sound) {x : Handed} {rest : List Handed}
    (next : p.inbox = x :: rest) {k : Handle} {m' : Membership}
    (record' : p.dispatch.client.records[k]? = some m') : ∃ m, p.client.records[k]? = some m ∧
      (m' = m ∨ ∃ t, x.delivery.tidings? = some (m.id, t) ∧ p.taking.handle? = some k ∧
        (t.token? = none ∨ p.taking = .matched k) ∧ p.dispatch.heard = x :: p.heard ∧
          m' = m.heed p.client.id x.delivery.packet.seq t) := by
  obtain ⟨taking, -, eq⟩ | ⟨client, step, eq⟩ := dispatch_cases next
  · rw [eq] at record'
    exact ⟨m', record', .inl rfl⟩
  · rw [eq] at record'
    obtain ⟨m, record, rfl | ⟨id, t, told, looked, ready, -, rfl⟩⟩ := step.record record'
    · exact ⟨m', record, .inl rfl⟩
    · obtain ⟨y, first, m₀, t₀, record₀, told₀⟩ := h.turned k looked
      rw [next] at first
      obtain rfl := Option.some.inj first
      obtain rfl := Option.some.inj (record.symm.trans record₀)
      obtain ⟨rfl, rfl⟩ := Prod.mk.inj (Option.some.inj (told.symm.trans told₀))
      exact ⟨m, record, .inr ⟨t, told, looked, ready, by rw [eq], rfl⟩⟩

theorem tearDown_link (p : Peer) :
    p.tearDown.client.link = p.client.link ∨ p.tearDown.client.link = none := by
  obtain ⟨k, rest, -, eq⟩ | ⟨-, -, ⟨same, -⟩ | none⟩ :=
    p.client.shutdown_cases (p.closing.getD .stopRunning)
  · left
    show ((p.closing.getD .stopRunning).step p.client).1.link = _
    rw [eq]
    rfl
  · exact .inl same
  · exact .inr none

theorem tearDown (h : p.Sound) (whole : p.taking = .fresh) : p.tearDown.Sound := by
  have kept := p.client.shutdown_kept (p.closing.getD .stopRunning)
  have link := tearDown_link p
  constructor
  case claims => exact h.claims.kept kept
  case listed =>
    intro id k known
    have known : ((p.closing.getD .stopRunning).step p.client).1.groups[id]? = some k := known
    rw [kept.groups] at known
    obtain ⟨m, record, name⟩ := h.listed id k known
    obtain ⟨m', record', change⟩ := kept.forth record
    exact ⟨m', record', change.id.trans name⟩
  case trail =>
    apply h.trail.lose
    apply List.Sublist.subperm
    unfold Peer.trail Peer.underway Peer.tearDown
    dsimp only
    split
    · exact List.Sublist.refl _
    · apply List.Sublist.append_right
      rw [List.append_assoc, List.append_assoc]
      exact (List.Sublist.refl _).append (List.nil_sublist _)
  case incoming =>
    intro x mem
    unfold Peer.tearDown at mem
    dsimp only at mem
    split at mem
    · exact h.incoming x mem
    · contradiction
  case handed =>
    intro x mem
    unfold Peer.tearDown at mem
    dsimp only at mem
    apply h.handed
    rcases mem with mem | mem
    · split at mem
      · exact .inl mem
      · contradiction
    · exact .inr mem
  case down =>
    cases hc : p.closing with
    | none =>
      refine .inr (.inl ?_)
      unfold Peer.tearDown
      rw [hc]
      rfl
    | some s =>
      right
      right
      obtain no | dropping | closed := h.down
      · rw [hc] at no
        contradiction
      · unfold Peer.tearDown
        rw [dropping]
        rfl
      · rcases link with same | none
        · exact same.trans closed
        · exact none
  case turned => exact turned_of_fresh whole

/-- Only a connection that is gone already can lose its groups. -/
theorem tearDown_record (h : p.Sound) {k : Handle} {m' : Membership}
    (record : p.tearDown.client.records[k]? = some m') : ∃ m, p.client.records[k]? = some m ∧
      (m' = m ∨ m' = m.connectionLost ∧ p.client.link = none) := by
  have record : ((p.closing.getD .stopRunning).step p.client).1.records[k]? = some m' := record
  obtain ⟨k', rest, losing, eq⟩ | ⟨same, -, -⟩ :=
    p.client.shutdown_cases (p.closing.getD .stopRunning)
  · rw [eq, Client.update_records] at record
    split at record
    · obtain ⟨m, found, rfl⟩ := Option.map_eq_some_iff.mp record
      refine ⟨m, found, .inr ⟨rfl, ?_⟩⟩
      obtain no | dropping | gone := h.down
      · rw [no] at losing
        contradiction
      · rw [dropping] at losing
        contradiction
      · exact gone
    · exact ⟨m', record, .inl rfl⟩
  · rw [same] at record
    exact ⟨m', record, .inl rfl⟩

end Sound
end Peer
end Muster
