import Muster.Proofs.Client.View
import Muster.Proofs.Network.Enrolled

/-! A client that minds some rules is on its way to see a group as the server does: when it has
taken in what has been said to it, it knows whether it is a member, and who else is. -/
namespace Muster

/-- Once the server has let a client go from a group, by the token that the client knows the group
by, the call that asked for that waits for the answer, and waits on the record that the client has
of the group. It has not given up, and its record was not forgotten. -/
structure Peer.Minds (p : Peer) (id : NodeId) : Prop where
  outstanding : ∀ m ∈ p.client.group? id, ∀ x ∈ p.toClient.head?, x.word.Ends ⟨id, m.token⟩ →
    p.client.pending[x.packet.seq]? ≠ none
  awaited : ∀ m ∈ p.client.group? id, ∀ x ∈ p.inbox.head?, x.word.Ends ⟨id, m.token⟩ →
    m.exchange = .awaiting x.delivery.packet.seq

instance (p : Peer) (id : NodeId) : Decidable (p.Minds id) :=
  decidable_of_iff (_ ∧ _) ⟨fun h => ⟨h.1, h.2⟩, fun h => ⟨h.outstanding, h.awaited⟩⟩

/-- When a client comes to know a group by another token, it is new to that group: neither side
takes it for a member, nothing about the group is on its way to it, and it is not just taking in
members that its record had matched by the former token. -/
def Peer.Begins (p : Peer) (s : Server) (i : ConnId) (id : NodeId) (p' : Peer) : Prop :=
  ∀ m' ∈ p'.client.group? id, (∀ m ∈ p.client.group? id, m.token ≠ m'.token) →
    m'.members = none ∧ s.directory.roster i ⟨id, m'.token⟩ = none ∧
      (∀ w ∈ p.words, w.body.group? ≠ some ⟨id, m'.token⟩) ∧
        ∀ h ∈ p.client.groups[id]?, p.taking ≠ .matched h

instance (p : Peer) (s : Server) (i : ConnId) (id : NodeId) (p' : Peer) :
    Decidable (p.Begins s i id p') :=
  inferInstanceAs (Decidable (∀ m' ∈ p'.client.group? id,
    (∀ m ∈ p.client.group? id, m.token ≠ m'.token) → m'.members = none ∧
      s.directory.roster i ⟨id, m'.token⟩ = none ∧
        (∀ w ∈ p.words, w.body.group? ≠ some ⟨id, m'.token⟩) ∧
          ∀ h ∈ p.client.groups[id]?, p.taking ≠ .matched h))

/-- What a client is taking in is for the record that it has of a group, or it is not about the
group by the token of that record. -/
structure Peer.Aimed (p : Peer) (id : NodeId) : Prop where
  aside (h : Handle) (looked : p.taking.handle? = some h) (other : p.client.groups[id]? ≠ some h) :
    ∀ m ∈ p.client.group? id, ∀ x ∈ p.inbox.head?, x.word.body.group? ≠ some ⟨id, m.token⟩
  matched (h : Handle) (taking : p.taking = .matched h) (group : p.client.groups[id]? = some h) :
    ∀ m ∈ p.client.group? id, ∀ x ∈ p.inbox.head?, x.word.body.group? = some ⟨id, m.token⟩

/-- What keeps a client's view of a group in step with the server. -/
structure Informed (s : Server) (i : ConnId) (id : NodeId) (p : Peer) : Prop where
  named : s.directory.Names id i p.client.id
  settled (m : Membership) (known : p.client.group? id = some m) :
    Settles p.client.id ⟨id, m.token⟩ p.words m.members (s.directory.roster i ⟨id, m.token⟩)
  aimed : p.Aimed id

theorem Body.Answers.group? {body request : Body} (answers : body.Answers request) :
    body.group? = request.group? :=
  match body, request, answers with
  | .registerResponse .., .registerRequest .., _ => rfl
  | .joinResponse .., .joinRequest .., rfl => rfl
  | .leaveResponse .., .leaveRequest .., rfl => rfl
  | .syncResponse .., .syncRequest .., ⟨rfl, _⟩ => rfl

theorem Body.Answers.tidings? {d : Delivery} {r : Message} (request : d.request = some r)
    (answers : d.packet.message.body.Answers r.body) :
    d.tidings? = d.packet.message.body.tidings? := by
  unfold Delivery.tidings?
  rw [request, Option.map_some]
  generalize d.packet.message.body = body at answers
  generalize r.body = asked at answers
  match body, asked, answers with
  | .registerResponse .., .registerRequest .., _ => rfl
  | .joinResponse .., .joinRequest .., rfl => rfl
  | .leaveResponse .., .leaveRequest .., rfl => rfl
  | .syncResponse .., .syncRequest .., ⟨rfl, _⟩ => rfl

theorem Handed.Genuine.tidings? {x : Handed} (genuine : x.Genuine) :
    x.delivery.tidings? = x.delivery.packet.message.body.tidings? := by
  obtain ⟨responds, request⟩ := genuine
  cases origin : x.request? with
  | none =>
    rw [origin] at responds
    have role : x.delivery.packet.message.body.kind.role ≠ .response := responds
    unfold Delivery.tidings?
    generalize x.delivery.packet.message.body = body at role
    cases body with
    | joinResponse | leaveResponse | syncResponse => exact absurd rfl role
    | _ => rfl
  | some r =>
    rw [origin] at responds request
    exact responds.2.2.tidings? request

namespace Peer.Orderly
variable {p : Peer} {x : Handed} {rest : List Handed} {id : NodeId} {m : Membership}

theorem own_group (h : p.Orderly) (apart : p.Apart) (next : p.inbox = x :: rest) {t : Tidings}
    (tidings : x.delivery.tidings? = some (id, t)) (answer : t.reply?.isSome)
    {k : Handle} (record : p.client.records[k]? = some m)
    (awaited : m.exchange = .awaiting x.delivery.packet.seq) :
    x.delivery.packet.message.body.group? = some m.ref := by
  have knows : m.Knows x.delivery.packet.seq .lock := awaited
  obtain ⟨j, job, r, here, rfl, claim, notes, -, request, own⟩ :=
    h.own_answer apart next tidings (.inl answer) record knows
  obtain ⟨responds, -⟩ := h.handed x (.inl (by rw [next]; exact List.mem_cons_self))
  rw [own] at responds
  obtain ⟨-, -, answers⟩ := responds
  exact answers.group?.trans (h.claims.sought j job here claim notes r request m record)

/-- What a client makes of the next thing, when it is done with it. -/
theorem turns (h : p.Orderly) (apart : p.Apart) (minds : p.Minds id) (aimed : p.Aimed id)
    (next : p.inbox = x :: rest) {c : Client} (step : p.taking.Step p.client x.delivery c none)
    {m' : Membership} (known' : c.group? id = some m') :
    ∃ m, p.client.group? id = some m ∧ m.token = m'.token ∧
      x.word.Turns p.client.id ⟨id, m.token⟩ m.members m'.members := by
  have first : x ∈ p.inbox.head? := by
    rw [next]
    rfl
  have tidings : x.delivery.tidings? = x.word.body.tidings? :=
    (h.handed x (.inl (List.mem_of_mem_head? first))).tidings?
  have silent {m : Membership} (other : x.word.body.group? ≠ some ⟨id, m.token⟩) :
      x.word.Turns p.client.id ⟨id, m.token⟩ m.members m.members := Word.turns_of_aside other
  obtain ⟨k, group', record'⟩ := Client.group?_eq_some_iff.mp known'
  have group : p.client.groups[id]? = some k := step.kept.groups ▸ group'
  have known {m : Membership} (record : p.client.records[k]? = some m) :
      p.client.group? id = some m := Client.group?_eq_some_iff.mpr ⟨k, group, record⟩
  -- The record that was looked up may not be the one that the group has by now.
  have elsewhere {h : Handle} (looked : p.taking.handle? = some h) (ne : h ≠ k)
      (same : c.records[k]? = p.client.records[k]?) : ∃ m, p.client.group? id = some m ∧
        m.token = m'.token ∧ x.word.Turns p.client.id ⟨id, m.token⟩ m.members m'.members := by
    have known := known (same ▸ record')
    refine ⟨m', known, rfl, silent (aimed.aside h looked ?_ m' known x first)⟩
    rw [group]
    exact fun eq => ne (Option.some.inj eq).symm
  generalize stage : p.taking = taking at step
  cases step with
  | untold untold =>
    have same : (p.client.receive x.delivery).records = p.client.records := by
      obtain same | ⟨token, code, -, eq⟩ := Client.receive_of_none (c := p.client) untold
      · rw [same]
      · rw [eq, Client.registerAnswered_records]
    rw [same] at record'
    refine ⟨m', known record', rfl, Word.turns_of_untold fun t told => ?_⟩
    exact nomatch untold.symm.trans (tidings.trans told)
  | @unknown name t told unknown =>
    refine ⟨m', known record', rfl, Word.turns_of_untold fun t told' => ?_⟩
    obtain ⟨rfl, -⟩ := Prod.mk.inj (Option.some.inj (told.symm.trans (tidings.trans told')))
    exact nomatch unknown.symm.trans group
  | @miss name t h' token told named other =>
    by_cases eq : h' = k
    · subst eq
      refine ⟨m', known record', rfl, silent fun about => other m' record' ?_⟩
      obtain ⟨ref, about', -, same⟩ := Body.group?_of_tidings (tidings.symm.trans told)
      obtain rfl := Option.some.inj (about.symm.trans about')
      exact (same token named).symm
    · exact elsewhere (by rw [stage]; rfl) eq rfl
  | @change name t h' _ told looked ready =>
    by_cases eq : h' = k
    · subst eq
      rw [Client.update_records, if_pos rfl] at record'
      obtain ⟨m, record, rfl⟩ := Option.map_eq_some_iff.mp record'
      refine ⟨m, known record, m.heed_kept.token.symm, ?_⟩
      obtain ⟨m₀, record₀, rfl⟩ := h.listed id h' group
      obtain rfl := Option.some.inj (record.symm.trans record₀)
      obtain ⟨y, first', m₁, t', record₁, told'⟩ := h.turned h' (stage ▸ looked)
      obtain rfl := Option.some.inj (first.symm.trans first')
      obtain rfl := Option.some.inj (record.symm.trans record₁)
      obtain ⟨rfl, rfl⟩ := Prod.mk.inj (Option.some.inj (told.symm.trans told'))
      apply Word.turns_of_heed (w := x.word) (tidings.symm.trans told)
      case named =>
        intro token named
        obtain none | rfl := ready
        · exact nomatch none.symm.trans named
        · obtain ⟨ref, about, -, same⟩ := Body.group?_of_tidings (tidings.symm.trans told)
          obtain rfl := Option.some.inj
            (about.symm.trans (aimed.matched h' stage group m (known record) x first))
          exact same token named
      case sought => exact fun answer awaits => h.own_group apart next told answer record awaits
      case awaited => exact minds.awaited m (known record) x first
    · refine elsewhere (stage ▸ looked) eq ?_
      exact (Client.update_records ..).trans (if_neg eq)

end Peer.Orderly

namespace Peer.Aimed
variable {p p' : Peer} {id : NodeId}

theorem of_fresh (fresh : p.taking = .fresh) : p.Aimed id := by
  constructor
  case aside =>
    intro h looked
    rw [fresh] at looked
    exact nomatch looked
  case matched => exact fun h matched => nomatch fresh.symm.trans matched

theorem mono (h : p.Aimed id) (turned : p.Turned) (taking : p'.taking = p.taking)
    (groups : p'.client.groups = p.client.groups) (records : p'.client.records = p.client.records)
    (inbox : p.inbox <+: p'.inbox) : p'.Aimed id := by
  have group : p'.client.group? id = p.client.group? id := by
    unfold Client.group?
    rw [groups, records]
  have head {k : Handle} (looked : p.taking.handle? = some k) {x : Handed}
      (first : x ∈ p'.inbox.head?) : x ∈ p.inbox.head? := by
    obtain ⟨y, first', -⟩ := turned k looked
    obtain ⟨rest, eq⟩ := List.head?_eq_some_iff.mp first'
    obtain ⟨more, eq'⟩ := inbox
    rw [← eq', eq] at first
    obtain rfl := Option.some.inj first
    exact first'
  constructor
  case aside =>
    rw [taking, groups, group]
    exact fun k looked other m known x first => h.aside k looked other m known x (head looked first)
  case matched =>
    rw [taking, groups, group]
    intro k matched known m record x first
    refine h.matched k matched known m record x (head (k := k) ?_ first)
    rw [matched]
    rfl

/-- What the client does by itself leaves what is being taken in where it was aimed at, as long
as it begins anew what it begins. -/
theorem move (h : p.Aimed id) (turned : p.Turned) {s : Server} {i : ConnId}
    (begins : p.Begins s i id p') (taking : p'.taking = p.taking) (inbox : p'.inbox = p.inbox)
    (groups : ∀ k : Handle, p'.client.groups[id]? = some k → p.client.groups[id]? = some k ∨
      p.client.groups[id]? = none ∧ p.client.records[k]? = none) : p'.Aimed id := by
  constructor
  case aside =>
    rw [taking, inbox]
    intro k looked other m' known' x first
    by_cases old : ∃ m, p.client.group? id = some m ∧ m.token = m'.token
    · obtain ⟨m, known, same⟩ := old
      rw [← same]
      refine h.aside k looked (fun group => ?_) m known x first
      obtain ⟨k', group', -⟩ := Client.group?_eq_some_iff.mp known'
      obtain before | ⟨none, -⟩ := groups k' group'
      · obtain rfl := Option.some.inj (group.symm.trans before)
        exact other group'
      · exact nomatch none.symm.trans group
    · obtain ⟨-, -, silent, -⟩ := begins m' known' fun m known same => old ⟨m, known, same⟩
      apply silent
      exact List.mem_append_left _ (List.mem_map.mpr ⟨x, List.mem_of_mem_head? first, rfl⟩)
  case matched =>
    rw [taking, inbox]
    intro k matched group' m' known' x first
    obtain group | ⟨-, none⟩ := groups k group'
    · by_cases old : ∃ m, p.client.group? id = some m ∧ m.token = m'.token
      · obtain ⟨m, known, same⟩ := old
        rw [← same]
        exact h.matched k matched group m known x first
      · obtain ⟨-, -, -, unmatched⟩ := begins m' known' fun m known same => old ⟨m, known, same⟩
        exact absurd matched (unmatched k group)
    · obtain ⟨-, -, m, -, record, -⟩ := turned k (by rw [matched]; rfl)
      exact nomatch none.symm.trans record

theorem look (h : p.Aimed id) (orderly : p.Orderly) {x : Handed} {rest : List Handed}
    (next : p.inbox = x :: rest) {c : Client} {taking : Intake}
    (step : p.taking.Step p.client x.delivery c (some taking)) :
    Aimed { p with taking } id := by
  have first : x ∈ p.inbox.head? := by
    rw [next]
    rfl
  have tidings : x.delivery.tidings? = x.word.body.tidings? :=
    (orderly.handed x (.inl (List.mem_of_mem_head? first))).tidings?
  have turned := orderly.turned
  have aside := h.aside
  unfold Peer.Turned at turned
  generalize p.taking = before at step turned aside
  cases step with
  | @find name t k told known =>
    obtain ⟨ref, about, named, -⟩ := Body.group?_of_tidings (tidings.symm.trans told)
    constructor
    case aside =>
      intro k' looked other m known' y first' eq
      obtain rfl := Option.some.inj looked
      obtain rfl := Option.some.inj (first.symm.trans first')
      obtain rfl := Option.some.inj (about.symm.trans eq)
      obtain rfl : id = name := named
      exact other known
    case matched => exact fun k' found => nomatch found
  | @«match» name t k m told named record =>
    constructor
    case aside => exact fun k' looked => aside k' looked
    case matched =>
      intro k' matched group m' known' y first'
      obtain rfl := Intake.matched.inj matched
      obtain rfl := Option.some.inj (first.symm.trans first')
      obtain ⟨k', group', record'⟩ := Client.group?_eq_some_iff.mp known'
      obtain rfl := Option.some.inj (Eq.trans group.symm group')
      obtain rfl := Option.some.inj (record.symm.trans record')
      obtain ⟨m₀, record₀, rfl⟩ := orderly.listed id k group
      obtain rfl := Option.some.inj (record.symm.trans record₀)
      obtain ⟨z, first'', m₁, t', record₁, told'⟩ := turned k rfl
      obtain rfl := Option.some.inj (first.symm.trans first'')
      obtain rfl := Option.some.inj (record.symm.trans record₁)
      obtain ⟨rfl, -⟩ := Prod.mk.inj (Option.some.inj (told.symm.trans told'))
      obtain ⟨ref, about, name, token⟩ := Body.group?_of_tidings (tidings.symm.trans told)
      rw [about, ← name, token m.token named]

end Peer.Aimed

namespace Informed
open Network
variable {s s' : Server} {i : ConnId} {id : NodeId} {p p' : Peer}

theorem register {own : NodeId} {config : ClientConfig} {numbering : Numbering}
    (named : s.directory.Names id i (Peer.register own config numbering).client.id) :
    Informed s i id (.register own config numbering) := by
  obtain ⟨-, groups, -⟩ := Client.dial_cases own config numbering .empty
  refine ⟨named, fun m known => ?_, .of_fresh rfl⟩
  obtain ⟨h, group, -⟩ := Client.group?_eq_some_iff.mp known
  rw [show (Peer.register own config numbering).client.groups = ∅ from groups] at group
  simp at group

theorem arrive (h : Informed s i id p) (turned : p.Turned) (linked : p.client.link ≠ none)
    {xs : List Incoming} (informs : ∀ token, Informs p.client.id i ⟨id, token⟩ s.directory
      s'.directory (xs.map Incoming.word)) : Informed s' i id (p.arrive xs) := by
  obtain ⟨client, -, -⟩ := p.arrive_frame xs
  constructor
  case named =>
    rw [client]
    exact (informs .null).named
  case settled =>
    rw [client, Peer.words_arrive linked]
    exact fun m known => (h.settled m known).append (informs m.token).settles
  case aimed =>
    unfold Peer.arrive
    split
    · exact h.aimed.mono turned rfl rfl rfl (List.prefix_refl _)
    · exact h.aimed

theorem serve (h : Informed s i id p) : Informed s i id p.serve :=
  ⟨h.named, h.settled, h.aimed.aside, h.aimed.matched⟩

theorem answer (h : Informed s i id p) (turned : p.Turned) (enrolled : Enrolled s i p)
    (linked : p.client.link ≠ none) (empty : s.outbox = []) (now : Nat) {r : Request}
    {rest : List Request} (next : p.toServer = r :: rest) {removed : Bool}
    (removal : removed = removes s (s.handle now i r.packet.seq r.packet.message) i
      r.packet.message.body) :
    Informed { s.handle now i r.packet.seq r.packet.message with outbox := [] } i id
      (p.serve.arrive (arrivals (some ⟨r, removed⟩)
        (s.handle now i r.packet.seq r.packet.message).outbox i)) := by
  have mem : r ∈ p.toServer := by
    rw [next]
    exact List.mem_cons_self
  exact h.serve.arrive turned linked fun token =>
    answer_informs empty h.named now r (enrolled.authenticate mem) removal

/-- What the client does by itself changes no members, and it begins anew what it begins. -/
theorem move (h : Informed s i id p) (turned : p.Turned) (begins : p.Begins s i id p')
    (own : p'.client.id = p.client.id) (taking : p'.taking = p.taking)
    (inbox : p'.inbox = p.inbox) (toClient : p'.toClient = p.toClient)
    (groups : ∀ k : Handle, p'.client.groups[id]? = some k → p.client.groups[id]? = some k ∨
      p.client.groups[id]? = none ∧ p.client.records[k]? = none)
    (kept : ∀ m m', p.client.group? id = some m → p'.client.group? id = some m' →
      m.token = m'.token → m'.members = m.members) : Informed s i id p' := by
  have words : p'.words = p.words := by
    unfold Peer.words
    rw [inbox, toClient]
  constructor
  case named =>
    rw [own]
    exact h.named
  case settled =>
    intro m' known'
    rw [own, words]
    by_cases old : ∃ m, p.client.group? id = some m ∧ m.token = m'.token
    · obtain ⟨m, known, same⟩ := old
      rw [kept m m' known known' same, ← same]
      exact h.settled m known
    · obtain ⟨out, gone, silent, -⟩ := begins m' known' fun m known same => old ⟨m, known, same⟩
      rw [out, gone]
      exact Silent.of_forall (fun w mem v v' => Word.turns_of_other (silent w mem)) none
  case aimed => exact h.aimed.move turned begins taking inbox groups

theorem ask (h : Informed s i id p) (orderly : p.Orderly) (now : Nat) (a : Ask)
    (begins : p.Begins s i id (p.ask now a)) : Informed s i id (p.ask now a) := by
  unfold Peer.ask at begins ⊢
  split at begins
  · rename_i token₀ c call standing run
    obtain ⟨-, -, ⟨rfl, -⟩ | ⟨name, token, unknown, rfl, -⟩⟩ := a.call?_cases run
    · exact ⟨h.named, h.settled, h.aimed.aside, h.aimed.matched⟩
    · have numbered (k : NodeId) (h : Handle) (group : p.client.groups[k]? = some h) :
          h < p.client.records.size := by
        obtain ⟨m, record, -⟩ := orderly.listed k h group
        exact orderly.claims.numbered h m record
      refine h.move orderly.turned begins rfl rfl rfl rfl (fun k group => ?_)
        fun m m' known known' _ => ?_
      · replace group : (p.client.addGroup name token).2.groups[id]? = some k := group
        rw [Client.addGroup_groups] at group
        split at group
        · rename_i same
          subst same
          obtain rfl := Option.some.inj group
          refine .inr ⟨unknown, Option.eq_none_iff_forall_ne_some.mpr fun m record => ?_⟩
          exact Nat.lt_irrefl _ (orderly.claims.numbered _ m record)
        · exact .inl group
      · rw [Client.addGroup_group? unknown token numbered known' known]
  · exact h

theorem advance (h : Informed s i id p) (turned : p.Turned) (now : Nat) (numbering : Numbering)
    (j : Nat) (begins : p.Begins s i id (p.advance now numbering j)) :
    Informed s i id (p.advance now numbering j) := by
  obtain same | ⟨job, m, c, c', s', here, client, record, step, eq⟩ :=
    p.advance_cases now numbering j
  · rw [same]
    exact h
  · rw [eq] at begins ⊢
    refine h.move turned begins ?_ rfl rfl rfl (fun k group => .inl ?_)
      fun m₀ m₁ known known' _ => ?_
    · show c'.id = _
      rw [step.frame_standing.2, client]
    · have known := step.known group
      rw [client] at known
      exact known
    · obtain ⟨m₂, known₂, members⟩ := step.group? record known'
      rw [client] at known₂
      obtain rfl := Option.some.inj (known.symm.trans known₂)
      exact members

theorem correlate (h : Informed s i id p) (turned : p.Turned) (minds : p.Minds id) :
    Informed s i id p.correlate := by
  obtain ⟨⟨link, client⟩, -, -, -⟩ := p.correlate_frame
  have group : p.correlate.client.group? id = p.client.group? id := by
    rw [client]
    rfl
  have own : p.correlate.client.id = p.client.id := by rw [client]
  constructor
  case named =>
    rw [own]
    exact h.named
  case settled =>
    rw [group, own]
    intro m known
    obtain same | ⟨x, rest, next, response, unknown, eq⟩ := p.words_correlate
    · rw [same]
      exact h.settled m known
    · rw [eq]
      have settled := h.settled m known
      unfold Peer.words at settled
      rw [next] at settled
      apply settled.drop
      intro v
      refine Word.turns_self (w := x.word) response fun about => ?_
      by_contra parts
      refine minds.outstanding m known x ?_ ⟨Bool.of_not_eq_false parts, about⟩ unknown
      rw [next]
      rfl
  case aimed =>
    obtain same | ⟨x, rest, link, delivery, pending, -, -, -, eq⟩ := p.correlate_cases
    · rw [same]
      exact h.aimed
    · rw [eq]
      exact h.aimed.mono turned rfl rfl rfl (List.prefix_append _ _)

theorem dispatch (h : Informed s i id p) (orderly : p.Orderly) (apart : p.Apart)
    (minds : p.Minds id) : Informed s i id p.dispatch := by
  cases next : p.inbox with
  | nil =>
    rw [Peer.dispatch_nil next]
    exact h
  | cons x rest =>
    obtain ⟨taking, step, eq⟩ | ⟨c, step, eq⟩ := Peer.dispatch_cases next
    · rw [eq]
      exact ⟨h.named, h.settled, h.aimed.look orderly next step⟩
    · rw [eq]
      constructor
      case named =>
        rw [step.id_eq]
        exact h.named
      case settled =>
        intro m' known'
        obtain ⟨m, known, same, turns⟩ := orderly.turns apart minds h.aimed next step known'
        have settled := h.settled m known
        unfold Peer.words at settled
        rw [next] at settled
        rw [step.id_eq, ← same]
        exact settled.tail turns
      case aimed => exact .of_fresh rfl

theorem tearDown (h : Informed s i id p) (orderly : p.Orderly) (whole : p.taking = .fresh)
    (linked : p.tearDown.client.link ≠ none) : Informed s i id p.tearDown := by
  obtain ⟨-, words, -, -, client⟩ := Peer.tearDown_frame orderly linked
  constructor
  case named =>
    rw [client]
    exact h.named
  case settled =>
    rw [words, client]
    exact h.settled
  case aimed => exact .of_fresh whole

theorem turn (h : p.client.link ≠ none → Informed s i id p)
    (enrolled : p.client.link ≠ none → Enrolled s i p) (orderly : p.Orderly) (apart : p.Apart)
    (minds : p.Minds id) (begins : p.Begins s i id p') (empty : s.outbox = [])
    (turn : Turn s i p s' p') (linked' : p'.client.link ≠ none) : Informed s' i id p' := by
  have linked := turn.linked orderly linked'
  have h := h linked
  have turned := orderly.turned
  cases turn with
  | same => exact h
  | ask now a => exact h.ask orderly now a begins
  | advance now numbering j => exact h.advance turned now numbering j begins
  | correlate => exact h.correlate turned minds
  | dispatch => exact h.dispatch orderly apart minds
  | tearDown whole => exact h.tearDown orderly whole linked'
  | expire now => exact h.arrive turned linked fun token => expire_informs empty h.named now
  | lose now other =>
    exact h.arrive turned linked fun token => lose_informs empty h.named other now
  | hangUp now gone => exact absurd gone linked
  | overhear now r removed other =>
    exact h.arrive turned linked fun token => overhear_informs empty h.named other now r removed
  | answer now next removal =>
    exact h.answer turned (enrolled linked) linked empty now next removal

end Informed
end Muster
