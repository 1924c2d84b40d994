import Muster.Proofs.Directory.Audience
import Muster.Proofs.Server.Retry
import Muster.Server.Switchboard

/-! What comes of it when a switchboard hands out its outbox. Connections that fail are closed, the
notices that they have left are handed out as well, and in the end nobody is known to the server
whose connection is closed. -/
namespace Muster

def Link.sendAll (l : Link) (ps : List Packet) : Link := ps.foldl (fun l p => (l.send p).2) l

@[simp] theorem Link.sendAll_nil (l : Link) : l.sendAll [] = l := rfl

@[simp] theorem Link.sendAll_cons (l : Link) (p : Packet) (ps : List Packet) :
    l.sendAll (p :: ps) = (l.send p).2.sendAll ps := rfl

def packetsFor (c : ConnId) (out : List Outgoing) : List Packet :=
  (out.filter fun o => o.receiver = c).map Outgoing.packet

theorem packetsFor_cons_self (o : Outgoing) (out : List Outgoing) :
    packetsFor o.receiver (o :: out) = o.packet :: packetsFor o.receiver out := by
  simp [packetsFor]

theorem packetsFor_cons_of_ne {o : Outgoing} {c : ConnId} (other : o.receiver ≠ c)
    (out : List Outgoing) : packetsFor c (o :: out) = packetsFor c out := by
  simp [packetsFor, other]

namespace Server

/-- Whether a connection is found anywhere in the server's records: under a name, as registered,
among the members of a group or among the arrivals at a sync point. -/
def Knows (s : Server) (c : ConnId) : Prop :=
  (∃ id : NodeId, s.clients[id]? = some c) ∨ s.registrations.contains c = true ∨
    ∃ (id : NodeId) (g : Group), s.directory.groups[id]? = some g ∧
      (g.members.contains c = true ∨
        ∃ (name : NodeId) (p : SyncPoint), g.points[name]? = some p ∧ p.arrived.contains c = true)

/-- Names belong to registered connections, and who has arrived at a sync point is a member. -/
structure Coherent (s : Server) : Prop where
  clients : ∀ (id : NodeId) (c : ConnId), s.clients[id]? = some c →
    ∃ token, s.registrations[c]? = some ⟨id, token⟩
  gathered : ∀ (id : NodeId) (g : Group), s.directory.groups[id]? = some g → g.Gathered

theorem History.coherent {config : ServerConfig} {token : Token} {t₀ : Nat}
    {numbering : Numbering} {tokens : TokenSource} {past : List Episode} {s : Server}
    (h : History (.start config token t₀ numbering tokens) past s) : s.Coherent where
  clients id c := (h.registry.inverse id c).mp
  gathered id := h.run.gathered id

variable {s : Server}

/-- Whom a coherent server knows is registered or a member of a group. -/
theorem Coherent.knows (h : s.Coherent) {c : ConnId} (known : s.Knows c) :
    (∃ r, s.registrations[c]? = some r) ∨ ∃ id member, s.directory.member? id c = some member := by
  rcases known with ⟨id, client⟩ | registered | ⟨id, g, group, present | ⟨name, p, point, arrived⟩⟩
  · obtain ⟨token, registered⟩ := h.clients id c client
    exact .inl ⟨_, registered⟩
  · exact .inl (Table.contains_iff.mp registered)
  · obtain ⟨member, present⟩ := Table.contains_iff.mp present
    exact .inr ⟨id, member, Directory.member?_eq_some.mpr ⟨g, group, present⟩⟩
  · obtain ⟨member, arrived⟩ := Table.contains_iff.mp arrived
    have present := h.gathered id g group name p point c member arrived
    exact .inr ⟨id, member, Directory.member?_eq_some.mpr ⟨g, group, present⟩⟩

/-- Who is left in a group after a removal was a member, and so were those who had arrived. -/
theorem removeConnection_gathered {d : Directory} (now : Nat) (c : ConnId)
    (h : ∀ (id : NodeId) (g : Group), d.groups[id]? = some g → g.Gathered) (id : NodeId) (g : Group)
    (group : (d.removeConnection now c).1.groups[id]? = some g) : g.Gathered := by
  have step := Directory.removeConnection_covers d ⟨0, 0⟩ now c id
  change Directory.GroupStep d _ now _ id _ (d.removeConnection now c).1.groups[id]? _ at step
  rw [group] at step
  generalize before : d.groups[id]? = old at step
  generalize Directory.report _ id = news at step
  cases step with
  | same => exact h id g before
  | @part g' c' member action present others =>
    intro name p point
    rw [Directory.departAll_getElem?] at point
    obtain ⟨q, there, rfl⟩ := Option.map_eq_some_iff.mp point
    exact (h id g' before name q there).erase c'
  | refresh action => simp at action
  | found action | enter action => contradiction
  | create number event action | arrive event action => contradiction
  | resolve action => exact action.elim

theorem lose_clients (s : Server) (now : Nat) (c : ConnId) :
    (s.lose now c).clients = (s.unregister c).clients := queueAll_clients _ _

theorem lose_directory (s : Server) (now : Nat) (c : ConnId) :
    (s.lose now c).directory = (s.directory.removeConnection now c).1 := by
  obtain ⟨told, bs, change, -⟩ := s.lose_outbox now c
  exact (Prod.mk.inj change).1

theorem Coherent.lose (h : s.Coherent) (now : Nat) (c : ConnId) : (s.lose now c).Coherent where
  clients id k client := by
    rw [lose_clients] at client
    unfold unregister at client
    rw [lose_registrations]
    cases registered : s.registrations[c]? with
    | none =>
      rw [registered] at client
      obtain ⟨token, known⟩ := h.clients id k client
      refine ⟨token, ?_⟩
      rw [if_neg, known]
      rintro rfl
      exact nomatch registered.symm.trans known
    | some r =>
      rw [registered] at client
      change (s.clients.erase r.id)[id]? = some k at client
      rw [Table.getElem?_erase] at client
      split at client
      · contradiction
      · rename_i other
        obtain ⟨token, known⟩ := h.clients id k client
        refine ⟨token, ?_⟩
        rw [if_neg, known]
        rintro rfl
        rw [registered, Option.some.injEq] at known
        exact other (congrArg Registration.id known)
  gathered id g group := by
    rw [lose_directory] at group
    exact removeConnection_gathered now c h.gathered id g group

end Server

namespace Switchboard
open Server

def withOutbox (b : Switchboard) (out : List Outgoing) : Switchboard :=
  { b with server := { b.server with outbox := out } }

/-- One thing that is done while the outbox is handed out. -/
inductive Move where
  /-- A packet goes to the link of its receiver, which takes it or fails. -/
  | post (o : Outgoing) (result : Except IoError Unit)
  /-- A packet has no receiver any more. -/
  | drop (o : Outgoing)
  /-- A connection is closed, and others are to be told that it has left. -/
  | close (c : ConnId) (notices : List Outgoing)

namespace Move

def handed? : Move → Option Outgoing
  | post o _ | drop o => some o
  | close .. => none

def notices : Move → List Outgoing
  | close _ told => told
  | post .. | drop _ => []

def failed? : Move → Option ConnId
  | post o (.error e) => if e.isFatal then some o.receiver else none
  | post _ (.ok _) | drop _ | close .. => none

def closed? : Move → Option ConnId
  | close c _ => some c
  | post .. | drop _ => none

end Move

def handed (log : List Move) : List Outgoing := log.filterMap Move.handed?

def noticed (log : List Move) : List Outgoing := log.flatMap Move.notices

/-- The connections whose links failed otherwise than by refusing a packet for itself. -/
def failed (log : List Move) : List ConnId := log.filterMap Move.failed?

def closed (log : List Move) : List ConnId := log.filterMap Move.closed?

/-- The outbox is a queue: packets are taken from its front, and notices are put behind it. -/
inductive Moves (now : Nat) : Switchboard → Move → Switchboard → Prop where
  | post {b : Switchboard} {o : Outgoing} {rest : List Outgoing} {link : Link}
      (next : b.server.outbox = o :: rest) (here : b.links[o.receiver]? = some link) :
      Moves now b (.post o (link.send o.packet).1)
        { b.withOutbox rest with links := b.links.insert o.receiver (link.send o.packet).2 }
  | drop {b : Switchboard} {o : Outgoing} {rest : List Outgoing}
      (next : b.server.outbox = o :: rest) (gone : b.links[o.receiver]? = none) :
      Moves now b (.drop o) (b.withOutbox rest)
  | close {b : Switchboard} {c : ConnId} {told : List Outgoing} (here : b.links.contains c = true)
      (put : (b.close now c).server.outbox = b.server.outbox ++ told)
      (news : mail told = news b.server.token (b.server.directory.removeConnection now c).2) :
      Moves now b (.close c told) (b.close now c)

inductive Course (now : Nat) : Switchboard → List Move → Switchboard → Prop where
  | rest (b : Switchboard) : Course now b [] b
  | next {b b' b'' : Switchboard} {m : Move} {log : List Move} (first : Moves now b m b')
      (later : Course now b' log b'') : Course now b (m :: log) b''

section
variable {now : Nat} {b b' b'' : Switchboard} {m : Move} {log log' : List Move} {c : ConnId}

theorem close_of_contains (here : b.links.contains c = true) (now : Nat) :
    b.close now c = { b with links := b.links.erase c, server := b.server.lose now c } :=
  if_pos here

theorem close_of_not_contains (gone : b.links.contains c = false) (now : Nat) :
    b.close now c = b := if_neg (by simp [gone])

theorem Course.append (h : Course now b log b') (h' : Course now b' log' b'') :
    Course now b (log ++ log') b'' := by
  induction h with
  | rest => exact h'
  | next first later ih => exact .next first (ih h')

/-- What is taken from the outbox and what is left of it are what was in it and what was put into
it. -/
theorem Course.conserves (h : Course now b log b') :
    handed log ++ b'.server.outbox = b.server.outbox ++ noticed log := by
  induction h with
  | rest => simp [handed, noticed]
  | @next b b₁ b' m log first later ih =>
    cases first with
    | post next here | drop next gone =>
      rw [next]
      exact congrArg (List.cons _) ih
    | @close c told here put news =>
      have whole : noticed (.close c told :: log) = told ++ noticed log := List.flatMap_cons
      rw [whole, ← List.append_assoc, ← put, ← ih]
      rfl

theorem Moves.gone (h : Moves now b m b') (gone : b.links.contains c = false) :
    b'.links.contains c = false := by
  cases h with
  | @post o rest link next here =>
    have other : o.receiver ≠ c := by
      rintro rfl
      exact nomatch (Table.contains_of_getElem? here).symm.trans gone
    show (b.links.insert o.receiver _).contains c = false
    simp [Std.ExtTreeMap.contains_insert, other, gone]
  | drop => exact gone
  | close here =>
    rw [close_of_contains here]
    simp [Std.ExtTreeMap.contains_erase, gone]

/-- No connection is opened while the outbox is handed out. -/
theorem Course.gone (h : Course now b log b') (gone : b.links.contains c = false) :
    b'.links.contains c = false := by
  induction h with
  | rest => exact gone
  | next first later ih => exact ih (first.gone gone)

theorem Course.closed (h : Course now b log b') (mem : c ∈ closed log) :
    b'.links.contains c = false := by
  induction h with
  | rest => exact absurd mem List.not_mem_nil
  | @next b b₁ b' m log first later ih =>
    cases first with
    | post | drop => exact ih mem
    | @close k told here =>
      rcases List.mem_cons.mp mem with rfl | mem
      · apply later.gone
        rw [close_of_contains here]
        simp
      · exact ih mem

/-- A link gets the packets for its connection, each once and in the order of the outbox, as long
as it is not closed. -/
theorem Course.link (h : Course now b log b') (stays : c ∉ Switchboard.closed log) :
    b'.links[c]? = b.links[c]?.map fun link => link.sendAll (packetsFor c (handed log)) := by
  induction h with
  | rest => simp [handed, packetsFor]
  | @next b b₁ b' m log first later ih =>
    cases first with
    | @post o rest link next here =>
      have ih := ih stays
      change b'.links[c]? = ((b.links.insert o.receiver _)[c]?).map _ at ih
      show _ = b.links[c]?.map fun link => link.sendAll (packetsFor c (o :: handed log))
      rw [ih, Table.getElem?_insert]
      by_cases own : o.receiver = c
      · subst own
        simp [here, packetsFor_cons_self]
      · simp [own, packetsFor_cons_of_ne own]
    | @drop o rest next gone =>
      have ih := ih stays
      change b'.links[c]? = b.links[c]?.map _ at ih
      show _ = b.links[c]?.map fun link => link.sendAll (packetsFor c (o :: handed log))
      rw [ih]
      by_cases own : o.receiver = c
      · subst own
        simp [gone]
      · simp [packetsFor_cons_of_ne own]
    | @close k told here =>
      have other : k ≠ c := fun same => stays (same ▸ List.mem_cons_self)
      have ih := ih fun mem => stays (List.mem_cons_of_mem k mem)
      rw [ih, close_of_contains here]
      show ((b.links.erase k)[c]?).map _ = _
      rw [Table.getElem?_erase, if_neg other]
      rfl

/-- Everyone who is registered or a member of a group has an open connection. -/
structure Connected (b : Switchboard) : Prop where
  registered : ∀ (c : ConnId) (r : Registration), b.server.registrations[c]? = some r →
    b.links.contains c = true
  members : ∀ (id : NodeId) (c : ConnId) (member : NodeId),
    b.server.directory.member? id c = some member → b.links.contains c = true

theorem Moves.coherent (h : Moves now b m b') (coherent : b.server.Coherent) :
    b'.server.Coherent := by
  cases h with
  | post | drop => exact ⟨coherent.clients, coherent.gathered⟩
  | close here =>
    rw [close_of_contains here]
    exact coherent.lose now _

theorem Moves.connected (h : Moves now b m b') (connected : b.Connected) : b'.Connected := by
  cases h with
  | post =>
    constructor
    · intro c r known
      simp [Std.ExtTreeMap.contains_insert, connected.registered c r known]
    · intro id c member present
      simp [Std.ExtTreeMap.contains_insert, connected.members id c member present]
  | drop => exact ⟨connected.registered, connected.members⟩
  | @close k told here =>
    rw [close_of_contains here]
    constructor
    · intro c r known
      change (b.server.lose now k).registrations[c]? = some r at known
      rw [lose_registrations] at known
      split at known
      · contradiction
      · rename_i other
        simp [Std.ExtTreeMap.contains_erase, other, connected.registered c r known]
    · intro id c member present
      change (b.server.lose now k).directory.member? id c = some member at present
      rw [lose_directory] at present
      have other : k ≠ c := by
        rintro rfl
        exact nomatch (b.server.directory.removeConnection_gone now k id).symm.trans present
      have before : b.server.directory.member? id c = some member := by
        have source : (b.server.directory.act ⟨0, 0⟩ now (.removeConnection k)).1.member? id c =
            some member := present
        refine (Directory.act_member_source source).resolve_right ?_
        rintro ⟨token, joins⟩
        contradiction
      simp [Std.ExtTreeMap.contains_erase, other, connected.members id c member before]

theorem Course.connected (h : Course now b log b') (coherent : b.server.Coherent)
    (connected : b.Connected) : b'.server.Coherent ∧ b'.Connected := by
  induction h with
  | rest => exact ⟨coherent, connected⟩
  | next first later ih => exact ih (first.coherent coherent) (first.connected connected)

theorem Connected.contains (connected : b.Connected) (coherent : b.server.Coherent)
    (known : b.server.Knows c) : b.links.contains c = true := by
  rcases coherent.knows known with ⟨r, registered⟩ | ⟨id, member, present⟩
  · exact connected.registered c r registered
  · exact connected.members id c member present

theorem failed_append (log log' : List Move) : failed (log ++ log') = failed log ++ failed log' :=
  List.filterMap_append

theorem closed_append (log log' : List Move) : closed (log ++ log') = closed log ++ closed log' :=
  List.filterMap_append

theorem postAll_server (b : Switchboard) (out : List Outgoing) :
    (b.postAll out).2.server = b.server := by
  induction out generalizing b with
  | nil => rfl
  | cons o rest ih =>
    have same : (b.post o).2.server = b.server := by
      unfold post
      split <;> rfl
    exact (ih (b.post o).2).trans same

theorem withOutbox_postOutbox (b : Switchboard) :
    b.postOutbox.2.withOutbox [] = b.postOutbox.2 := by
  have server : b.postOutbox.2.server = (b.withOutbox []).server := postAll_server _ _
  unfold withOutbox
  rw [server]
  exact congrArg (fun s => { b.postOutbox.2 with server := s }) server.symm

/-- To hand out packets is to take them from the front of the outbox. -/
theorem course_postAll (now : Nat) (b : Switchboard) (out : List Outgoing) :
    ∃ log, Course now (b.withOutbox out) log ((b.postAll out).2.withOutbox []) ∧
      failed log = (b.postAll out).1 ∧ closed log = [] := by
  induction out generalizing b with
  | nil => exact ⟨[], .rest _, rfl, rfl⟩
  | cons o rest ih =>
    cases here : b.links[o.receiver]? with
    | none =>
      obtain ⟨log, course, fails, closes⟩ := ih b
      have gone : b.post o = (false, b) := by
        unfold post
        rw [here]
      refine ⟨.drop o :: log, ?_, ?_, closes⟩
      · simp only [postAll, gone]
        exact .next (.drop rfl here) course
      · simp only [postAll, gone]
        exact fails
    | some link =>
      obtain ⟨log, course, fails, closes⟩ := ih (b.post o).2
      refine ⟨.post o (link.send o.packet).1 :: log, ?_, ?_, closes⟩
      · refine .next (.post rfl here) ?_
        unfold post at course
        rw [here] at course
        simp only [postAll, post, here]
        exact course
      · have first : (b.post o).1 = true ↔
            (Move.post o (link.send o.packet).1).failed? = some o.receiver := by
          unfold post
          rw [here]
          dsimp only
          cases (link.send o.packet).1 with
          | ok => simp [Move.failed?]
          | error e => simp [Move.failed?]
        simp only [postAll]
        rw [← fails]
        split
        · rename_i fatal
          exact List.filterMap_cons_some (first.mp fatal)
        · rename_i fine
          refine List.filterMap_cons_none ?_
          cases result : (link.send o.packet).1 with
          | ok => rfl
          | error e =>
            have mild : e.isFatal = false := by
              simpa [result, Move.failed?, first] using fine
            simp [Move.failed?, mild]

theorem course_postOutbox (now : Nat) (b : Switchboard) :
    ∃ log, Course now b log b.postOutbox.2 ∧ failed log = b.postOutbox.1 ∧ closed log = [] := by
  obtain ⟨log, course, fails, closes⟩ := course_postAll now (b.withOutbox []) b.server.outbox
  change Course now b log (b.postOutbox.2.withOutbox []) at course
  rw [withOutbox_postOutbox] at course
  exact ⟨log, course, fails, closes⟩

/-- To close connections is to close those of them that are open. -/
theorem course_closeAll (now : Nat) (b : Switchboard) (cs : List ConnId) :
    ∃ log, Course now b log (b.closeAll now cs) ∧ failed log = [] ∧ (∀ c ∈ closed log, c ∈ cs) ∧
      ∀ c ∈ cs, (b.closeAll now cs).links.contains c = false := by
  induction cs generalizing b with
  | nil => exact ⟨[], .rest b, rfl, nofun, nofun⟩
  | cons k cs ih =>
    obtain ⟨log, course, fails, closes, gone⟩ := ih (b.close now k)
    have first : (b.close now k).links.contains k = false := by
      cases here : b.links.contains k with
      | true =>
        rw [close_of_contains here]
        simp
      | false => rw [close_of_not_contains here, here]
    have all : ∀ c ∈ k :: cs, (b.closeAll now (k :: cs)).links.contains c = false := by
      intro c mem
      rcases List.mem_cons.mp mem with rfl | mem
      · exact course.gone first
      · exact gone c mem
    cases here : b.links.contains k with
    | true =>
      obtain ⟨told, bs, change, put, news⟩ := b.server.lose_outbox now k
      have removed := (Prod.mk.inj change).2
      refine ⟨.close k told :: log, .next (.close here ?_ ?_) course, fails, ?_, all⟩
      · rw [close_of_contains here]
        exact put
      · rw [news, removed]
        rfl
      · exact fun c mem => List.mem_cons.mpr ((List.mem_cons.mp mem).imp_right (closes c))
    | false =>
      have same := close_of_not_contains here now
      rw [same] at course
      have whole : b.closeAll now (k :: cs) = b.closeAll now cs :=
        congrArg (fun b => closeAll b now cs) same
      refine ⟨log, ?_, fails, fun c mem => List.mem_cons_of_mem k (closes c mem), all⟩
      rw [whole]
      exact course

/-- A delivery is a course of moves that leaves nothing in the outbox. It closes just those
connections that failed. -/
theorem course_deliver (now : Nat) (b : Switchboard) :
    ∃ log, Course now b log (b.deliver now) ∧ (b.deliver now).server.outbox = [] ∧
      (∀ c ∈ failed log, (b.deliver now).links.contains c = false) ∧
      ∀ c ∈ closed log, c ∈ failed log := by
  -- One round hands out what is in the outbox; each further one has fewer open connections.
  induction b using deliver.induct now with
  | case1 b fine =>
    obtain ⟨log, course, fails, closes⟩ := course_postOutbox now b
    have server : b.postOutbox.2.server = (b.withOutbox []).server := postAll_server _ _
    have done : b.deliver now = b.postOutbox.2 := by
      rw [deliver, if_pos fine]
    rw [done]
    refine ⟨log, course, congrArg Server.outbox server, ?_, ?_⟩
    · rw [fails]
      intro c mem
      rw [fine] at mem
      exact absurd mem List.not_mem_nil
    · rw [closes]
      exact nofun
  | case2 b bad ih =>
    obtain ⟨posts, course, fails, closes⟩ := course_postOutbox now b
    obtain ⟨closings, course', fails', closes', gone⟩ :=
      course_closeAll now b.postOutbox.2 b.postOutbox.1
    obtain ⟨later, course'', empty, gone', closes''⟩ := ih
    have onward : b.deliver now = (b.postOutbox.2.closeAll now b.postOutbox.1).deliver now := by
      rw [deliver, if_neg bad]
    rw [onward]
    refine ⟨posts ++ (closings ++ later), course.append (course'.append course''), empty, ?_, ?_⟩
    · intro c mem
      simp only [failed_append, fails, fails', List.nil_append, List.mem_append] at mem
      exact mem.elim (fun mem => course''.gone (gone c mem)) (gone' c)
    · intro c mem
      simp only [closed_append, closes, List.nil_append, List.mem_append] at mem
      simp only [failed_append, fails, fails', List.nil_append, List.mem_append]
      exact mem.imp (closes' c) (closes'' c)

/-- However the links of its connections behave, a delivery comes to an end with an empty outbox. A
connection that stays open gets all packets for it, those that were in the outbox and behind them
the notices of those who leave; closed are just those connections that fail. If all who are
registered or members of a group were connected, nobody is known afterwards who is not. -/
theorem deliver_settles (b : Switchboard) (now : Nat) :
    (b.deliver now).server.outbox = [] ∧
    ∃ log, Course now b log (b.deliver now) ∧
      handed log = b.server.outbox ++ noticed log ∧
      (∀ (c : ConnId) (link : Link), (b.deliver now).links[c]? = some link →
        ∃ before, b.links[c]? = some before ∧
          link = before.sendAll (packetsFor c (b.server.outbox ++ noticed log))) ∧
      (∀ c, (b.deliver now).links.contains c = true ↔
        b.links.contains c = true ∧ c ∉ failed log) ∧
      (b.server.Coherent → b.Connected →
        (b.deliver now).server.Coherent ∧
          ∀ c, (b.deliver now).server.Knows c → (b.deliver now).links.contains c = true) := by
  obtain ⟨log, course, empty, gone, closes⟩ := b.course_deliver now
  have all : handed log = b.server.outbox ++ noticed log := by
    have conserved := course.conserves
    rwa [empty, List.append_nil] at conserved
  have stays : ∀ c, (b.deliver now).links.contains c = true → c ∉ closed log := by
    intro c here mem
    exact nomatch here.symm.trans (course.closed mem)
  refine ⟨empty, log, course, all, ?_, ?_, ?_⟩
  · intro c link here
    have sent := course.link (stays c (Table.contains_of_getElem? here))
    rw [here, all] at sent
    obtain ⟨before, there, same⟩ := Option.map_eq_some_iff.mp sent.symm
    exact ⟨before, there, same.symm⟩
  · intro c
    constructor
    · intro here
      refine ⟨?_, fun mem => nomatch here.symm.trans (gone c mem)⟩
      cases before : b.links.contains c with
      | true => rfl
      | false => exact nomatch here.symm.trans (course.gone before)
    · rintro ⟨here, fine⟩
      obtain ⟨before, there⟩ := Table.contains_iff.mp here
      have sent := course.link fun mem => fine (closes c mem)
      rw [there] at sent
      exact Table.contains_of_getElem? sent
  · intro coherent connected
    obtain ⟨coherent', connected'⟩ := course.connected coherent connected
    exact ⟨coherent', fun c known => connected'.contains coherent' known⟩

end

/-- Two clients are registered. The connection of the first, which is alone in a group, is
broken. -/
def sampleSwitchboard : Switchboard where
  server := (play sampleServer (sampleRequests.drop 3)).2
  links := Std.ExtTreeMap.ofList
    [(0, Link.ofStream (Stream.empty.planWrites [.failure .brokenPipe])), (1, Link.ofStream .empty)]
  nextConn := 2

theorem deliver_settles_of_broken_link :
    let b := sampleSwitchboard
    b.server.outbox.map Outgoing.receiver = [0, 1, 0, 0] ∧
      b.server.directory.member? Directory.sampleRef.id 0 = some Directory.sampleMember ∧
      (b.deliver 0).server.outbox = [] ∧ (b.deliver 0).links.keys = [1] ∧
      ∀ c, (b.deliver 0).server.Knows c → c = 1 := by
  intro b
  have run : History sampleServer (play sampleServer (sampleRequests.drop 3)).1 b.server :=
    .play _ _
  have registered : ∀ (c : ConnId) (r : Registration), b.server.registrations[c]? = some r →
      b.links.contains c = true := by
    intro c r known
    have keys : b.server.registrations.keys = b.links.keys := by decide +kernel
    have mem : c ∈ b.server.registrations.keys := Table.mem_keys_iff.mpr ⟨r, known⟩
    rw [keys] at mem
    exact Table.contains_iff.mpr (Table.mem_keys_iff.mp mem)
  have members : ∀ (id : NodeId) (c : ConnId) (member : NodeId),
      b.server.directory.member? id c = some member → b.links.contains c = true := by
    intro id c member present
    obtain ⟨token, known⟩ := run.registry.members id c member present
    exact registered c _ known
  have remaining : (b.deliver 0).links.keys = [1] := by
    have failed : b.postOutbox.1 = [0] := by decide +kernel
    rw [deliver, if_neg (by simp [failed]), failed, deliver, if_pos (by decide +kernel)]
    decide +kernel
  obtain ⟨empty, log, -, -, -, -, settled⟩ := deliver_settles b 0
  obtain ⟨-, all⟩ := settled run.coherent ⟨registered, members⟩
  refine ⟨by decide +kernel, by decide +kernel, empty, remaining, fun c known => ?_⟩
  have mem : c ∈ (b.deliver 0).links.keys :=
    Table.mem_keys_iff.mpr (Table.contains_iff.mp (all c known))
  rw [remaining] at mem
  exact List.mem_singleton.mp mem

end Switchboard
end Muster
