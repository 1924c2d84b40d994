import Muster.Proofs.Directory.Roster
import Muster.Proofs.Network.Basic

/-! What the server says to a client whenever something happens to it. The server's words, taken
in one after the other, lead to how things are at the server. -/
namespace Muster

def Incoming.word (x : Incoming) : Word := ⟨x.packet.message.body, x.origin.any Origin.removed⟩

def Handed.word (x : Handed) : Word :=
  ⟨x.delivery.packet.message.body, x.origin.any Origin.removed⟩

theorem Server.hasMember_eq_false_iff {s : Server} {c : ConnId} {id : NodeId} :
    s.hasMember c id = false ↔
      ∀ g ∈ s.directory.groups[id]?, g.members.contains c = false := by
  unfold hasMember
  cases s.directory.groups[id]? with
  | none => simp
  | some g => simp

theorem Server.hasMember_of_roster {s : Server} {c : ConnId} {ref : GroupRef}
    (member : s.directory.roster c ref ≠ none) : s.hasMember c ref.id = true := by
  obtain ⟨ids, roster⟩ := Option.ne_none_iff_exists'.mp member
  obtain ⟨g, found, -, present, -⟩ := Directory.roster_eq_some_iff.mp roster
  unfold hasMember
  rw [found]
  exact present

/-- What is on its way to a client, in the order in which it will be taken in. -/
def Peer.words (p : Peer) : List Word := p.inbox.map Handed.word ++ p.toClient.map Incoming.word

namespace Peer
variable {p : Peer}

theorem arrive_frame (p : Peer) (xs : List Incoming) : (p.arrive xs).client = p.client ∧
    (p.arrive xs).toServer = p.toServer ∧ (p.arrive xs).jobs = p.jobs := by
  unfold arrive
  split <;> exact ⟨rfl, rfl, rfl⟩

theorem words_arrive (linked : p.client.link ≠ none) (xs : List Incoming) :
    (p.arrive xs).words = p.words ++ xs.map Incoming.word := by
  unfold arrive
  rw [if_pos (Option.isSome_iff_ne_none.mpr linked)]
  unfold words
  rw [List.map_append, List.append_assoc]

/-- Nothing is said by looking at something, and a word is gone when it was taken in. -/
theorem words_dispatch {x : Handed} {rest : List Handed} (next : p.inbox = x :: rest) :
    (∃ taking, p.taking.Step p.client x.delivery p.client (some taking) ∧
        p.dispatch.client = p.client ∧ p.dispatch.words = p.words) ∨
      p.taking.Step p.client x.delivery p.dispatch.client none ∧
        p.words = x.word :: p.dispatch.words := by
  obtain ⟨taking, step, eq⟩ | ⟨client, step, eq⟩ := dispatch_cases next
  · rw [eq]
    exact .inl ⟨taking, step, rfl, rfl⟩
  · rw [eq]
    refine .inr ⟨step, ?_⟩
    unfold words
    rw [next]
    rfl

/-- A word is passed on unless it is a response that no call waits for. -/
theorem words_correlate (p : Peer) : p.correlate.words = p.words ∨
    ∃ x rest, p.toClient = x :: rest ∧ x.packet.message.role = .response ∧
      p.client.pending[x.packet.seq]? = none ∧
      p.correlate.words = p.inbox.map Handed.word ++ rest.map Incoming.word := by
  unfold correlate
  split
  · rename_i x rest link next linked
    cases run : link.pending.pass x.packet with
    | mk delivery pending' =>
      dsimp only
      have split (ys : List Handed) : (p.inbox ++ ys).map Handed.word ++ rest.map Incoming.word =
          p.inbox.map Handed.word ++ (ys.map Handed.word ++ rest.map Incoming.word) := by
        rw [List.map_append, List.append_assoc]
      cases delivery with
      | some d =>
        left
        obtain ⟨packet, -⟩ := (Pending.pass_cases run).2 d rfl
        have same : Handed.word ⟨d, x.origin⟩ = x.word := by
          unfold Handed.word Incoming.word
          rw [packet]
        unfold words
        rw [next, List.map_cons, ← same]
        exact split [⟨d, x.origin⟩]
      | none =>
        right
        obtain ⟨response, unknown⟩ := Pending.pass_none run
        refine ⟨x, rest, next, response, ?_, split []⟩
        rw [Client.pending, linked]
        exact unknown
  · exact .inl rfl

theorem correlate_frame (p : Peer) : (∃ link, p.correlate.client = { p.client with link }) ∧
    p.correlate.toServer = p.toServer ∧ p.correlate.jobs = p.jobs ∧
      (p.client.link = none → p.correlate.client.link = none) := by
  unfold correlate
  split
  · rename_i x rest link next linked
    refine ⟨⟨_, rfl⟩, rfl, rfl, fun closed => ?_⟩
    rw [closed] at linked
    contradiction
  · exact ⟨⟨p.client.link, rfl⟩, rfl, rfl, id⟩

/-- Only the first step of taking a connection down leaves it up. -/
theorem tearDown_frame (orderly : p.Orderly) (linked : p.tearDown.client.link ≠ none) :
    p.client.link ≠ none ∧ p.tearDown.words = p.words ∧ p.tearDown.toServer = p.toServer ∧
      p.tearDown.jobs = p.jobs ∧ p.tearDown.client = { p.client with running := false } := by
  obtain no | dropping | closed := orderly.down
  · have up : p.client.link ≠ none := by
      unfold tearDown at linked
      rw [no] at linked
      exact linked
    have some := Option.isSome_iff_ne_none.mpr up
    unfold tearDown words
    rw [no]
    dsimp only [Option.getD_none, Shutdown.step]
    rw [some]
    exact ⟨up, rfl, rfl, rfl, rfl⟩
  · unfold tearDown at linked
    rw [dropping] at linked
    exact absurd rfl linked
  · apply absurd _ linked
    show ((p.closing.getD .stopRunning).step p.client).1.link = none
    obtain ⟨h, rest, -, eq⟩ | ⟨-, -, ⟨same, -⟩ | none⟩ :=
      p.client.shutdown_cases (p.closing.getD .stopRunning)
    · rw [eq]
      exact closed
    · rw [same]
      exact closed
    · exact none

end Peer

/-- Words that let a client know what happens to its membership. -/
structure Informs (own : NodeId) (i : ConnId) (ref : GroupRef) (d d' : Directory)
    (ws : List Word) : Prop where
  named : d'.Names ref.id i own
  settles : Settles own ref ws (d.roster i ref) (d'.roster i ref)

namespace Network
variable {s : Server} {own : NodeId} {i k : ConnId} {ref : GroupRef}

/-- A connection that is up has been so all the time. -/
theorem Turn.linked {s' : Server} {p p' : Peer} (turn : Turn s i p s' p') (orderly : p.Orderly)
    (linked : p'.client.link ≠ none) : p.client.link ≠ none := by
  cases turn with
  | same => exact linked
  | ask now a =>
    unfold Peer.ask at linked
    split at linked
    · rename_i run
      obtain ⟨-, -, ⟨rfl, -⟩ | ⟨id, token, -, rfl, -⟩⟩ := a.call?_cases run
      · exact linked
      · exact linked
    · exact linked
  | advance now numbering j =>
    obtain same | ⟨job, m, c, c', s', here, client, record, step, eq⟩ :=
      p.advance_cases now numbering j
    · rw [same] at linked
      exact linked
    · intro closed
      rw [eq] at linked
      apply linked
      apply step.link_none
      rw [client]
      exact closed
  | correlate =>
    obtain ⟨-, -, -, closed⟩ := p.correlate_frame
    exact fun none => linked (closed none)
  | dispatch =>
    rw [p.dispatch_link] at linked
    exact linked
  | tearDown => exact (Peer.tearDown_frame orderly linked).1
  | expire | lose | overhear =>
    rw [(p.arrive_frame _).1] at linked
    exact linked
  | hangUp =>
    rw [(p.hangUp.arrive_frame _).1] at linked
    exact linked
  | answer =>
    rw [(p.serve.arrive_frame _).1] at linked
    exact linked

theorem arrivals_words {token : Token} {bs : List Broadcast} {told : List Outgoing}
    (eq : Server.mail told = Server.news token bs) (origin : Option Origin) (i : ConnId) :
    (arrivals origin told i).map Incoming.word = wordsTo bs i := by
  have plain : (arrivals origin told i).map Incoming.word =
      ((Server.mail told).filter fun x => x.1 = i).map fun x => ⟨x.2.body, false⟩ := by
    unfold arrivals Server.mail
    rw [List.filter_map, List.map_map, List.map_map]
    apply List.map_congr_left
    intro o mem
    have notice := Server.role_of_mail eq (List.mem_filter.mp mem).1
    show Incoming.word ⟨o.packet, if o.packet.message.role = .response then origin else none⟩ = _
    rw [notice, if_neg (by decide)]
    rfl
  rw [plain, eq]
  unfold Server.news wordsTo
  rw [List.filter_flatMap, List.map_flatMap]
  congr 1
  funext b
  rw [List.filter_map, List.map_map]
  apply List.map_congr_left
  intro c _
  show (⟨(b.news.message token).body, false⟩ : Word) = ⟨(b.news.message .null).body, false⟩
  cases b.news <;> rfl

theorem expire_informs (empty : s.outbox = []) (named : s.directory.Names ref.id i own)
    (now : Nat) : Informs own i ref s.directory (s.fireDue now).directory
      ((arrivals none (s.fireDue now).outbox i).map Incoming.word) := by
  obtain ⟨told, directory, put, eq⟩ := s.fireDue_outbox now
  rw [empty, List.nil_append] at put
  rw [put, arrivals_words eq, directory]
  obtain ⟨settles, named'⟩ := Directory.fireDue_learns s.policy now named
  exact ⟨named', settles⟩

theorem act_informs {d : Directory} {policy : Policy} {now : Nat} {a : Directory.Action}
    (named : d.Names ref.id i own) (joins : ∀ member ref, a ≠ .join i member ref)
    (stays : ¬a.Removes i ref) : Informs own i ref d (d.act policy now a).1
      (wordsTo (d.act policy now a).2 i) := by
  have named' : (d.act policy now a).1.Names ref.id i own :=
    Directory.act_names named fun member ref eq => absurd eq (joins member ref)
  exact ⟨named', (Directory.act_learns named').settles stays⟩

theorem lose_informs (empty : s.outbox = []) (named : s.directory.Names ref.id i own)
    (other : k ≠ i) (now : Nat) : Informs own i ref s.directory (s.lose now k).directory
      ((arrivals none (s.lose now k).outbox i).map Incoming.word) := by
  obtain ⟨told, bs, directory, put, eq⟩ := s.lose_outbox now k
  rw [empty, List.nil_append] at put
  rw [put, arrivals_words eq]
  have informs : Informs own i ref s.directory
      (s.directory.act s.policy now (.removeConnection k)).1
      (wordsTo (s.directory.act s.policy now (.removeConnection k)).2 i) := by
    refine act_informs named (fun member about => nofun) ?_
    rintro (leaves | removes)
    · exact nomatch leaves
    · exact other (Directory.Action.removeConnection.inj removes)
  rw [← directory] at informs
  exact informs

theorem informs_of_same {d : Directory} (named : d.Names ref.id i own) :
    Informs own i ref d d [] :=
  ⟨named, Silent.nil _⟩

/-- A request of another client. -/
theorem overhear_informs (empty : s.outbox = []) (named : s.directory.Names ref.id i own)
    (other : k ≠ i) (now : Nat) (r : Request) (removed : Bool) :
    Informs own i ref s.directory
      (s.handle now k r.packet.seq r.packet.message).directory
      ((arrivals (some ⟨r, removed⟩)
        (s.handle now k r.packet.seq r.packet.message).outbox i).map Incoming.word) := by
  obtain responds | same := s.handle_responds now k r.packet.seq r.packet.message
  · obtain ⟨answer, told, bs, serves, put, eq⟩ := responds
    rw [empty, List.nil_append] at put
    rw [arrivals_respond _ put serves.answers.role, if_neg other, List.nil_append,
      arrivals_words eq]
    generalize out : ((s.handle now k r.packet.seq r.packet.message).directory, bs) = x at serves
    have first := congrArg Prod.fst out
    have second := congrArg Prod.snd out
    dsimp only at first second
    rw [first, second]
    cases serves with
    | register body => exact informs_of_same named
    | refuse unknown answers body => exact informs_of_same named
    | join known body =>
      apply act_informs named
      · intro member ref eq
        exact other (Directory.Action.join.inj eq).1
      · exact fun removes => removes.elim nofun nofun
    | leave known body =>
      refine act_informs named (fun member about => nofun) ?_
      rintro (leaves | removes)
      · exact other (Directory.Action.leave.inj leaves).1
      · exact nomatch removes
    | sync known body =>
      refine act_informs named (fun member about => nofun) ?_
      exact fun removes => removes.elim nofun nofun
  · rw [same, empty]
    exact informs_of_same named

theorem settles_cons {w : Word} {ws : List Word} {v r : Roster}
    (h : ∀ u, w.Turns own ref v u → Settles own ref ws u r) : Settles own ref (w :: ws) v r :=
  fun v' ⟨u, turns, leads⟩ => h u turns v' leads

section Answer
variable {d : Directory} {policy : Policy} {now : Nat} {asked : GroupRef} {removed : Bool}

/-- A member that joins again is told nothing, so it has to be right about the members before. -/
theorem join_settles (named : d.Names ref.id i own) :
    Settles own ref (⟨.joinResponse asked (d.join policy now i own asked).answer, removed⟩ ::
        wordsTo (d.act policy now (.join i own asked)).2 i) (d.roster i ref)
      ((d.act policy now (.join i own asked)).1.roster i ref) := by
  have named' : (d.act policy now (.join i own asked)).1.Names ref.id i own :=
    Directory.act_names named fun member about eq => (Directory.Action.join.inj eq).2.1.symm
  have learns := Directory.act_learns named'
  rintro v' ⟨u, turns, leads⟩
  obtain rfl | ⟨rfl, accepted, rfl⟩ := turns
  · exact learns.settles (fun removes => removes.elim nofun nofun) v' leads
  · cases learns with
    | told tells => exact tells _ v' leads
    | left silent gone removes => exact removes.elim nofun nofun
    | same silent eq =>
      obtain ⟨g, name, here, token, present⟩ := d.join_present policy now i own asked accepted
      obtain rfl := named' g here name present
      have member : (d.act policy now (.join i name asked)).1.roster i asked =
          some (.ofList g.members.ids) := by
        show ((d.join policy now i name asked).directory.groups[asked.id]?.bind _) = _
        rw [here, ← token]
        exact Group.roster_of_member present
      rw [silent _ v' leads, ← eq, member]
      show some ((Std.ExtTreeSet.ofList g.members.ids).insert name) = _
      congr 1
      ext k
      rw [Std.ExtTreeSet.mem_insert, Std.LawfulEqOrd.compare_eq_iff_eq]
      constructor
      · rintro (rfl | mem)
        · simpa using Members.mem_ids present
        · exact mem
      · exact .inr

/-- A member that leaves is told so by the answer only. -/
theorem leave_settles (named : d.Names ref.id i own)
    (marked : d.roster i asked ≠ none →
      (∀ g ∈ (d.leave now i asked).directory.groups[asked.id]?, g.members.contains i = false) →
      removed = true) :
    Settles own ref (⟨.leaveResponse asked .accepted, removed⟩ ::
        wordsTo (d.act policy now (.leave i asked)).2 i) (d.roster i ref)
      ((d.act policy now (.leave i asked)).1.roster i ref) := by
  have named' : (d.act policy now (.leave i asked)).1.Names ref.id i own :=
    Directory.act_names named fun member about eq => nomatch eq
  have learns := Directory.act_learns named'
  obtain ⟨gone', absent⟩ := d.leave_roster now i asked
  rintro v' ⟨u, turns, leads⟩
  cases learns with
  | told tells => exact tells u v' leads
  | same silent eq =>
    rw [silent u v' leads]
    obtain ⟨rfl, -⟩ | ⟨rfl, rfl⟩ := turns
    · exact eq.symm
    · exact gone'.symm
  | left silent gone leaves =>
    rw [silent u v' leads, gone]
    obtain ⟨rfl, stays⟩ | ⟨-, rfl⟩ := turns
    · have eq : asked = ref := by
        rcases leaves with leaves | removes
        · exact (Directory.Action.leave.inj leaves).2
        · exact nomatch removes
      subst eq
      by_contra member
      exact absurd ((stays rfl).symm.trans (marked member (absent member))) Bool.false_ne_true
    · rfl

end Answer

/-- A request of the client itself, which the server knows. -/
theorem answer_informs (empty : s.outbox = []) (named : s.directory.Names ref.id i own)
    (now : Nat) (r : Request)
    (known : (∀ id, r.packet.message.body ≠ .registerRequest id) →
      s.authenticate i r.packet.message.sender = some own) {removed : Bool}
    (removal : removed = removes s (s.handle now i r.packet.seq r.packet.message) i
      r.packet.message.body) :
    Informs own i ref s.directory
      (s.handle now i r.packet.seq r.packet.message).directory
      ((arrivals (some ⟨r, removed⟩)
        (s.handle now i r.packet.seq r.packet.message).outbox i).map Incoming.word) := by
  obtain responds | same := s.handle_responds now i r.packet.seq r.packet.message
  · obtain ⟨answer, told, bs, serves, put, eq⟩ := responds
    rw [empty, List.nil_append] at put
    rw [arrivals_respond _ put serves.answers.role, if_pos rfl, List.map_append,
      arrivals_words eq]
    show Informs own i ref _ _ (⟨answer, removed⟩ :: wordsTo bs i)
    generalize out : ((s.handle now i r.packet.seq r.packet.message).directory, bs) = x at serves
    have first := congrArg Prod.fst out
    have second := congrArg Prod.snd out
    dsimp only at first second
    have own_name {member : NodeId} (found : s.authenticate i r.packet.message.sender = some member)
        (body : ∀ id, r.packet.message.body ≠ .registerRequest id) : member = own :=
      Option.some.inj (found.symm.trans (known body))
    cases serves with
    | register body =>
      rw [first, second]
      refine ⟨named, ?_⟩
      apply settles_cons
      intro u turns
      obtain rfl : u = _ := turns
      exact Silent.nil _
    | refuse unknown answers body => exact nomatch unknown.symm.trans (known body)
    | @join member asked found body =>
      obtain rfl := own_name found (by rw [body]; exact nofun)
      constructor
      · rw [first]
        exact Directory.act_names named fun member about eq =>
          (Directory.Action.join.inj eq).2.1.symm
      · rw [first, second]
        exact join_settles named
    | @leave member asked found body =>
      constructor
      · rw [first]
        exact Directory.act_names named fun member about eq => nomatch eq
      · rw [first, second]
        apply leave_settles named
        intro member absent
        have before := Server.hasMember_of_roster member
        have after : (s.handle now i r.packet.seq r.packet.message).hasMember i asked.id =
            false := by
          rw [Server.hasMember_eq_false_iff, first]
          exact absent
        rw [removal, body]
        show (s.hasMember i asked.id && !_) = true
        rw [before, after]
        rfl
    | @sync member asked terms found body =>
      constructor
      · rw [first]
        exact Directory.act_names named fun member about eq => nomatch eq
      · rw [first, second]
        apply settles_cons
        intro u turns
        obtain rfl : u = _ := turns
        have named' : (s.directory.act s.policy now (.sync i asked terms)).1.Names ref.id i own :=
          Directory.act_names named fun member about eq => nomatch eq
        have learns := Directory.act_learns named'
        exact learns.settles fun removes => removes.elim nofun nofun
  · rw [same, empty]
    exact ⟨named, Silent.nil _⟩

end Network
end Muster
