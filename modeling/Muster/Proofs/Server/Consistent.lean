import Muster.Proofs.Directory.Meeting
import Muster.Proofs.Directory.Membership
import Muster.Proofs.Server.History
import Muster.Proofs.Server.Registration

/-! What is true of a server at any time: who is registered, who is a member of a group, and under
which name. -/
namespace Muster

theorem Token.not_isNull_of_draw (tokens : TokenSource) : tokens.draw.1.isNull = false := by
  unfold TokenSource.draw
  dsimp only
  split
  · decide +kernel
  · rename_i other
    simpa using other

namespace Server
variable {s s' : Server} {c : ConnId} {id : NodeId}

/-- Names and connections belong to each other, and every member of a group is registered under
the name that the group has for it. -/
structure Registry (s : Server) : Prop where
  inverse : ∀ (id : NodeId) (c : ConnId),
    s.clients[id]? = some c ↔ ∃ token, s.registrations[c]? = some ⟨id, token⟩
  size : s.clients.size ≤ s.maxClients
  tokens : ∀ (c : ConnId) (r : Registration), s.registrations[c]? = some r → r.token.isNull = false
  members : ∀ (id : NodeId) (c : ConnId) (member : NodeId),
    s.directory.member? id c = some member → ∃ token, s.registrations[c]? = some ⟨member, token⟩

theorem unregister_directory (s : Server) (c : ConnId) (d : Directory) :
    ({ s with directory := d } : Server).unregister c = { s.unregister c with directory := d } := by
  unfold unregister
  dsimp only
  split
  · rfl
  · rfl

namespace Registry

/-- Members may go at any time, and come if they are registered. -/
theorem change (h : Registry s) (clients : s'.clients = s.clients)
    (registrations : s'.registrations = s.registrations) (limits : SameLimits s s')
    (members : ∀ (id : NodeId) (c : ConnId) (member : NodeId),
      s'.directory.member? id c = some member → s.directory.member? id c = some member ∨
        ∃ token, s.registrations[c]? = some ⟨member, token⟩) : Registry s' where
  inverse id c := by
    rw [clients, registrations]
    exact h.inverse id c
  size := by
    rw [clients, limits.maxClients]
    exact h.size
  tokens c r := by
    rw [registrations]
    exact h.tokens c r
  members id c member present := by
    rw [registrations]
    exact (members id c member present).elim (h.members id c member) fun known => known

theorem unregister (h : Registry s) (gone : ∀ id, s.directory.member? id c = none) :
    Registry (s.unregister c) := by
  unfold Server.unregister
  cases registered : s.registrations[c]? with
  | none => exact h
  | some r =>
    have own : s.clients[r.id]? = some c := (h.inverse r.id c).mpr ⟨r.token, registered⟩
    constructor
    · intro k x
      show (s.clients.erase r.id)[k]? = some x ↔ ∃ token, (s.registrations.erase c)[x]? = _
      rw [Table.getElem?_erase, Table.getElem?_erase]
      by_cases name : r.id = k
      · subst name
        rw [if_pos rfl]
        refine ⟨nofun, ?_⟩
        rintro ⟨token, other⟩
        split at other
        · contradiction
        · rename_i ne
          have same := (h.inverse r.id x).mpr ⟨token, other⟩
          rw [own, Option.some.injEq] at same
          exact absurd same ne
      · rw [if_neg name, h.inverse]
        by_cases same : c = x
        · subst same
          rw [if_pos rfl, registered]
          refine ⟨?_, nofun⟩
          rintro ⟨token, eq⟩
          exact absurd (congrArg Registration.id (Option.some.inj eq)) name
        · rw [if_neg same]
    · exact Nat.le_trans Std.ExtTreeMap.size_erase_le h.size
    · intro x q here
      change (s.registrations.erase c)[x]? = some q at here
      rw [Table.getElem?_erase] at here
      split at here
      · contradiction
      · exact h.tokens x q here
    · intro k x member present
      obtain ⟨token, known⟩ := h.members k x member present
      refine ⟨token, ?_⟩
      show (s.registrations.erase c)[x]? = _
      rw [Table.getElem?_erase, if_neg, known]
      rintro rfl
      have none := gone k
      rw [show s.directory.member? k c = some member from present] at none
      contradiction

theorem insert (h : Registry s) (free : s.clients[id]? = none) (new : s.registrations[c]? = none)
    (room : s.clients.size < s.maxClients) (tokens : TokenSource) {token : Token}
    (drawn : token.isNull = false) : Registry { s with
      tokens
      registrations := s.registrations.insert c ⟨id, token⟩
      clients := s.clients.insert id c } := by
  constructor
  · intro k x
    show (s.clients.insert id c)[k]? = some x ↔
      ∃ t, (s.registrations.insert c ⟨id, token⟩)[x]? = some ⟨k, t⟩
    rw [Table.getElem?_insert, Table.getElem?_insert]
    by_cases same : c = x
    · subst same
      rw [if_pos rfl]
      by_cases name : id = k
      · subst name
        rw [if_pos rfl]
        exact ⟨fun _ => ⟨token, rfl⟩, fun _ => rfl⟩
      · rw [if_neg name, h.inverse, new]
        refine ⟨nofun, ?_⟩
        rintro ⟨t, eq⟩
        exact absurd (congrArg Registration.id (Option.some.inj eq)) name
    · rw [if_neg same]
      by_cases name : id = k
      · subst name
        rw [if_pos rfl, ← h.inverse, free, Option.some.injEq]
        exact ⟨fun eq => absurd eq same, nofun⟩
      · rw [if_neg name]
        exact h.inverse k x
  · show (s.clients.insert id c).size ≤ s.maxClients
    exact Nat.le_trans Std.ExtTreeMap.size_insert_le room
  · intro x r here
    change (s.registrations.insert c ⟨id, token⟩)[x]? = some r at here
    rw [Table.getElem?_insert] at here
    split at here
    · obtain rfl := Option.some.inj here
      exact drawn
    · exact h.tokens x r here
  · intro k x member present
    obtain ⟨t, known⟩ := h.members k x member present
    refine ⟨t, ?_⟩
    show (s.registrations.insert c ⟨id, token⟩)[x]? = _
    rw [Table.getElem?_insert, if_neg, known]
    rintro rfl
    rw [new] at known
    contradiction

end Registry

/-- When a connection may register: under its own name, or, as long as it is a member of no
group, under a free one. -/
theorem registerCode_accepted (accepted : s.registerCode c id = .accepted) :
    s.clients[id]? = some c ∨ s.clients[id]? = none ∧ s.directory.hasConnection c = false ∧
      (s.registrations.contains c = true ∨ s.clients.size < s.maxClients) := by
  unfold registerCode at accepted
  cases client : s.clients[id]? with
  | some owner =>
    rw [client] at accepted
    dsimp only at accepted
    split at accepted
    · rename_i own
      exact .inl (congrArg some own)
    · contradiction
  | none =>
    rw [client] at accepted
    dsimp only at accepted
    split at accepted
    · contradiction
    · rename_i out
      refine .inr ⟨rfl, Bool.not_eq_true _ ▸ out, ?_⟩
      split at accepted
      · rename_i known
        exact .inl known
      · split at accepted
        · contradiction
        · rename_i room
          exact .inr (Nat.lt_of_not_le room)

namespace Registry

/-- There is room for a connection that gives up a name, as there is for a new one if the server
is not full. -/
theorem room_of_unregister (h : Registry s)
    (allowed : s.registrations.contains c = true ∨ s.clients.size < s.maxClients) :
    (s.unregister c).clients.size < (s.unregister c).maxClients := by
  rw [(SameLimits.unregister s c).maxClients]
  unfold Server.unregister
  cases registered : s.registrations[c]? with
  | none =>
    refine allowed.resolve_left fun known => ?_
    obtain ⟨r, registered'⟩ := Table.contains_iff.mp known
    rw [registered] at registered'
    contradiction
  | some r =>
    have own : s.clients.contains r.id = true :=
      Table.contains_of_getElem? ((h.inverse r.id c).mpr ⟨r.token, registered⟩)
    show (s.clients.erase r.id).size < s.maxClients
    rw [Std.ExtTreeMap.size_erase, if_pos own]
    exact Nat.lt_of_lt_of_le (Nat.sub_lt (Table.size_pos_of_contains own) Nat.one_pos) h.size

theorem enroll (h : Registry s) (accepted : s.registerCode c id = .accepted) :
    Registry (s.enroll c id).2 ∧ (s.enroll c id).1.isNull = false := by
  obtain own | ⟨free, out, allowed⟩ := registerCode_accepted accepted
  · obtain ⟨token, registered⟩ := (h.inverse id c).mp own
    have same : s.enroll c id = (token, s) := enroll_own own registered
    rw [same]
    exact ⟨h, h.tokens c _ registered⟩
  · have gone := Directory.hasConnection_eq_false.mp out
    have new : (s.unregister c).registrations[c]? = none := by
      rw [unregister_registrations, if_pos rfl]
    have still : (s.unregister c).clients[id]? = none := by
      unfold Server.unregister
      split
      · exact free
      · show (s.clients.erase _)[id]? = none
        rw [Table.getElem?_erase, free, ite_self]
    have room : (s.unregister c).clients.size < (s.unregister c).maxClients :=
      h.room_of_unregister allowed
    rw [enroll_free free]
    have drawn := Token.not_isNull_of_draw (s.unregister c).tokens
    exact ⟨(h.unregister gone).insert still new room _ drawn, drawn⟩

theorem register (h : Registry s) (c : ConnId) (seq : Int32) (id : NodeId) :
    Registry (s.register c seq id) := by
  unfold Server.register
  split
  · rename_i accepted
    exact (h.enroll accepted).1.change rfl rfl ⟨rfl, rfl⟩ fun _ _ _ present => .inl present
  · exact h.change rfl rfl ⟨rfl, rfl⟩ fun _ _ _ present => .inl present

theorem handle (h : Registry s) (now : Nat) (c : ConnId) (seq : Int32) (m : Message) :
    Registry (s.handle now c seq m) := by
  by_cases asked : ∃ id, m.body = .registerRequest id
  · obtain ⟨id, body⟩ := asked
    unfold Server.handle Server.handleBy
    dsimp only [Id.run, bind, pure]
    rw [body]
    exact h.register c seq id
  · obtain ⟨registrations, clients⟩ :=
      s.handle_registry now c seq fun id body => asked ⟨id, body⟩
    apply h.change clients registrations (.handle s now c seq m)
    intro id k member present
    rw [handle_directory] at present
    cases request : s.request? c m with
    | none =>
      rw [request] at present
      exact .inl present
    | some a =>
      rw [request] at present
      refine (Directory.act_member_source present).imp_right ?_
      rintro ⟨token, joins⟩
      obtain ⟨member', known, ⟨ref, -, rfl⟩ | ⟨ref, -, rfl⟩ | ⟨ref, terms, -, rfl⟩⟩ :=
        request?_cases request
      · injection joins with conn name
        subst conn name
        exact ⟨m.sender, registered_of_authenticate known⟩
      · contradiction
      · contradiction

theorem lose (h : Registry s) (now : Nat) (c : ConnId) : Registry (s.lose now c) := by
  let left : Server := { s with directory := (s.directory.removeConnection now c).1 }
  have stays : ∀ (id : NodeId) (k : ConnId) (member : NodeId), left.directory.member? id k =
      some member → s.directory.member? id k = some member := by
    intro id k member present
    have source : (s.directory.act s.policy now (.removeConnection c)).1.member? id k =
        some member := present
    refine (Directory.act_member_source source).resolve_right ?_
    rintro ⟨token, joins⟩
    contradiction
  have less : Registry left :=
    h.change rfl rfl ⟨rfl, rfl⟩ fun id k member present => .inl (stays id k member present)
  have gone := less.unregister (c := c) fun id => s.directory.removeConnection_gone now c id
  rw [unregister_directory] at gone
  unfold Server.lose
  dsimp only
  rw [(s.unregister_frame c).2.2]
  apply gone.change (queueAll_clients _ _) (queueAll_registrations _ _)
  · exact .queueAll (.refl _) _
  · intro id k member present
    rw [queueAll_directory] at present
    exact .inl present

theorem fireDue (h : Registry s) (now : Nat) : Registry (s.fireDue now) := by
  obtain ⟨told, directory, -⟩ := s.fireDue_outbox now
  have clients : (s.fireDue now).clients = s.clients := queueAll_clients _ _
  apply h.change clients (s.fireDue_registrations now) (.act s now .expire)
  intro id c member present
  rw [directory] at present
  exact .inl (Directory.fireMany_member_source _ present)

theorem act (h : Registry s) (now : Nat) (a : Action) : Registry (s.act now a) := by
  cases a with
  | request c seq m => exact h.handle now c seq m
  | lose c => exact h.lose now c
  | expire => exact h.fireDue now
  | flush => exact h.change rfl rfl ⟨rfl, rfl⟩ fun _ _ _ present => .inl present

end Registry

/-- Whoever is told of a token is told of one that is not null. -/
def Issued (out : List Outgoing) : Prop :=
  ∀ o ∈ out, ∀ token, o.packet.message.body = .registerResponse token .accepted →
    token.isNull = false

namespace Issued
variable {out told : List Outgoing} {token : Token} {bs : List Broadcast}

theorem append (h : Issued out) (h' : Issued told) : Issued (out ++ told) := by
  intro o mem
  exact (List.mem_append.mp mem).elim (h o) (h' o)

theorem of_news (eq : mail told = news token bs) : Issued told := by
  intro o mem t body
  have role := role_of_mail eq mem
  unfold Message.role Message.kind at role
  rw [body] at role
  contradiction

theorem register (registry : Registry s) (h : Issued s.outbox) (c : ConnId) (seq : Int32)
    (id : NodeId) : Issued (s.register c seq id).outbox := by
  unfold Server.register
  split
  · rename_i accepted
    show Issued ((s.enroll c id).2.outbox ++ [_])
    rw [(s.enroll_frame c id).1]
    refine h.append fun o mem t body => ?_
    obtain rfl := List.mem_singleton.mp mem
    change Body.registerResponse (s.enroll c id).1 .accepted = _ at body
    injection body with same
    rw [← same]
    exact (registry.enroll accepted).2
  · rename_i refused
    show Issued (s.outbox ++ [_])
    refine h.append fun o mem t body => ?_
    obtain rfl := List.mem_singleton.mp mem
    change Body.registerResponse .null (s.registerCode c id) = _ at body
    injection body with _ same
    exact absurd same refused

theorem handle (registry : Registry s) (h : Issued s.outbox) (now : Nat) (c : ConnId) (seq : Int32)
    (m : Message) : Issued (s.handle now c seq m).outbox := by
  by_cases asked : ∃ id, m.body = .registerRequest id
  · obtain ⟨id, body⟩ := asked
    unfold Server.handle Server.handleBy
    dsimp only [Id.run, bind, pure]
    rw [body]
    exact register registry h c seq id
  · obtain ⟨answer, told, bs, serves, put, eq⟩ | same := s.handle_responds now c seq m
    · rw [put]
      refine h.append fun o mem t body => ?_
      rcases List.mem_cons.mp mem with rfl | mem
      · change answer = _ at body
        have answers := serves.answers
        rw [body] at answers
        cases request : m.body with
        | registerRequest id => exact absurd ⟨id, request⟩ asked
        | _ =>
          rw [request] at answers
          exact answers.elim
      · exact of_news eq o mem t body
    · rw [same]
      exact h

theorem act (registry : Registry s) (h : Issued s.outbox) (now : Nat) (a : Action) :
    Issued (s.act now a).outbox := by
  cases a with
  | request c seq m => exact handle registry h now c seq m
  | lose c =>
    obtain ⟨told, bs, -, put, eq⟩ := s.lose_outbox now c
    show Issued (s.lose now c).outbox
    rw [put]
    exact h.append (of_news eq)
  | expire =>
    obtain ⟨told, -, put, eq⟩ := s.fireDue_outbox now
    show Issued (s.fireDue now).outbox
    rw [put]
    exact h.append (of_news eq)
  | flush => exact fun o mem => absurd mem List.not_mem_nil

end Issued

/-- What holds of a server at any time. -/
structure Consistent (s : Server) : Prop where
  inverse : ∀ (id : NodeId) (c : ConnId),
    s.clients[id]? = some c ↔ ∃ token, s.registrations[c]? = some ⟨id, token⟩
  size : s.clients.size ≤ s.maxClients
  tokens : ∀ (c : ConnId) (r : Registration), s.registrations[c]? = some r → r.token.isNull = false
  issued : ∀ o ∈ s.outbox, ∀ token,
    o.packet.message.body = .registerResponse token .accepted → token.isNull = false
  groups : ∀ (id : NodeId) (g : Group), s.directory.groups[id]? = some g →
    1 ≤ g.members.size ∧ g.members.size ≤ s.policy.maxGroupSize
  members : ∀ (id : NodeId) (g : Group) (c : ConnId) (member : NodeId),
    s.directory.groups[id]? = some g → g.members[c]? = some member →
      ∃ token, s.registrations[c]? = some ⟨member, token⟩
  arrivals : ∀ (id name : NodeId) (g : Group) (p : SyncPoint) (c : ConnId) (member : NodeId),
    s.directory.groups[id]? = some g → g.points[name]? = some p → p.arrived[c]? = some member →
      g.members[c]? = some member
  distinct : ∀ (id : NodeId) (g : Group), s.directory.groups[id]? = some g → g.members.ids.Nodup ∧
    ∀ (name : NodeId) (p : SyncPoint), g.points[name]? = some p → p.arrived.ids.Nodup

theorem ids_nodup {m : Members}
    (single : ∀ (c c' : ConnId) (member : NodeId), m[c]? = some member → m[c']? = some member →
      c = c') : m.ids.Nodup :=
  (List.mergeSort_perm m.values NodeId.le).nodup_iff.mpr (Table.nodup_values single)

/-- A name is that of one connection, so no list of members has it twice. -/
theorem Consistent.of_registry {past : List Directory.Episode} (registry : Registry s)
    (issued : Issued s.outbox) (run : Directory.Run s.policy past s.directory)
    (room : 1 ≤ s.policy.maxGroupSize) : Consistent s := by
  have members : ∀ (id : NodeId) (g : Group) (c : ConnId) (member : NodeId),
      s.directory.groups[id]? = some g → g.members[c]? = some member →
        ∃ token, s.registrations[c]? = some ⟨member, token⟩ :=
    fun id g c member group present =>
      registry.members id c member (Directory.member?_eq_some.mpr ⟨g, group, present⟩)
  have arrivals : ∀ (id name : NodeId) (g : Group) (p : SyncPoint) (c : ConnId) (member : NodeId),
      s.directory.groups[id]? = some g → g.points[name]? = some p → p.arrived[c]? = some member →
        g.members[c]? = some member := by
    intro id name g p c member group point arrived
    have here : s.directory.point? id name = some p := by
      rw [Directory.point?_of_group group, point]
    have present := (run.meetings.gathering id name p here).members c member arrived
    rw [Directory.members_getElem?, Directory.member?_eq_some] at present
    obtain ⟨g', group', present⟩ := present
    rw [group, Option.some.injEq] at group'
    exact group' ▸ present
  have single : ∀ (id : NodeId) (g : Group), s.directory.groups[id]? = some g →
      ∀ (c c' : ConnId) (member : NodeId), g.members[c]? = some member →
        g.members[c']? = some member → c = c' := by
    intro id g group c c' member present present'
    have own := (registry.inverse member c).mpr (members id g c member group present)
    have own' := (registry.inverse member c').mpr (members id g c' member group present')
    rw [own, Option.some.injEq] at own'
    exact own'
  refine ⟨registry.inverse, registry.size, registry.tokens, issued, run.sized room, members,
    arrivals, ?_⟩
  intro id g group
  refine ⟨ids_nodup (single id g group), fun name p point => ids_nodup ?_⟩
  intro c c' member arrived arrived'
  exact single id g group c c' member (arrivals id name g p c member group point arrived)
    (arrivals id name g p c' member group point arrived')

section
variable {config : ServerConfig} {token : Token} {t₀ : Nat} {numbering : Numbering}
  {tokens : TokenSource} {past : List Episode}

theorem Registry.start (config : ServerConfig) (token : Token) (now : Nat)
    (numbering : Numbering) (tokens : TokenSource) :
    Registry (.start config token now numbering tokens) where
  inverse id c := by
    show (∅ : Std.ExtTreeMap NodeId ConnId)[id]? = some c ↔
      ∃ token, (∅ : Std.ExtTreeMap ConnId Registration)[c]? = _
    simp
  size := Nat.zero_le _
  tokens c r here := nomatch Std.ExtTreeMap.getElem?_empty.symm.trans here
  members id c member present := by
    obtain ⟨g, group, -⟩ := Directory.member?_eq_some.mp present
    exact nomatch Std.ExtTreeMap.getElem?_empty.symm.trans group

/-- Whatever requests come, connections are lost and events fall due, a server that admits anyone
to its groups knows its clients by one name each, never more of them than allowed, and has only
them in its groups, each once and under that name. -/
theorem History.consistent (h : History (.start config token t₀ numbering tokens) past s)
    (room : 1 ≤ config.groupMaxSize) :
    Consistent s ∧ s.maxClients = config.maxClients ∧ s.policy.maxGroupSize = config.groupMaxSize := by
  have policy : s.policy = config.policy := h.limits.policy
  have registry : Registry s ∧ Issued s.outbox := by
    clear policy
    induction h with
    | start => exact ⟨.start .., fun o mem => absurd mem List.not_mem_nil⟩
    | act now a run ih => exact ⟨ih.1.act now a, Issued.act ih.1 ih.2 now a⟩
  refine ⟨.of_registry registry.1 registry.2 (policy ▸ h.run) ?_, h.limits.maxClients, ?_⟩
  · rw [policy]
    exact room
  · rw [policy]
    rfl

theorem consistent_of_two :
    let s := (play sampleServer sampleRequests).2
    Consistent s ∧ s.clients[Directory.sampleMember]? = some 0 ∧
      s.directory.member? Directory.sampleRef.id 0 = some Directory.sampleMember := by
  intro s
  have run : History sampleServer (play sampleServer sampleRequests).1 s := .play _ _
  refine ⟨(History.consistent run (by decide)).1, ?_, ?_⟩
  · decide +kernel
  · decide +kernel

end

end Server
end Muster
