import Mathlib.Data.String.Basic
import Muster.Proofs.Directory.Audience
import Muster.Proofs.Link.Conduit
import Muster.Proofs.Server.Idle
import Muster.Proofs.Server.Retry

/-! How large packets get. The names of all members of a group and the longest names around them
fit into a packet, as long as no group is larger than a server's settings allow; one more member is
too many. -/
namespace Muster

theorem NodeId.encodedListSize_le (ids : List NodeId) :
    encodedListSize ids ≤ 4 + maxEncodedSize * ids.length := by
  induction ids with
  | nil => exact Nat.le_refl _
  | cons id ids ih =>
    have first := id.encodedSize_le
    simp only [encodedListSize, List.length_cons, maxEncodedSize, maxSize] at *
    omega

theorem NodeId.encodedListSize_of_longest {ids : List NodeId} (longest : ∀ id ∈ ids, id.size = 32) :
    encodedListSize ids = 4 + maxEncodedSize * ids.length := by
  induction ids with
  | nil => rfl
  | cons id ids ih =>
    obtain ⟨first, later⟩ := List.forall_mem_cons.mp longest
    have := ih later
    simp only [encodedListSize, encodedSize, List.length_cons, maxEncodedSize, maxSize] at *
    omega

def Body.names : Body → List NodeId
  | membershipNotice _ members _ => members
  | syncResponse _ members _ _ => members
  | progressNotice _ arrived _ _ => arrived
  | registerRequest _ | registerResponse .. | joinRequest _ | joinResponse .. | leaveRequest _
  | leaveResponse .. | syncRequest .. => []

theorem GroupRef.encodedSize_le (g : GroupRef) : g.encodedSize ≤ 68 :=
  Nat.add_le_add_right g.id.encodedSize_le Token.size

theorem SyncTerms.encodedSize_le (t : SyncTerms) : t.encodedSize ≤ 44 :=
  Nat.add_le_add_left t.point.encodedSize_le 8

/-- What a body takes besides its list of names; the answer to an arrival takes most. -/
theorem Body.encodedSize_le (b : Body) :
    b.encodedSize ≤ 120 + NodeId.maxEncodedSize * b.names.length := by
  cases b with
  | registerRequest id =>
    have := id.encodedSize_le
    simp only [encodedSize, NodeId.maxEncodedSize, NodeId.maxSize] at *
    omega
  | registerResponse => simp [encodedSize, names, Token.size]
  | joinRequest ref | joinResponse ref | leaveRequest ref | leaveResponse ref =>
    have := ref.encodedSize_le
    simp only [encodedSize]
    omega
  | membershipNotice ref ids =>
    have := ref.encodedSize_le
    have := NodeId.encodedListSize_le ids
    simp only [encodedSize, names]
    omega
  | syncRequest ref terms =>
    have := ref.encodedSize_le
    have := terms.encodedSize_le
    simp only [encodedSize]
    omega
  | syncResponse ref ids terms =>
    have := ref.encodedSize_le
    have := NodeId.encodedListSize_le ids
    have := terms.encodedSize_le
    simp only [encodedSize, names]
    omega
  | progressNotice ref ids point =>
    have := ref.encodedSize_le
    have := NodeId.encodedListSize_le ids
    have := point.encodedSize_le
    simp only [encodedSize, names, NodeId.maxEncodedSize, NodeId.maxSize] at *
    omega

/-- Packets that list no more names than a group may have fit, however long the names are. -/
theorem Packet.fits_of_names {p : Packet} (few : p.message.body.names.length ≤ maxGroupSize) :
    p.Fits := by
  have body := p.message.body.encodedSize_le
  have limit : maxGroupSize = 1815 := rfl
  simp only [Fits, encodedSize, Message.encodedSize, Header.size, Header.maxPacketSize, Token.size,
    NodeId.maxEncodedSize, NodeId.maxSize] at *
  omega

theorem News.message_names (n : News) (token : Token) : (n.message token).body.names = n.names := by
  cases n <;> rfl

namespace Members

theorem ids_length (m : Members) : m.ids.length = m.size := by
  unfold ids NodeId.sort
  rw [List.length_mergeSort, Table.values_eq, List.length_map, Std.ExtTreeMap.length_toList]

theorem Inside.size_le {t m : Members} (h : t.Inside m) : t.size ≤ m.size := by
  have keys : t.keys ⊆ m.keys := by
    intro c mem
    obtain ⟨name, here⟩ := Table.mem_keys_iff.mp mem
    exact Table.mem_keys_iff.mpr ⟨name, h c name here⟩
  have fewer := (List.subperm_of_subset Std.ExtTreeMap.nodup_keys keys).length_le
  rwa [Std.ExtTreeMap.length_keys, Std.ExtTreeMap.length_keys] at fewer

end Members

namespace Group
variable {g : Group} {id : NodeId} {b : Broadcast} {limit : Nat}

theorem announceMembers_names (g : Group) (id : NodeId) (code : MembershipCode) :
    (g.announceMembers id code).news.names.length = g.members.size := Members.ids_length _

theorem announceProgress_names (g : Group) (id name : NodeId) (p : SyncPoint)
    (code : ProgressCode) :
    (g.announceProgress id name p code).news.names.length = p.arrived.size := Members.ids_length _

theorem farewell_names (few : ∀ (name : NodeId) (p : SyncPoint), g.points[name]? = some p →
    p.arrived.size ≤ limit) (mem : b ∈ g.farewell id) : b.news.names.length ≤ limit := by
  unfold farewell at mem
  rcases List.mem_append.mp mem with mem | mem
  · obtain ⟨⟨name, p⟩, point, rfl⟩ := List.mem_map.mp mem
    rw [announceProgress_names]
    exact few name p (Std.ExtTreeMap.mem_toList_iff_getElem?_eq_some.mp point)
  · obtain rfl := List.mem_singleton.mp mem
    exact Nat.zero_le limit

end Group

namespace Directory
variable {d : Directory} {policy : Policy} {now : Nat} {a : Action} {id : NodeId}
  {s s' : Option Group} {bs : List Broadcast} {b : Broadcast}

/-- News lists no more names than a group may have members. Arrivals are members, and the end of
a closed group's sync points is told to those who were. -/
theorem GroupStep.names_le (step : GroupStep d policy now a id s s' bs)
    (gathered : ∀ g ∈ s, g.Gathered) (sized : ∀ g ∈ s, g.members.size ≤ policy.maxGroupSize)
    (mem : b ∈ bs) : b.news.names.length ≤ policy.maxGroupSize := by
  have arrivals : ∀ g ∈ s, ∀ (name : NodeId) (p : SyncPoint), g.points[name]? = some p →
      p.arrived.size ≤ policy.maxGroupSize := by
    intro g group name p point
    exact Nat.le_trans (gathered g group name p point).size_le (sized g group)
  cases step with
  | same => exact absurd mem List.not_mem_nil
  | refresh => exact absurd mem List.not_mem_nil
  | found => exact absurd mem List.not_mem_nil
  | @enter s g c member action group absent room =>
    obtain rfl := List.mem_singleton.mp mem
    rw [Group.announceMembers_names]
    have size : (g.members.insert c member).size ≤ g.members.size + 1 :=
      Std.ExtTreeMap.size_insert_le
    exact Nat.le_trans size room
  | @create g c member terms number event action present fresh p point =>
    obtain rfl := List.mem_singleton.mp mem
    rw [Group.announceProgress_names, point]
    have inside := (Members.Inside.empty g.members).insert present
    exact Nat.le_trans inside.size_le (sized g rfl)
  | @arrive g c member terms p event action present point =>
    obtain rfl := List.mem_singleton.mp mem
    rw [Group.announceProgress_names]
    have inside := (gathered g rfl terms.point p point).insert present
    exact Nat.le_trans inside.size_le (sized g rfl)
  | @part g c member action present others =>
    rcases List.mem_append.mp mem with mem | mem
    · obtain ⟨⟨name, q⟩, point, rfl⟩ := List.mem_map.mp mem
      have point := Std.ExtTreeMap.mem_toList_iff_getElem?_eq_some.mp point
      rw [departAll_getElem?] at point
      obtain ⟨p, before, rfl⟩ := Option.map_eq_some_iff.mp point
      rw [Group.announceProgress_names]
      exact Nat.le_trans Std.ExtTreeMap.size_erase_le (arrivals g rfl name p before)
    · obtain rfl := List.mem_singleton.mp mem
      rw [Group.announceMembers_names]
      exact Nat.le_trans Std.ExtTreeMap.size_erase_le (sized g rfl)
  | @dissolve g | @expire g =>
    refine Group.farewell_names ?_ mem
    exact arrivals g rfl
  | @resolve g name p resolution action point =>
    obtain rfl := List.mem_singleton.mp mem
    rw [Group.announceProgress_names]
    exact arrivals g rfl name p point

theorem act_names_le
    (gathered : ∀ (id : NodeId) (g : Group), d.groups[id]? = some g → g.Gathered)
    (sized : Sized policy d) (mem : b ∈ (d.act policy now a).2) :
    b.news.names.length ≤ policy.maxGroupSize := by
  have step := act_covers d policy now a b.news.group.id
  have own : b ∈ report (d.act policy now a).2 b.news.group.id :=
    List.mem_filter.mpr ⟨mem, decide_eq_true rfl⟩
  exact step.names_le (gathered _) (fun g group => (sized _ g group).2) own

/-- A run never tells more names than a group may have members. -/
theorem Run.names_le {past : List Episode} (h : Run policy past d)
    (room : 1 ≤ policy.maxGroupSize) (mem : b ∈ told past) :
    b.news.names.length ≤ policy.maxGroupSize := by
  obtain ⟨e, within, here⟩ := mem_told_iff.mp mem
  obtain ⟨post, pre, rfl⟩ := List.append_of_mem within
  obtain ⟨before, episode⟩ := h.at
  rw [episode] at here
  exact act_names_le before.gathered (before.sized room) here

theorem sync_members {g : Group} {c : ConnId} {member : NodeId} {ref : GroupRef}
    (terms : SyncTerms) (group : d.groups[ref.id]? = some g) (token : g.token = ref.token)
    (present : g.members[c]? = some member) :
    (d.sync now c ref terms).answer.members = g.members.ids := by
  have outcome := sync_outcome d now c ref terms
  generalize d.sync now c ref terms = change at outcome
  cases outcome with
  | rejected stranger => exact nomatch (stranger g group token).symm.trans present
  | @refresh g' member' p answer group' token' present' point reply =>
    obtain rfl := Option.some.inj (group.symm.trans group')
    rcases reply with ⟨-, rfl⟩ | ⟨-, -, rfl⟩
    · rfl
    · rfl
  | arrive group' =>
    obtain rfl := Option.some.inj (group.symm.trans group')
    rfl
  | create group' =>
    obtain rfl := Option.some.inj (group.symm.trans group')
    rfl

/-- Whoever arrives at a sync point is told the members of the group, or nothing. -/
theorem sync_names_le (sized : Sized policy d) (now : Nat) (c : ConnId) (ref : GroupRef)
    (terms : SyncTerms) :
    (d.sync now c ref terms).answer.members.length ≤ policy.maxGroupSize := by
  have outcome := sync_outcome d now c ref terms
  generalize eq : d.sync now c ref terms = change at outcome
  cases outcome with
  | rejected => exact Nat.zero_le _
  | refresh group token present | arrive group token present | create group token present =>
    rw [← eq, sync_members terms group token present, Members.ids_length]
    exact (sized ref.id _ group).2

end Directory

/-- A server that may be started has groups whose notices fit into packets. -/
theorem ServerConfig.limit_of_validate {config : ServerConfig} (valid : config.validate = .ok ()) :
    1 ≤ config.groupMaxSize ∧ config.groupMaxSize ≤ maxGroupSize := by
  unfold validate at valid
  cases checked : ConfigError.requirePositive [
      ("Select timeout", config.selectTimeout),
      ("Group idle timeout", config.groupIdleTimeout),
      ("Housekeeping interval", config.housekeepingInterval),
      ("Start timeout", config.startTimeout),
      ("Stop timeout", config.stopTimeout),
      ("Group max size", config.groupMaxSize)] with
  | error e =>
    rw [checked] at valid
    exact nomatch valid
  | ok _ =>
    refine ⟨ConfigError.positive_of_requirePositive checked
      ("Group max size", config.groupMaxSize) (by simp), ?_⟩
    rw [checked] at valid
    by_contra large
    have refused : maxGroupSize < config.groupMaxSize := Nat.lt_of_not_le large
    simp only [bind, Except.bind, if_pos refused] at valid
    exact nomatch valid

namespace NodeId

theorem utf8ByteSize_of_narrow {cs : List Char} (narrow : ∀ c ∈ cs, c.utf8Size = 1) :
    (String.ofList cs).utf8ByteSize = cs.length := by
  rw [String.utf8ByteSize_ofList]
  induction cs with
  | nil => rfl
  | cons c cs ih =>
    obtain ⟨first, later⟩ := List.forall_mem_cons.mp narrow
    rw [String.utf8Len_cons, ih later, first, List.length_cons]

def digits (n : Nat) : List Char := (List.range 32).map fun i => if n.testBit i then '1' else '0'

theorem utf8ByteSize_digits (n : Nat) : (String.ofList (digits n)).utf8ByteSize = 32 := by
  rw [utf8ByteSize_of_narrow, digits, List.length_map, List.length_range]
  intro c mem
  obtain ⟨i, -, rfl⟩ := List.mem_map.mp mem
  split <;> rfl

/-- One of the longest names. -/
def binary (n : Nat) : NodeId where
  text := String.ofList (digits n)
  size_pos := by simp [utf8ByteSize_digits]
  size_le := by simp [utf8ByteSize_digits]

@[simp] theorem binary_size (n : Nat) : (binary n).size = 32 := utf8ByteSize_digits n

theorem binary_inj {m n : Nat} (small : m < 2 ^ 32) (small' : n < 2 ^ 32)
    (same : binary m = binary n) : m = n := by
  have texts := String.ofList_injective (congrArg NodeId.text same)
  have bits := List.map_inj_left.mp texts
  apply Nat.eq_of_testBit_eq
  intro i
  by_cases low : i < 32
  · have bit := bits i (List.mem_range.mpr low)
    rw [Bool.eq_iff_iff]
    by_cases one : n.testBit i
    · rw [if_pos one] at bit
      exact iff_of_true (by_contra fun zero => nomatch (if_neg zero).symm.trans bit) one
    · rw [if_neg one] at bit
      exact iff_of_false (fun one' => nomatch (if_pos one').symm.trans bit) one
  · have bound : 2 ^ 32 ≤ 2 ^ i := Nat.pow_le_pow_right (by decide) (by omega)
    rw [Nat.testBit_lt_two_pow (by omega), Nat.testBit_lt_two_pow (by omega)]

end NodeId

theorem Directory.join_enter {d : Directory} {policy : Policy} {now : Nat} {c : ConnId}
    {ref : GroupRef} {g : Group} (group : d.groups[ref.id]?.getD (.create ref.token now) = g)
    (token : g.token = ref.token) (absent : g.members.contains c = false)
    (room : g.members.size < policy.maxGroupSize) (member : NodeId) :
    (d.join policy now c member ref).directory.groups[ref.id]? =
      some { g with members := g.members.insert c member, lastActivity := now } := by
  unfold join
  rw [group]
  dsimp only
  rw [if_neg (not_not_intro token), if_neg (absent ▸ Bool.false_ne_true),
    if_neg (Nat.not_le_of_lt room)]
  exact setGroup_self ..

namespace Server
variable {s : Server} {now : Nat} {token : Token} {bs : List Broadcast} {told : List Outgoing}
  {limit : Nat}

theorem mail_names_le (news : mail told = Server.news token bs)
    (few : ∀ b ∈ bs, b.news.names.length ≤ limit) :
    ∀ o ∈ told, o.packet.message.body.names.length ≤ limit := by
  intro o mem
  have there : (o.receiver, o.packet.message) ∈ mail told := List.mem_map.mpr ⟨o, mem, rfl⟩
  rw [news] at there
  obtain ⟨b, mem, there⟩ := List.mem_flatMap.mp there
  obtain ⟨c, -, same⟩ := List.mem_map.mp there
  rw [← (Prod.mk.inj same).2, News.message_names]
  exact few b mem

theorem Serves.names_le {c : ConnId} {m : Message} {answer : Body}
    {out : Directory × List Broadcast} (serves : s.Serves now c m answer out)
    (served : s.authenticate c m.sender ≠ none ∨ ∃ id, m.body = .registerRequest id)
    (sized : Directory.Sized s.policy s.directory) :
    answer.names.length ≤ s.policy.maxGroupSize := by
  cases serves with
  | register | join | leave => exact Nat.zero_le _
  | refuse unknown answers other =>
    rcases served with known | ⟨id, body⟩
    · exact absurd unknown known
    · exact absurd body (other id)
  | @sync member ref terms known body => exact Directory.sync_names_le sized now c ref terms

/-- Clients that are not known are told no names. -/
theorem handle_unknown_names {c : ConnId} {seq : Int32} {m : Message}
    (unknown : s.authenticate c m.sender = none) (other : ∀ id, m.body ≠ .registerRequest id) :
    ∀ o ∈ (s.handle now c seq m).outbox, o ∈ s.outbox ∨ o.packet.message.body.names = [] := by
  have refused {answer : Body} (none : answer.names = []) : ∀ o ∈ (s.respond c seq answer).outbox,
      o ∈ s.outbox ∨ o.packet.message.body.names = [] := by
    intro o mem
    refine (List.mem_append.mp mem).imp_right fun mem => ?_
    rw [List.mem_singleton.mp mem]
    exact none
  unfold handle handleBy
  dsimp only [Id.run, bind, pure]
  split
  · rename_i id body
    exact absurd body (other id)
  · rw [join_unknown unknown]
    exact refused rfl
  · rw [leave_unknown unknown]
    exact refused rfl
  · show ∀ o ∈ (s.sync now c m.sender seq _ _).outbox, _
    rw [sync_unknown unknown]
    exact refused rfl
  · exact fun o mem => .inl mem

/-- An action puts no packet into the outbox with more names than a group may have members. -/
theorem act_names_le {past : List Directory.Episode}
    (run : Directory.Run s.policy past s.directory) (room : 1 ≤ s.policy.maxGroupSize) (now : Nat)
    (a : Action) : ∀ o ∈ (s.act now a).outbox,
      o ∈ s.outbox ∨ o.packet.message.body.names.length ≤ s.policy.maxGroupSize := by
  have news : ∀ b ∈ Directory.told (s.ledger now a),
      b.news.names.length ≤ s.policy.maxGroupSize := by
    intro b mem
    obtain ⟨e, within, mem⟩ := Directory.mem_told_iff.mp mem
    exact (act_run run now a).names_le room
      (Directory.mem_told_iff.mpr ⟨e, List.mem_append_left _ within, mem⟩)
  by_cases flushed : a = .flush
  · subst flushed
    exact nofun
  by_cases asked : ∃ c seq m, a = .request c seq m ∧ m.role = .request
  · obtain ⟨c, seq, m, rfl, request⟩ := asked
    by_cases served : s.authenticate c m.sender ≠ none ∨ ∃ id, m.body = .registerRequest id
    · obtain ⟨answer, told, bs, serves, put, eq⟩ := handle_answers request s now c seq
      have later := mail_names_le eq (serves.told seq ▸ news)
      intro o mem
      change o ∈ (s.handle now c seq m).outbox at mem
      rw [put, List.mem_append, List.mem_cons] at mem
      rcases mem with old | rfl | told
      · exact .inl old
      · exact .inr (serves.names_le served (run.sized room))
      · exact .inr (later o told)
    · obtain ⟨unknown, other⟩ := not_or.mp served
      intro o mem
      have unnamed := handle_unknown_names (Decidable.not_not.mp unknown)
        (fun id body => other ⟨id, body⟩) o mem
      refine unnamed.imp_right fun none => ?_
      rw [none]
      exact Nat.zero_le _
  · obtain ⟨answers, told, put, answered, eq⟩ := s.act_tells now flushed
    have later := mail_names_le eq news
    cases answered with
    | @request c seq m answer request => exact absurd ⟨c, seq, m, rfl, request⟩ asked
    | other =>
      intro o mem
      rw [put, List.nil_append, List.mem_append] at mem
      exact mem.imp_right (later o)

section
variable {config : ServerConfig} {t₀ : Nat} {numbering : Numbering} {tokens : TokenSource}
  {past : List Episode}

theorem History.names_le (h : History (.start config token t₀ numbering tokens) past s)
    (room : 1 ≤ config.groupMaxSize) :
    ∀ o ∈ s.outbox, o.packet.message.body.names.length ≤ config.groupMaxSize := by
  induction h with
  | start => exact nofun
  | @act past s now a run ih =>
    have policy : s.policy = config.policy := run.limits.policy
    have limit : s.policy.maxGroupSize = config.groupMaxSize := by
      rw [policy]
      rfl
    intro o mem
    rcases act_names_le (policy ▸ run.run) (limit ▸ room) now a o mem with old | few
    · exact ih o old
    · exact limit ▸ few

end

/-- A server of which the first `k` connections are registered, and all of them members of one
group. -/
structure Crowd (ref : GroupRef) (k : Nat) (s : Server) : Prop where
  clients : s.clients.size ≤ k
  names : ∀ (c : ConnId) (r : Registration), s.registrations[c]? = some r → c < k ∧ r.id = .binary c
  group : ∃ g, s.directory.groups[ref.id]?.getD (.create ref.token 0) = g ∧ g.token = ref.token ∧
    g.members.size = k

section
variable {ref : GroupRef} {k : Nat}

theorem Crowd.next (h : Crowd ref k s) (registry : Registry s) (small : k < 2 ^ 32) :
    s.registrations[k]? = none ∧ s.clients[NodeId.binary k]? = none ∧
      ∀ id, s.directory.member? id k = none := by
  have fresh : s.registrations[k]? = none := by
    cases known : s.registrations[k]? with
    | none => rfl
    | some r => exact absurd (h.names k r known).1 (Nat.lt_irrefl k)
  refine ⟨fresh, ?_, fun id => ?_⟩
  · cases client : s.clients[NodeId.binary k]? with
    | none => rfl
    | some c =>
      obtain ⟨token, known⟩ := (registry.inverse _ c).mp client
      obtain ⟨less, same⟩ := h.names c _ known
      have own := NodeId.binary_inj small (Nat.lt_trans less small) same
      exact absurd less (own ▸ Nat.lt_irrefl k)
  · cases present : s.directory.member? id k with
    | none => rfl
    | some member =>
      obtain ⟨token, known⟩ := registry.members id k member present
      exact nomatch fresh.symm.trans known

theorem Crowd.register (h : Crowd ref k s) (registry : Registry s) (space : k < s.maxClients)
    (small : k < 2 ^ 32) (seq : Int32) : ∃ sender tokens outbox,
      s.register k seq (.binary k) = { s with
        tokens
        outbox
        registrations := s.registrations.insert k ⟨.binary k, sender⟩
        clients := s.clients.insert (.binary k) k } := by
  obtain ⟨fresh, free, outside⟩ := h.next registry small
  have accepted : s.registerCode k (.binary k) = .accepted := by
    have unknown : s.registrations.contains k = false := by
      rw [Std.ExtTreeMap.contains_eq_isSome_getElem?, fresh]
      rfl
    have spare : ¬s.maxClients ≤ s.clients.size := by
      have := h.clients
      omega
    unfold registerCode
    rw [free]
    simp [Directory.hasConnection_eq_false.mpr outside, unknown, spare]
  have same : s.unregister k = s := by
    unfold unregister
    rw [fresh]
  have enrolled := enroll_free free k
  rw [same] at enrolled
  rw [register_accepted accepted, enrolled]
  exact ⟨_, _, _, rfl⟩

theorem Crowd.grows (h : Crowd ref k s) (registry : Registry s)
    (room : k < s.policy.maxGroupSize) (space : k < s.maxClients) (small : k < 2 ^ 32)
    (seq seq' : Int32) :
    ∃ sender, Crowd ref (k + 1) ((s.register k seq (.binary k)).join 0 k sender seq' ref) := by
  obtain ⟨-, -, outside⟩ := h.next registry small
  obtain ⟨sender, tokens, outbox, registered⟩ := h.register registry space small seq
  have known : (s.register k seq (.binary k)).authenticate k sender = some (.binary k) := by
    rw [registered]
    unfold authenticate
    simp
  have joined : (s.register k seq (.binary k)).join 0 k sender seq' ref = _ := join_known known
  obtain ⟨g, group, token, size⟩ := h.group
  have absent : g.members.contains k = false := by
    cases stored : s.directory.groups[ref.id]? with
    | none =>
      rw [stored] at group
      rw [← group]
      exact Std.ExtTreeMap.contains_empty
    | some g' =>
      rw [stored] at group
      have none := outside ref.id
      unfold Directory.member? at none
      rw [stored, show g' = g from group] at none
      rw [Std.ExtTreeMap.contains_eq_isSome_getElem?]
      exact congrArg Option.isSome none
  have entered := Directory.join_enter group token absent (size ▸ room) (.binary k)
  refine ⟨sender, ?_, ?_, ?_⟩
  · rw [joined, queueAll_clients]
    show (s.register k seq (.binary k)).clients.size ≤ k + 1
    rw [registered]
    exact Nat.le_trans Std.ExtTreeMap.size_insert_le (Nat.add_le_add_right h.clients 1)
  · intro c r known
    rw [joined, queueAll_registrations] at known
    change (s.register k seq (.binary k)).registrations[c]? = some r at known
    rw [registered] at known
    change (s.registrations.insert k _)[c]? = some r at known
    rw [Table.getElem?_insert] at known
    split at known
    · rename_i own
      obtain rfl := Option.some.inj known
      exact ⟨own ▸ Nat.lt_succ_self k, congrArg NodeId.binary own⟩
    · obtain ⟨less, name⟩ := h.names c r known
      exact ⟨Nat.lt_succ_of_lt less, name⟩
  · rw [joined, queueAll_directory, registered]
    refine ⟨_, congrArg (Option.getD · _) entered, token, ?_⟩
    show (g.members.insert k _).size = k + 1
    rw [Std.ExtTreeMap.size_insert, if_neg (absent ▸ Bool.false_ne_true), size]

theorem Crowd.answer (h : Crowd ref k s) (registry : Registry s) (someone : 0 < k) (now : Nat)
    (seq : Int32) (terms : SyncTerms) :
    ∃ c sender, ∃ o ∈ (s.sync now c sender seq ref terms).outbox, ∃ reply : SyncReply,
      o.packet = .ofMessage seq ⟨s.token, syncResponse ref terms.point reply⟩ ∧
        reply.members.length = k ∧ ∀ id ∈ reply.members, id.size = 32 := by
  obtain ⟨g, group, token, size⟩ := h.group
  cases stored : s.directory.groups[ref.id]? with
  | none =>
    rw [stored] at group
    have nobody : g.members.size = 0 := by
      rw [← group]
      exact Std.ExtTreeMap.size_empty
    omega
  | some g' =>
    rw [stored] at group
    obtain rfl : g' = g := group
    have registered : ∀ (c : ConnId) (name : NodeId), g'.members[c]? = some name →
        ∃ sender, s.registrations[c]? = some ⟨name, sender⟩ := by
      intro c name present
      exact registry.members ref.id c name (Directory.member?_eq_some.mpr ⟨g', stored, present⟩)
    have keys : 0 < g'.members.keys.length := by
      rw [Std.ExtTreeMap.length_keys, size]
      exact someone
    obtain ⟨c, mem⟩ := List.exists_mem_of_length_pos keys
    obtain ⟨name, present⟩ := Table.mem_keys_iff.mp mem
    obtain ⟨sender, own⟩ := registered c name present
    have known : s.authenticate c sender = some name := by
      unfold authenticate
      rw [own]
      exact if_pos rfl
    obtain ⟨told, put, -⟩ := ({ s with directory := (s.directory.sync now c ref terms).directory
      }.respond c seq (syncResponse ref terms.point
        (s.directory.sync now c ref terms).answer)).queueAll_outbox
          (s.directory.sync now c ref terms).broadcasts
    refine ⟨c, sender, ⟨c, .ofMessage seq ⟨s.token, syncResponse ref terms.point _⟩⟩, ?_,
      (s.directory.sync now c ref terms).answer, rfl, ?_, ?_⟩
    · rw [sync_known known, put]
      exact List.mem_append_left told (List.mem_append_right s.outbox (List.mem_singleton_self _))
    · rw [Directory.sync_members terms stored token present, Members.ids_length, size]
    · rw [Directory.sync_members terms stored token present]
      intro id mem
      obtain ⟨c', present'⟩ := Members.exists_of_mem_ids mem
      obtain ⟨sender', known'⟩ := registered c' id present'
      obtain ⟨-, rfl⟩ := h.names c' _ known'
      exact NodeId.binary_size c'

theorem exists_crowd (config : ServerConfig) (token : Token) (t₀ : Nat) (numbering : Numbering)
    (tokens : TokenSource) (ref : GroupRef) (room : k ≤ config.groupMaxSize)
    (space : k ≤ config.maxClients) (small : k ≤ 2 ^ 32) :
    ∃ past s, History (.start config token t₀ numbering tokens) past s ∧ Crowd ref k s := by
  induction k with
  | zero =>
    refine ⟨[], _, .start, Nat.zero_le _, ?_, .create ref.token 0, ?_, rfl, ?_⟩
    · exact fun c r known => nomatch Std.ExtTreeMap.getElem?_empty.symm.trans known
    · exact congrArg (Option.getD · _) Std.ExtTreeMap.getElem?_empty
    · exact Std.ExtTreeMap.size_empty
  | succ k ih =>
    obtain ⟨past, s, run, crowd⟩ := ih (by omega) (by omega) (by omega)
    have limits := run.limits
    have policy : s.policy.maxGroupSize = config.groupMaxSize :=
      congrArg Policy.maxGroupSize limits.policy
    have clients : s.maxClients = config.maxClients := limits.maxClients
    obtain ⟨sender, grown⟩ :=
      crowd.grows run.registry (by omega) (by omega) (by omega) 1 2
    have registered := History.act 0 (.request k 1 ⟨.null, .registerRequest (.binary k)⟩) run
    exact ⟨_, _, .act 0 (.request k 2 ⟨sender, .joinRequest ref⟩) registered, grown⟩

end

/-- Every packet that a server with valid settings puts into its outbox is small enough to be sent,
however long the names in it are. Larger groups than the settings allow would have packets that are
refused. -/
theorem packets_fit_just_to_limit (config : ServerConfig) (token : Token) (t₀ : Nat)
    (numbering : Numbering) (tokens : TokenSource) :
    (config.validate = .ok () → ∀ past s,
      History (.start config token t₀ numbering tokens) past s → ∀ o ∈ s.outbox,
        o.packet.encodedSize ≤ 65536 ∧ ∀ l : Link, (l.send o.packet).1 ≠ .error .oversized) ∧
    (maxGroupSize < config.groupMaxSize → maxGroupSize < config.maxClients → ∃ past s,
      History (.start config token t₀ numbering tokens) past s ∧ ∃ o ∈ s.outbox,
        65536 < o.packet.encodedSize ∧ ∀ l : Link, (l.send o.packet).1 = .error .oversized) := by
  constructor
  · intro valid past s run o mem
    obtain ⟨room, limit⟩ := ServerConfig.limit_of_validate valid
    have fits : o.packet.Fits := Packet.fits_of_names (Nat.le_trans (run.names_le room o mem) limit)
    exact ⟨fits, fun l => mt Link.send_oversized_iff.mp (not_not_intro fits)⟩
  · intro limit clients
    let ref : GroupRef := ⟨.binary 0, .ofByte 1⟩
    obtain ⟨past, s, run, crowd⟩ := exists_crowd (k := maxGroupSize + 1) config token t₀ numbering
      tokens ref limit clients (by decide)
    obtain ⟨c, sender, o, mem, reply, packet, length, longest⟩ :=
      crowd.answer run.registry (Nat.succ_pos _) 0 1 ⟨0, .binary 0⟩
    have size : o.packet.encodedSize = 65544 := by
      have list := NodeId.encodedListSize_of_longest longest
      have name : (NodeId.binary 0).encodedSize = 36 := congrArg (4 + ·) (NodeId.binary_size 0)
      rw [packet]
      show 16 + (32 + ((NodeId.binary 0).encodedSize + 32 + NodeId.encodedListSize reply.members +
        (8 + (NodeId.binary 0).encodedSize) + 4)) = 65544
      rw [list, length, name]
      rfl
    refine ⟨_, _, .act 0 (.request c 1 ⟨sender, .syncRequest ref ⟨0, .binary 0⟩⟩) run, o, mem, ?_,
      fun l => Link.send_oversized_iff.mpr ?_⟩
    · omega
    · show ¬o.packet.encodedSize ≤ 65536
      omega

theorem packets_fit_just_to_limit_of_one_more :
    let large := { ServerConfig.standard with groupMaxSize := 1816, maxClients := 1816 }
    (∃ past s, History sampleServer past s ∧ s.outbox ≠ [] ∧
      ∀ o ∈ s.outbox, o.packet.encodedSize ≤ 65536) ∧
    large.validate = .error (.groupMaxSizeTooLarge 1815) ∧ ∃ past s,
      History (.start large .null 0 (.ofSeed 0) (.ofSeed 0)) past s ∧
        ∃ o ∈ s.outbox, 65536 < o.packet.encodedSize := by
  intro large
  have run := History.play sampleServer sampleRequests
  have fit := (packets_fit_just_to_limit .standard .null 0 (.ofSeed 0) (.ofSeed 0)).1 (by decide)
  obtain ⟨past, s, run', o, mem, size, -⟩ :=
    (packets_fit_just_to_limit large .null 0 (.ofSeed 0) (.ofSeed 0)).2 (by decide) (by decide)
  refine ⟨⟨_, _, run, by decide +kernel, fun o mem => (fit _ _ run o mem).1⟩, by decide, past, s,
    run', o, mem, size⟩

end Server
end Muster
