import Muster.Proofs.Directory.Membership
import Muster.Proofs.Server.Consistent
import Muster.Proofs.Server.Rejection

/-! Requests that are made twice. After a request was handled once there is nothing left to do
about it: the second time it is only answered. -/
namespace Muster

namespace Directory
variable {d : Directory} {policy : Policy} {now : Nat} {c : ConnId} {member : NodeId}
  {ref : GroupRef} {terms : SyncTerms} {g : Group}

theorem setGroup_of_group {id : NodeId} (group : d.groups[id]? = some g) :
    d.setGroup id g = d := by
  unfold setGroup
  rw [Table.insert_of_getElem? group]

theorem setGroup_self (d : Directory) (id : NodeId) (g : Group) :
    (d.setGroup id g).groups[id]? = some g := (setGroup_groups ..).trans (if_pos rfl)

/-- A member of a group that is active at this moment joins again in vain, and so does who finds
the group full. -/
theorem join_settled {code : JoinCode} (group : d.groups[ref.id]? = some g)
    (token : g.token = ref.token) (active : g.lastActivity = now)
    (settled : g.members.contains c = true ∧ code = .accepted ∨
      g.members.contains c = false ∧ policy.maxGroupSize ≤ g.members.size ∧ code = .groupFull) :
    d.join policy now c member ref = ⟨code, d, []⟩ := by
  subst active
  unfold join
  rw [group]
  dsimp only [Option.getD_some]
  rw [if_neg (not_not_intro token)]
  obtain ⟨present, rfl⟩ | ⟨absent, full, rfl⟩ := settled
  · rw [if_pos present, setGroup_of_group group]
  · rw [if_neg (absent ▸ Bool.false_ne_true), if_pos full, setGroup_of_group group]

theorem join_again {change : Change JoinCode} (made : d.join policy now c member ref = change) :
    change.directory.join policy now c member ref = ⟨change.answer, change.directory, []⟩ := by
  by_cases refused : change.answer = .authenticationFailure
  · have idle := join_refused (made ▸ refused)
    rw [← made, idle]
    exact idle
  · -- Whichever way the first join went, the group is now as the second one would make it.
    unfold join at made
    dsimp only at made
    generalize d.groups[ref.id]?.getD (.create ref.token now) = g at made
    split at made
    · exact absurd (made ▸ rfl) refused
    · rename_i token
      have token := not_not.mp token
      split at made
      · rename_i present
        subst made
        exact join_settled (setGroup_self ..) token rfl (.inl ⟨present, rfl⟩)
      · rename_i absent
        split at made
        · rename_i full
          subst made
          exact join_settled (setGroup_self ..) token rfl
            (.inr ⟨Bool.not_eq_true _ ▸ absent, full, rfl⟩)
        · subst made
          refine join_settled (setGroup_self ..) token rfl (.inl ⟨?_, rfl⟩)
          exact Std.ExtTreeMap.contains_insert_self

theorem leave_again {change : Change Bool} (made : d.leave now c ref = change) :
    change.directory.leave now c ref = ⟨false, change.directory, []⟩ := by
  apply leave_refused
  intro g group
  unfold leave at made
  cases before : d.groups[ref.id]? with
  | none =>
    rw [before] at made
    subst made
    exact nomatch before.symm.trans group
  | some g' =>
    rw [before] at made
    dsimp only at made
    split at made
    · subst made
      have gone : (d.removeMember now c ref.id).1.member? ref.id c = none :=
        removeMember_gone d now c ref.id
      unfold member? at gone
      rw [show (d.removeMember now c ref.id).1.groups[ref.id]? = some g from group] at gone
      unfold Group.accepts
      rw [Std.ExtTreeMap.contains_eq_isSome_getElem?,
        show g.members[c]? = none from gone, Option.isSome_none, Bool.and_false]
    · rename_i refused
      subst made
      obtain rfl := Option.some.inj (before.symm.trans group)
      exact Bool.not_eq_true _ ▸ refused

/-- A member of a group that is active at this moment comes in vain to a sync point where it has
arrived, or that is over. -/
theorem sync_settled {p : SyncPoint} (group : d.groups[ref.id]? = some g)
    (token : g.token = ref.token) (active : g.lastActivity = now)
    (present : g.members[c]? = some member) (point : g.points[terms.point]? = some p)
    (settled : p.hasArrived c = true ∨ p.hasArrived c = false ∧ p.phase = .resolving) :
    ∃ reply, d.sync now c ref terms = ⟨reply, d, []⟩ := by
  subst active
  unfold sync syncBy
  dsimp only [Id.run, bind, pure]
  rw [group]
  dsimp only
  rw [present]
  dsimp only
  rw [if_neg (not_not_intro token), point]
  dsimp only
  obtain arrived | ⟨missing, resolving⟩ := settled
  · rw [if_pos arrived, setGroup_of_group group]
    exact ⟨_, rfl⟩
  · rw [if_neg (missing ▸ Bool.false_ne_true), if_pos resolving, setGroup_of_group group]
    exact ⟨_, rfl⟩

theorem hasArrived_meet (p : SyncPoint) (members : Members) (event : Nat) :
    (p.meet c member members event).hasArrived c = true := by
  unfold SyncPoint.hasArrived
  rw [SyncPoint.meet_arrived]
  exact Std.ExtTreeMap.contains_insert_self

theorem sync_met {p : SyncPoint} {code : SyncCode} {change : Change SyncReply}
    (token : g.token = ref.token) (active : g.lastActivity = now)
    (present : g.members[c]? = some member)
    (made : d.arriveAt now c member ref.id terms.point g p code = change) :
    ∃ reply, change.directory.sync now c ref terms = ⟨reply, change.directory, []⟩ := by
  obtain ⟨agenda, eq⟩ := arriveAt_eq d now c member ref.id terms.point g p code
  obtain rfl := made.symm.trans eq
  let met := p.meet c member g.members d.agenda.nextId
  have point : (g.points.insert terms.point met)[terms.point]? = some met :=
    (Table.getElem?_insert ..).trans (if_pos rfl)
  exact sync_settled (setGroup_self ..) token active present point (.inl (hasArrived_meet ..))

theorem sync_again {change : Change SyncReply} (made : d.sync now c ref terms = change) :
    ∃ reply, change.directory.sync now c ref terms = ⟨reply, change.directory, []⟩ := by
  have outcome := sync_outcome d now c ref terms
  rw [made] at outcome
  cases outcome with
  | rejected => exact ⟨.rejected, made⟩
  | @refresh g _ _ _ group token present point reply =>
    refine sync_settled (g := { g with lastActivity := now }) (setGroup_self ..) token rfl present
      point ?_
    obtain ⟨arrived, -⟩ | ⟨missing, resolving, -⟩ := reply
    · exact .inl arrived
    · exact .inr ⟨missing, resolving⟩
  -- Even if this arrival is the last that was awaited, the sync point still has it.
  | @arrive g _ _ group token present =>
    exact sync_met (g := { g with lastActivity := now }) token rfl present rfl
  | @create g _ group token present =>
    exact sync_met (g := { g with lastActivity := now }) token rfl present rfl

/-- Who has arrived at a sync point changes nothing of it by coming again, at whatever time and
with whatever terms. -/
theorem sync_arrived (now : Nat) {p : SyncPoint} (point : d.point? ref.id terms.point = some p)
    (arrived : p.hasArrived c = true) :
    ∃ reply d', d.sync now c ref terms = ⟨reply, d', []⟩ ∧ d'.agenda = d.agenda ∧
      d'.nextGeneration = d.nextGeneration ∧ ∀ id name, d'.point? id name = d.point? id name := by
  have outcome := sync_outcome d now c ref terms
  generalize d.sync now c ref terms = change at outcome
  cases outcome with
  | rejected => exact ⟨_, d, rfl, rfl, rfl, fun _ _ => rfl⟩
  | refresh group =>
    refine ⟨_, _, rfl, rfl, rfl, fun id name => ?_⟩
    rw [setGroup_point?]
    split
    · rename_i same
      rw [← same, point?_of_group group]
    · rfl
  | arrive group _ _ here missing =>
    rw [point?_of_group group, here, Option.some.injEq] at point
    subst point
    unfold SyncPoint.hasArrived at arrived
    rw [Std.ExtTreeMap.contains_eq_isSome_getElem?, missing] at arrived
    contradiction
  | create group _ _ fresh =>
    rw [point?_of_group group, fresh] at point
    contradiction

end Directory

namespace Server

/-- Whether all that the server does about a request is to answer it. -/
def Settled (s : Server) (now : Nat) (c : ConnId) (m : Message) : Prop :=
  ∃ answer, answer.Answers m.body ∧ ∀ seq, s.handle now c seq m = s.respond c seq answer

section
variable {s : Server} {now : Nat} {c : ConnId} {seq : Int32} {sender : Token} {id member : NodeId}
  {ref : GroupRef} {terms : SyncTerms}

/-- A client that registers under the name that it has keeps its token. -/
theorem register_settled {r : Registration} (registry : Registry s)
    (registered : s.registrations[c]? = some r) (seq : Int32) :
    s.register c seq r.id = s.respond c seq (.registerResponse r.token .accepted) := by
  have own : s.clients[r.id]? = some c := (registry.inverse r.id c).mpr ⟨r.token, registered⟩
  have accepted : s.registerCode c r.id = .accepted := by
    unfold registerCode
    rw [own]
    exact if_pos rfl
  rw [register_accepted accepted, enroll_own own registered]

theorem enroll_registered (registry : Registry s) (accepted : s.registerCode c id = .accepted) :
    (s.enroll c id).2.registrations[c]? = some ⟨id, (s.enroll c id).1⟩ := by
  obtain own | ⟨free, -⟩ := registerCode_accepted accepted
  · obtain ⟨token, registered⟩ := (registry.inverse id c).mp own
    have same : s.enroll c id = (token, s) := enroll_own own registered
    rw [same]
    exact registered
  · rw [enroll_free free]
    exact (Table.getElem?_insert ..).trans (if_pos rfl)

theorem register_again {token : Token} (registry : Registry s)
    (answered : s.answer? now c seq ⟨sender, .registerRequest id⟩ =
      some (.registerResponse token .accepted)) (seq' : Int32) :
    (s.register c seq id).register c seq' id =
      (s.register c seq id).respond c seq' (.registerResponse token .accepted) := by
  by_cases accepted : s.registerCode c id = .accepted
  · have made : s.handle now c seq ⟨sender, .registerRequest id⟩ = _ := register_accepted accepted
    rw [answer?_of_respond made (s.enroll_frame c id).1] at answered
    obtain ⟨rfl, -⟩ := Body.registerResponse.inj (Option.some.inj answered)
    have registered : (s.register c seq id).registrations[c]? = some ⟨id, (s.enroll c id).1⟩ := by
      rw [register_accepted accepted]
      exact enroll_registered registry accepted
    exact register_settled (registry.register c seq id) registered seq'
  · have made : s.handle now c seq ⟨sender, .registerRequest id⟩ = _ := register_refused accepted
    rw [answer?_of_respond made rfl] at answered
    exact absurd (Body.registerResponse.inj (Option.some.inj answered)).2 accepted

theorem handle_authenticate {m : Message} (other : ∀ id, m.body ≠ .registerRequest id) :
    (s.handle now c seq m).authenticate c sender = s.authenticate c sender := by
  unfold authenticate
  rw [(s.handle_registry now c seq other).1]

theorem handle_again {m : Message} (registry : Registry s) (asks : m.role = .request) :
    (s.handle now c seq m).Settled now c m := by
  obtain ⟨sender, body⟩ := m
  cases body with
  | registerRequest id =>
    by_cases accepted : s.registerCode c id = .accepted
    · have answered : s.answer? now c seq ⟨sender, .registerRequest id⟩ =
          some (.registerResponse (s.enroll c id).1 .accepted) :=
        answer?_of_respond (register_accepted accepted) (s.enroll_frame c id).1
      refine ⟨.registerResponse (s.enroll c id).1 .accepted, True.intro, fun seq' => ?_⟩
      exact register_again registry answered seq'
    · have same : (s.register c seq id).registerCode c id = s.registerCode c id := by
        rw [register_refused accepted]
        rfl
      exact ⟨.registerResponse .null _, True.intro, fun _ => register_refused (same ▸ accepted)⟩
  | joinRequest ref =>
    have known' : (s.join now c sender seq ref).authenticate c sender = s.authenticate c sender :=
      handle_authenticate (m := ⟨sender, .joinRequest ref⟩) nofun
    cases known : s.authenticate c sender with
    | none =>
      exact ⟨.joinResponse ref .authenticationFailure, rfl, fun _ =>
        join_unknown (known'.trans known)⟩
    | some member =>
      let code := (s.directory.join s.policy now c member ref).answer
      have idle : (s.join now c sender seq ref).directory.join (s.join now c sender seq ref).policy
          now c member ref = ⟨code, (s.join now c sender seq ref).directory, []⟩ := by
        rw [join_known known, queueAll_directory, queueAll_policy]
        exact Directory.join_again rfl
      exact ⟨.joinResponse ref code, rfl, fun _ => join_idle (known'.trans known) idle⟩
  | leaveRequest ref =>
    have known' : (s.leave now c sender seq ref).authenticate c sender = s.authenticate c sender :=
      handle_authenticate (m := ⟨sender, .leaveRequest ref⟩) nofun
    cases known : s.authenticate c sender with
    | none => exact ⟨.leaveResponse ref .accepted, rfl, fun _ => leave_unknown (known'.trans known)⟩
    | some member =>
      have idle : (s.leave now c sender seq ref).directory.leave now c ref =
          ⟨false, (s.leave now c sender seq ref).directory, []⟩ := by
        rw [leave_known known, queueAll_directory]
        exact Directory.leave_again rfl
      exact ⟨.leaveResponse ref .accepted, rfl, fun _ => leave_idle (known'.trans known) idle⟩
  | syncRequest ref terms =>
    have known' : (s.sync now c sender seq ref terms).authenticate c sender =
        s.authenticate c sender := handle_authenticate (m := ⟨sender, .syncRequest ref terms⟩) nofun
    cases known : s.authenticate c sender with
    | none =>
      exact ⟨syncResponse ref terms.point .rejected, ⟨rfl, rfl⟩, fun _ =>
        sync_unknown (known'.trans known)⟩
    | some member =>
      have idle : ∃ reply, (s.sync now c sender seq ref terms).directory.sync now c ref terms =
          ⟨reply, (s.sync now c sender seq ref terms).directory, []⟩ := by
        rw [sync_known known, queueAll_directory]
        exact Directory.sync_again rfl
      obtain ⟨reply, idle⟩ := idle
      exact ⟨syncResponse ref terms.point reply, ⟨rfl, rfl⟩, fun _ =>
        sync_idle (known'.trans known) idle⟩
  | registerResponse | joinResponse | membershipNotice | leaveResponse | syncResponse
  | progressNotice => contradiction

/-- A request to come to a sync point where the connection has arrived is answered, and at most
the time of the last activity changes. -/
theorem handle_arrived {m : Message} {p : SyncPoint} (body : m.body = .syncRequest ref terms)
    (point : s.directory.point? ref.id terms.point = some p) (arrived : p.hasArrived c = true) :
    ∃ answer d, s.handle now c seq m = { s with directory := d }.respond c seq answer ∧
      d.agenda = s.directory.agenda ∧ d.nextGeneration = s.directory.nextGeneration ∧
      ∀ id name, d.point? id name = s.directory.point? id name := by
  obtain ⟨sender, asked⟩ := m
  obtain rfl : asked = .syncRequest ref terms := body
  cases known : s.authenticate c sender with
  | none => exact ⟨_, s.directory, sync_unknown known, rfl, rfl, fun _ _ => rfl⟩
  | some member =>
    obtain ⟨reply, d, came, same⟩ := Directory.sync_arrived now point arrived
    refine ⟨syncResponse ref terms.point reply, d, ?_, same⟩
    show s.sync now c sender seq ref terms = _
    rw [sync_known known, came]
    rfl

end

section
variable {config : ServerConfig} {token : Token} {t₀ : Nat} {numbering : Numbering}
  {tokens : TokenSource} {past : List Episode} {s : Server}

theorem History.registry (h : History (.start config token t₀ numbering tokens) past s) :
    Registry s := by
  induction h with
  | start => exact .start config token t₀ numbering tokens
  | act now a run ih => exact ih.act now a

/-- All that comes of a request that is made again at once is one more answer. By coming again to
a sync point a connection neither puts its end off nor completes it, and no new sync point comes
of it. By registering again, at once or at any later time, it gets the same token. -/
theorem History.retries_are_harmless
    (h : History (.start config token t₀ numbering tokens) past s) (now : Nat) (c : ConnId)
    (seq seq' : Int32) (m : Message) (asks : m.role = .request) :
    let once := s.handle now c seq m
    (∃ answer, answer.Answers m.body ∧ once.handle now c seq' m = once.respond c seq' answer) ∧
    (∀ ref terms p, m.body = .syncRequest ref terms →
      s.directory.point? ref.id terms.point = some p → p.hasArrived c = true →
        ∃ answer d, once = { s with directory := d }.respond c seq answer ∧
          d.agenda = s.directory.agenda ∧ d.nextGeneration = s.directory.nextGeneration ∧
          ∀ id name, d.point? id name = s.directory.point? id name) ∧
    ∀ id, m.body = .registerRequest id →
      (∀ t, s.answer? now c seq m = some (.registerResponse t .accepted) →
        once.handle now c seq' m = once.respond c seq' (.registerResponse t .accepted)) ∧
      ∀ t, s.registrations[c]? = some ⟨id, t⟩ →
        once = s.respond c seq (.registerResponse t .accepted) := by
  intro once
  refine ⟨?_, fun _ _ _ => handle_arrived, fun id body => ?_⟩
  · have settled : once.Settled now c m := handle_again h.registry asks
    obtain ⟨answer, answers, handled⟩ := settled
    exact ⟨answer, answers, handled seq'⟩
  · obtain ⟨sender, asked⟩ := m
    obtain rfl : asked = .registerRequest id := body
    exact ⟨fun t answered => register_again h.registry answered seq',
      fun t registered => register_settled h.registry registered seq⟩

/-- The first of two clients comes again to the sync point at which both have met. -/
theorem retries_are_harmless_of_two :
    let s := (play sampleServer sampleRequests).2
    let m : Message := ⟨(TokenSource.ofSeed 0).draw.1,
      .syncRequest Directory.sampleRef Directory.sampleTerms⟩
    let once := s.handle 0 0 4 m
    (∃ p, s.directory.point? Directory.sampleRef.id Directory.sampleTerms.point = some p ∧
      p.hasArrived 0 = true) ∧
      ∃ answer, answer.Answers m.body ∧ once.handle 0 0 5 m = once.respond 0 5 answer := by
  intro s m once
  have here : (s.directory.point? Directory.sampleRef.id Directory.sampleTerms.point).any
      (fun p => p.hasArrived 0) = true := by decide +kernel
  refine ⟨Option.any_eq_true .. |>.mp here, ?_⟩
  exact (History.retries_are_harmless (.play sampleServer sampleRequests) 0 0 4 5 m rfl).1

end

end Server
end Muster
