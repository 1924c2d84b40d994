import Muster.Proofs.Network.Answers
import Muster.Proofs.Network.Informed

/-! A client that is connected, and that has taken in all that is on its way to it, takes itself
for a member of a group just if the server does, and knows who else is. -/
namespace Muster

/-- A connection that the server has not heard of. -/
structure Server.Unheard (s : Server) (c : ConnId) : Prop where
  registered : s.registrations[c]? = none
  named (id own : NodeId) : s.directory.Names id c own

namespace Server.Unheard
open Network
variable {s : Server} {c k : ConnId}

theorem start (config : ServerConfig) (token : Token) (now : Nat) (numbering : Numbering)
    (tokens : TokenSource) (c : ConnId) : (start config token now numbering tokens).Unheard c := by
  constructor
  · exact Std.ExtTreeMap.getElem?_empty
  · intro id own g here
    exact nomatch Std.ExtTreeMap.getElem?_empty.symm.trans here

theorem fireDue (h : s.Unheard c) (empty : s.outbox = []) (now : Nat) :
    (s.fireDue now).Unheard c where
  registered := by
    rw [fireDue_registrations]
    exact h.registered
  named id own := by
    have informs : Informs own c ⟨id, .null⟩ _ _ _ := expire_informs empty (h.named id own) now
    exact informs.named

theorem lose (h : s.Unheard c) (now : Nat) (k : ConnId) : (s.lose now k).Unheard c where
  registered := by
    rw [lose_registrations]
    split
    · rfl
    · exact h.registered
  named id own := by
    obtain ⟨told, bs, directory, -⟩ := s.lose_outbox now k
    rw [show (s.lose now k).directory = _ from congrArg Prod.fst directory]
    exact Directory.act_names (h.named id own) fun member ref eq => nomatch eq

theorem handle (h : s.Unheard c) (empty : s.outbox = []) (other : k ≠ c) (now : Nat) (r : Request) :
    (s.handle now k r.packet.seq r.packet.message).Unheard c where
  registered := by
    rw [handle_registrations now r.packet.seq fun own => absurd own other]
    exact h.registered
  named id own := by
    have informs : Informs own c ⟨id, .null⟩ _ _ _ :=
      overhear_informs empty (h.named id own) other now r false
    exact informs.named

end Server.Unheard

/-- Whether a client is connected, with nothing on its way to or from it, and all its calls have
come to an end. -/
def Peer.Resting (p : Peer) : Prop :=
  p.client.link ≠ none ∧ p.toServer = [] ∧ p.toClient = [] ∧ p.inbox = [] ∧
    ∀ job ∈ p.jobs, job.call.outcome? ≠ none

instance (p : Peer) : Decidable p.Resting := inferInstanceAs (Decidable (_ ≠ none ∧ _ = [] ∧
  _ = [] ∧ _ = [] ∧ ∀ job ∈ p.jobs, job.call.outcome? ≠ none))

namespace Network
variable {n : Network} {past : List Episode} {i : ConnId} {id : NodeId} {p : Peer}

theorem History.unheard (run : History past n) (new : n.peers[i]? = none) : n.server.Unheard i := by
  induction run with
  | start config token now numbering tokens => exact .start config token now numbering tokens i
  | @act past n run now a ih =>
    have changed {k : ConnId} {f : Peer → Peer} (new : (n.change k f).peers[i]? = none) :
        n.peers[i]? = none := by
      rw [change_peers] at new
      split at new
      · exact Option.map_eq_none_iff.mp new
      · exact new
    have delivered {m : Network} {s : Server} {origin : Option Origin}
        (new : (m.deliver s origin).peers[i]? = none) : m.peers[i]? = none := by
      rw [deliver_peers] at new
      exact Option.map_eq_none_iff.mp new
    cases a with
    | connect own config numbering =>
      apply ih
      have new : (n.peers ++ [_])[i]? = none := new
      rw [List.getElem?_eq_none_iff, List.length_append] at new
      exact List.getElem?_eq_none_iff.mpr (Nat.le_trans (Nat.le_add_right ..) new)
    | ask k a => exact ih (changed new)
    | advance k j numbering => exact ih (changed new)
    | correlate k => exact ih (changed new)
    | dispatch k => exact ih (changed new)
    | close k => exact ih (changed new)
    | expire =>
      have unheard := (ih (delivered (m := n) new)).fireDue run.outbox now
      exact ⟨unheard.registered, unheard.named⟩
    | lose k =>
      have new : (n.lose now k).peers[i]? = none := new
      show (n.lose now k).server.Unheard i
      unfold lose at new ⊢
      split at new
      · exact ih new
      · have unheard := (ih (changed (delivered new))).lose now k
        exact ⟨unheard.registered, unheard.named⟩
    | handle k =>
      have new : (n.handle now k).peers[i]? = none := new
      show (n.handle now k).server.Unheard i
      unfold handle at new ⊢
      split at new
      · exact ih new
      · rename_i r head
        have absent := changed (delivered new)
        have other : k ≠ i := by
          rintro rfl
          rw [absent] at head
          exact nomatch head
        have unheard := (ih absent).handle run.outbox other now r
        exact ⟨unheard.registered, unheard.named⟩

theorem History.enrolled (run : History past n) (apart : ∀ m ∈ past.map Episode.before, m.ApartAt i)
    (here : n.peers[i]? = some p) (linked : p.client.link ≠ none) : Enrolled n.server i p := by
  induction run generalizing p with
  | start => exact nomatch here
  | @act past n run now a ih =>
    have apart' (m : Network) (mem : m ∈ past.map Episode.before) :=
      apart m (List.mem_cons_of_mem _ mem)
    obtain ⟨q, before, turn⟩ | ⟨new, server, own, config, numbering, rfl⟩ := act_turn now a here
    · exact .turn (ih apart' before) (run.orderly apart' before) run.outbox turn linked
    · have unheard := run.unheard (List.getElem?_eq_none_iff.mpr (Nat.le_of_eq new.symm))
      rw [server]
      exact .register unheard.registered linked

/-- Whether a client minds what it has to mind about a group in a step. -/
def Episode.Heeds (e : Episode) (i : ConnId) (id : NodeId) : Prop :=
  ∀ p ∈ e.before.peers[i]?, p.Minds id ∧
    ∀ p' ∈ e.after.peers[i]?, p.Begins e.before.server i id p'

instance (e : Episode) (i : ConnId) (id : NodeId) : Decidable (e.Heeds i id) :=
  inferInstanceAs (Decidable (∀ p ∈ e.before.peers[i]?, p.Minds id ∧
    ∀ p' ∈ e.after.peers[i]?, p.Begins e.before.server i id p'))

theorem History.informed (run : History past n) (apart : ∀ m ∈ past.map Episode.before, m.ApartAt i)
    (heeds : ∀ e ∈ past, e.Heeds i id) (here : n.peers[i]? = some p)
    (linked : p.client.link ≠ none) : Informed n.server i id p := by
  induction run generalizing p with
  | start => exact nomatch here
  | @act past n run now a ih =>
    have apart' (m : Network) (mem : m ∈ past.map Episode.before) :=
      apart m (List.mem_cons_of_mem _ mem)
    have heeds' (e : Episode) (mem : e ∈ past) := heeds e (List.mem_cons_of_mem _ mem)
    obtain ⟨q, before, turn⟩ | ⟨new, server, own, config, numbering, rfl⟩ := act_turn now a here
    · obtain ⟨minds, begins⟩ := heeds _ List.mem_cons_self q before
      exact .turn (ih apart' heeds' before) (run.enrolled apart' before) (run.orderly apart' before)
        (apart n List.mem_cons_self q before) minds (begins p here) run.outbox turn linked
    · have unheard := run.unheard (List.getElem?_eq_none_iff.mpr (Nat.le_of_eq new.symm))
      rw [server]
      exact .register (unheard.named id _)

/-- A client that is connected, and that has taken in all that was on its way to it, takes itself
for a member of a group just if the server has it as one, by the token that it knows the group
by, and then it knows who else is. -/
theorem History.views_agree (run : History past n)
    (apart : ∀ m ∈ past.map Episode.before, m.ApartAt i) (heeds : ∀ e ∈ past, e.Heeds i id)
    (here : n.peers[i]? = some p) (linked : p.client.link ≠ none)
    (silent : p.toClient = []) (idle : p.inbox = []) {m : Membership}
    (known : p.client.group? id = some m) :
    (m.isJoined ↔ ∃ g, n.server.directory.groups[id]? = some g ∧ g.token = m.token ∧
      g.members.contains i) ∧
    ∀ g, n.server.directory.groups[id]? = some g → g.token = m.token → g.members.contains i →
      m.members = some (.ofList g.members.ids) := by
  have settled := (run.informed apart heeds here linked).settled m known
  unfold Peer.words at settled
  rw [idle, silent] at settled
  have agree : m.members = n.server.directory.roster i ⟨id, m.token⟩ := settled.nil
  unfold Membership.isJoined
  rw [agree]
  refine ⟨?_, fun g found token member => ?_⟩
  · rw [Option.isSome_iff_exists]
    constructor
    · rintro ⟨ids, roster⟩
      obtain ⟨g, found, token, member, -⟩ := Directory.roster_eq_some_iff.mp roster
      exact ⟨g, found, token, member⟩
    · rintro ⟨g, found, token, member⟩
      exact ⟨_, Directory.roster_eq_some_iff.mpr ⟨g, found, token, member, rfl⟩⟩
  · exact Directory.roster_eq_some_iff.mpr ⟨g, found, token, member, rfl⟩

def sampleDelay (j steps : Nat) : List (Nat × Action) :=
  .replicate steps (2000000000, .advance 0 j (Numbering.rolling 0))

/-- The caller has given up joining when the server answers, but what the server says then makes
the client a member. -/
theorem views_agree_of_abandoned_join :
    let run := samplePlay (sampleStart ++ sampleJoin sampleGroup 0 0 ++ [(0, .handle 0)] ++
      sampleDelay 0 2 ++ [(0, .correlate 0), (0, .correlate 0)] ++ sampleTake 3 ++ sampleDelay 0 3)
    (∀ m ∈ run.1.map Episode.before, m.ApartAt 0) ∧ (∀ e ∈ run.1, e.Heeds 0 sampleGroup) ∧
      ∃ p m, run.2.peers[0]? = some p ∧ p.client.link ≠ none ∧ p.toClient = [] ∧ p.inbox = [] ∧
        p.client.group? sampleGroup = some m ∧ m.isJoined ∧
          ∃ g, run.2.server.directory.groups[sampleGroup]? = some g ∧ g.token = m.token ∧
            g.members.contains 0 := by
  intro run
  have history : History run.1 run.2 := History.play _ _ _ _
  have apart : ∀ m ∈ run.1.map Episode.before, m.ApartAt 0 := by decide +kernel
  have heeds : ∀ e ∈ run.1, e.Heeds 0 sampleGroup := by decide +kernel
  obtain ⟨p, here⟩ : ∃ p, run.2.peers[0]? = some p := by
    apply Option.isSome_iff_exists.mp
    decide +kernel
  have settled : (run.2.peers[0]?.map fun p => (p.client.link.isSome, p.toClient.length,
      p.inbox.length, (p.client.group? sampleGroup).map Membership.isJoined)) =
        some (true, 0, 0, some true) := by decide +kernel
  rw [here, Option.map_some, Option.some_inj] at settled
  obtain ⟨linked, silent, idle, joined⟩ := by simpa only [Prod.mk.injEq] using settled
  have linked := Option.isSome_iff_ne_none.mp linked
  have silent := List.length_eq_zero_iff.mp silent
  have idle := List.length_eq_zero_iff.mp idle
  obtain ⟨m, known, joined⟩ := Option.map_eq_some_iff.mp joined
  obtain ⟨agree, -⟩ := history.views_agree apart heeds here linked silent idle known
  exact ⟨apart, heeds, p, m, here, linked, silent, idle, known, joined, agree.mp joined⟩

/-- Without the first condition a client may take itself for a member that is none. It gives up
leaving, and the answer finds no one who waits for it. -/
theorem views_differ_of_abandoned_leave : ∃ past n p m, History past n ∧
    (∀ s ∈ states past n, s.ApartAt 0) ∧ n.peers[0]? = some p ∧ p.Resting ∧
      p.client.group? sampleGroup = some m ∧ m.isJoined ∧
        ¬∃ g, n.server.directory.groups[sampleGroup]? = some g ∧ g.token = m.token ∧
          g.members.contains 0 := by
  let leave : List (Nat × Action) :=
    (0, .ask 0 (.leave 0)) :: .replicate 5 (0, .advance 0 1 (Numbering.rolling 1))
  let run := samplePlay (sampleStart ++ sampleJoin sampleGroup 0 0 ++
    [(0, .handle 0), (0, .correlate 0), (0, .correlate 0)] ++ sampleTake 5 ++
    sampleDelay 0 2 ++ leave ++ [(0, .handle 0)] ++ sampleDelay 1 4 ++ [(0, .correlate 0)])
  obtain ⟨p, here⟩ : ∃ p, run.2.peers[0]? = some p := by
    apply Option.isSome_iff_exists.mp
    decide +kernel
  have resting : ∀ p ∈ run.2.peers[0]?, p.Resting := by decide +kernel
  have joined : (run.2.peers[0]?.bind fun p =>
      (p.client.group? sampleGroup).map Membership.isJoined) = some true := by decide +kernel
  have absent : run.2.server.hasMember 0 sampleGroup = false := by decide +kernel
  rw [here, Option.bind_some] at joined
  obtain ⟨m, known, joined⟩ := Option.map_eq_some_iff.mp joined
  refine ⟨run.1, run.2, p, m, History.play _ _ _ _, by decide +kernel, here, resting p here, known,
    joined, ?_⟩
  rintro ⟨g, found, -, member⟩
  unfold Server.hasMember at absent
  rw [found] at absent
  exact absurd (absent.symm.trans member) Bool.false_ne_true

/-- Without the second condition a client may miss other members. It gives up joining and forgets
the group, the server lets it join, and when it asks again the server says no more than that. -/
theorem views_differ_of_forgotten_record : ∃ past n p m g, History past n ∧
    (∀ s ∈ states past n, s.ApartAt 0) ∧ n.peers[0]? = some p ∧ p.Resting ∧
      p.client.group? sampleGroup = some m ∧
        n.server.directory.groups[sampleGroup]? = some g ∧ g.token = m.token ∧
          g.members.contains 0 ∧ m.members ≠ some (.ofList g.members.ids) := by
  let bob : NodeId := ⟨"bob", by decide, by decide⟩
  let arrival : List (Nat × Action) :=
    [(0, .connect bob .standard (Numbering.rolling 1)), (0, .handle 1), (0, .correlate 1),
      (0, .dispatch 1), (0, .ask 1 (.join sampleGroup (.ofByte 7)))] ++
      .replicate 5 (0, .advance 1 0 (Numbering.rolling 1)) ++ [(0, .handle 1)]
  let run := samplePlay (sampleStart ++ arrival ++ sampleJoin sampleGroup 0 0 ++ sampleDelay 0 5 ++
    [(0, .handle 0), (0, .correlate 0), (0, .correlate 0)] ++ sampleTake 1 ++
    sampleJoin sampleGroup 1 1 ++ [(0, .handle 0), (0, .correlate 0)] ++ sampleTake 2 ++
    sampleDelay 1 2)
  obtain ⟨p, here⟩ : ∃ p, run.2.peers[0]? = some p := by
    apply Option.isSome_iff_exists.mp
    decide +kernel
  obtain ⟨g, found⟩ : ∃ g, run.2.server.directory.groups[sampleGroup]? = some g := by
    apply Option.isSome_iff_exists.mp
    decide +kernel
  have resting : ∀ p ∈ run.2.peers[0]?, p.Resting := by decide +kernel
  have view : (run.2.peers[0]?.bind fun p => (p.client.group? sampleGroup).map fun m =>
      (m.token, m.contains bob)) = some (.ofByte 7, false) := by decide +kernel
  have group : (run.2.server.directory.groups[sampleGroup]?.map fun g =>
      (g.token, g.members.contains 0, g.members[1]?)) =
        some (.ofByte 7, true, some bob) := by decide +kernel
  rw [here, Option.bind_some] at view
  rw [found, Option.map_some, Option.some_inj] at group
  obtain ⟨m, known, view⟩ := Option.map_eq_some_iff.mp view
  obtain ⟨token', member, other⟩ := by simpa only [Prod.mk.injEq] using group
  obtain ⟨token, missed⟩ := by simpa only [Prod.mk.injEq] using view
  refine ⟨run.1, run.2, p, m, g, History.play _ _ _ _, by decide +kernel, here, resting p here,
    known, found, token'.trans token.symm, member, fun same => ?_⟩
  unfold Membership.contains at missed
  rw [same] at missed
  dsimp only at missed
  rw [Std.ExtTreeSet.contains_ofList, List.contains_iff_mem.mpr (Members.mem_ids other)] at missed
  exact Bool.false_ne_true missed.symm

/-- Nor may the token of a record change while members are being taken in that it had matched. The
client gives up joining a group that it had left, while the server lets it join. The notice of
that has matched the record when a caller asks by another token, and is taken in after the record
has got that one. -/
theorem views_differ_of_exchanged_token : ∃ past n p m, History past n ∧
    (∀ s ∈ states past n, s.ApartAt 0) ∧ n.peers[0]? = some p ∧ p.Resting ∧
      p.client.group? sampleGroup = some m ∧ m.isJoined ∧
        ¬∃ g, n.server.directory.groups[sampleGroup]? = some g ∧ g.token = m.token ∧
          g.members.contains 0 := by
  let advance (j steps : Nat) : List (Nat × Action) :=
    .replicate steps (0, .advance 0 j (Numbering.rolling 1))
  let leave : List (Nat × Action) := (0, .ask 0 (.leave 0)) :: advance 1 5 ++
    [(0, .handle 0), (0, .correlate 0)] ++ sampleTake 2 ++ advance 1 3
  let exchange : List (Nat × Action) := (0, .ask 0 (.join sampleGroup (.ofByte 8))) :: advance 3 4
  let run := samplePlay (sampleStart ++ sampleJoin sampleGroup 0 0 ++
    [(0, .handle 0), (0, .correlate 0), (0, .correlate 0)] ++ sampleTake 5 ++ sampleDelay 0 2 ++
    leave ++ sampleJoin sampleGroup 2 0 ++ sampleDelay 2 2 ++
    [(0, .handle 0), (0, .correlate 0), (0, .correlate 0)] ++ sampleTake 2 ++ sampleDelay 2 1 ++
    exchange ++ sampleTake 1 ++ advance 3 1 ++ [(0, .handle 0), (0, .correlate 0)] ++
    sampleTake 2 ++ advance 3 2)
  obtain ⟨p, here⟩ : ∃ p, run.2.peers[0]? = some p := by
    apply Option.isSome_iff_exists.mp
    decide +kernel
  have resting : ∀ p ∈ run.2.peers[0]?, p.Resting := by decide +kernel
  have view : (run.2.peers[0]?.bind fun p => (p.client.group? sampleGroup).map fun m =>
      (m.token, m.isJoined)) = some (.ofByte 8, true) := by decide +kernel
  have group : (run.2.server.directory.groups[sampleGroup]?.map fun g => g.token) =
      some (.ofByte 7) := by decide +kernel
  rw [here, Option.bind_some] at view
  obtain ⟨m, known, view⟩ := Option.map_eq_some_iff.mp view
  obtain ⟨token, joined⟩ := by simpa only [Prod.mk.injEq] using view
  refine ⟨run.1, run.2, p, m, History.play _ _ _ _, by decide +kernel, here, resting p here, known,
    joined, ?_⟩
  rintro ⟨g, found, same, -⟩
  rw [found, Option.map_some, Option.some_inj, same, token] at group
  exact absurd group (by decide)

end Network
end Muster
