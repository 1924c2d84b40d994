import Muster.Proofs.Directory.Meeting
import Muster.Proofs.Server.History

/-! When a server tells of success: only when it handles events that are due, and only of a
meeting at which all members had arrived. -/
namespace Muster

/-- A connection is told of the success of a generation of a sync point, which is its latest. It
is among those who had arrived, and before that all members of the group had. -/
structure Directory.Episode.Succeeds (e : Episode) (past : List Episode) (c : ConnId)
    (ref : GroupRef) (point : NodeId) (generation : Nat) (ids : List NodeId) : Prop where
  told : ∃ b ∈ e.broadcasts, b.news = .progress ref point generation ids .success ∧ c ∈ b.receivers
  arrived : ∃ p, e.before.point? ref.id point = some p ∧ p.generation = generation ∧
    p.arrived.contains c
  latest : ∀ f ∈ past, ∀ p, f.after.point? ref.id point = some p → p.generation ≤ generation
  completed : ∃ f ∈ past, f.Completes ref.id point generation

/-- What a notice about a sync point tells, but for the generation, which it does not show. -/
theorem News.eq_of_message {news : News} {token : Token} {ref : GroupRef} {ids : List NodeId}
    {point : NodeId} {code : ProgressCode}
    (body : (news.message token).body = .progressNotice ref ids point code) :
    ∃ generation, news = .progress ref point generation ids code := by
  cases news with
  | membership ref' ids' code' => exact nomatch body
  | progress ref' point' generation ids' code' =>
    obtain ⟨rfl, rfl, rfl, rfl⟩ := Body.progressNotice.inj body
    exact ⟨generation, rfl⟩

namespace Server
variable {s : Server} {now : Nat} {a : Action} {o : Outgoing}

/-- Notices tell the news of what a server does to its directory. -/
theorem notice_in_ledger (empty : s.outbox = []) (mem : o ∈ (s.act now a).outbox)
    (notice : o.packet.message.role ≠ .response) :
    ∃ e ∈ s.ledger now a, ∃ b ∈ e.broadcasts, o.receiver ∈ b.receivers ∧
      o.packet.message = b.news.message s.token := by
  by_cases flush : a = .flush
  · rw [flush] at mem
    exact absurd mem List.not_mem_nil
  · obtain ⟨answers, told, put, answered, eq⟩ := s.act_tells now flush
    rw [put, empty, List.nil_append] at mem
    rcases List.mem_append.mp mem with mem | mem
    · exact absurd (answered.role o mem) notice
    · obtain ⟨b, here, receiver, message⟩ := broadcast_of_mail eq mem
      obtain ⟨e, done, inside⟩ := Directory.mem_told_iff.mp here
      exact ⟨e, done, b, inside, receiver, message⟩

/-- Only the handling of due events fires any. -/
theorem expire_of_fire {e : Directory.Episode} (here : e ∈ s.ledger now a)
    (fire : e.action = .fire) : a = .expire := by
  cases a with
  | expire => rfl
  | request c seq m =>
    obtain ⟨asked, eq, rfl⟩ := Option.map_eq_some_iff.mp (Option.mem_toList.mp here)
    obtain rfl : asked = .fire := fire
    obtain ⟨member, -, ⟨ref, -, no⟩ | ⟨ref, -, no⟩ | ⟨ref, terms, -, no⟩⟩ := request?_cases eq
    · contradiction
    · contradiction
    · contradiction
  | lose c =>
    obtain rfl := List.mem_singleton.mp here
    contradiction
  | flush => exact absurd here List.not_mem_nil

/-- A notice of success comes from the handling of a due event, and from a meeting at which its
receiver was. -/
theorem success_after_arrivals {past : List Directory.Episode}
    (run : Directory.Run s.policy past s.directory) (calm : Directory.Unforced past)
    (empty : s.outbox = []) (mem : o ∈ (s.act now a).outbox) {ref : GroupRef}
    {ids : List NodeId} {point : NodeId}
    (body : o.packet.message.body = .progressNotice ref ids point .success) :
    a = .expire ∧ ∃ e ∈ s.ledger now a, ∃ generation,
      e.Succeeds past o.receiver ref point generation ids := by
  have notice : o.packet.message.role ≠ .response := by
    show o.packet.message.body.kind.role ≠ _
    rw [body]
    show Kind.Role.notice ≠ .response
    decide
  obtain ⟨e, here, b, inside, receiver, message⟩ := notice_in_ledger empty mem notice
  rw [message] at body
  obtain ⟨generation, news⟩ := News.eq_of_message body
  obtain ⟨time, unforced, -⟩ := ledger_action here
  obtain ⟨later, earlier, split⟩ := List.append_of_mem here
  have whole := act_run run now a
  rw [split, List.append_assoc, List.cons_append] at whole
  obtain ⟨before, eq⟩ := whole.at
  have calm' : Directory.Unforced (earlier ++ past) := by
    intro f mem
    rcases List.mem_append.mp mem with mem | mem
    · have inside : f ∈ s.ledger now a := by
        rw [split]
        exact List.mem_append_right _ (List.mem_cons_of_mem e mem)
      exact (ledger_action inside).2.1
    · exact calm f mem
  have told : b ∈ (e.before.act s.policy e.now e.action).2 := by
    rw [eq] at inside
    exact inside
  obtain ⟨-, p, resolution, point', same, -, handles, receivers, -⟩ :=
    Directory.ended told news (.inl rfl)
  have expires := expire_of_fire here (handles.fires unforced).1
  refine ⟨expires, e, here, generation, ⟨b, inside, news, receiver⟩, ⟨p, point', same, ?_⟩, ?_, ?_⟩
  · rw [receivers] at receiver
    obtain ⟨member, arrived⟩ := Table.mem_keys_iff.mp receiver
    exact Table.contains_of_getElem? arrived
  · intro f mem q found
    rw [← same]
    exact before.generation_le (List.mem_append_right _ mem) found point'
  · obtain ⟨f, mem, completes⟩ := before.success_told calm' unforced told news
    rcases List.mem_append.mp mem with mem | mem
    · -- What completes a generation is an arrival, not the handling of an event.
      have inside : f ∈ s.ledger now a := by
        rw [split]
        exact List.mem_append_right _ (List.mem_cons_of_mem e mem)
      rw [expires] at inside
      obtain ⟨⟨c, token, terms, action, -⟩, -⟩ := completes.1
      rw [(Directory.mem_firings inside).2] at action
      contradiction
    · exact ⟨f, mem, completes⟩

end Server
end Muster
