import Muster.Proofs.Server.History
import Muster.Proofs.Server.Registration

/-! Requests that a server turns down. Each is answered, and that is all that comes of it: a run
goes on as if the request had never been made. -/
namespace Muster

/-- Whether an answer turns a request down. The answer to a leave never tells. -/
def Body.refuses : Body → Bool
  | .registerResponse _ code => code != .accepted
  | .joinResponse _ code => code == .authenticationFailure
  | .syncResponse _ _ _ code => code == .authenticationFailure
  | _ => false

namespace Directory
variable {d : Directory} {policy : Policy} {now : Nat} {c : ConnId} {member : NodeId}
  {ref : GroupRef} {terms : SyncTerms}

theorem join_refused
    (refused : (d.join policy now c member ref).answer = .authenticationFailure) :
    d.join policy now c member ref = ⟨.authenticationFailure, d, []⟩ := by
  unfold join at refused ⊢
  dsimp only at refused ⊢
  split at refused
  · rename_i other
    rw [if_pos other]
  · split at refused
    · contradiction
    · split at refused
      · contradiction
      · contradiction

theorem leave_refused (stranger : ∀ g ∈ d.groups[ref.id]?, g.accepts c ref.token = false) :
    d.leave now c ref = ⟨false, d, []⟩ := by
  unfold leave
  cases group : d.groups[ref.id]? with
  | none => rfl
  | some g =>
    dsimp only
    rw [stranger g group, if_neg Bool.false_ne_true]

theorem sync_refused (refused : (d.sync now c ref terms).answer.code = .authenticationFailure) :
    d.sync now c ref terms = ⟨.rejected, d, []⟩ := by
  have outcome := sync_outcome d now c ref terms
  generalize d.sync now c ref terms = change at outcome refused
  cases outcome with
  | rejected => rfl
  | refresh group token present point reply =>
    obtain ⟨-, rfl⟩ | ⟨-, -, rfl⟩ := reply
    · contradiction
    · contradiction
  | arrive => exact nomatch (arriveAt_code ..).symm.trans refused
  | create => exact nomatch (arriveAt_code ..).symm.trans refused

end Directory

namespace Server

/-- The answer to a request: the first packet that its handling puts into the outbox. -/
def answer? (s : Server) (now : Nat) (c : ConnId) (seq : Int32) (m : Message) : Option Body :=
  (s.handle now c seq m).outbox[s.outbox.length]?.map fun o => o.packet.message.body

/-- Whether a connection makes a request under its own token and is a member of the group, by the
group's token. -/
def knowsMember (s : Server) (c : ConnId) (sender : Token) (ref : GroupRef) : Bool :=
  s.registrations[c]?.any (fun r => r.token == sender) &&
    s.directory.groups[ref.id]?.any fun g => g.accepts c ref.token

/-- Whether the server turns a message down. -/
def rejects (s : Server) (now : Nat) (c : ConnId) (seq : Int32) (m : Message) : Bool :=
  match m.body with
  | .leaveRequest ref => !s.knowsMember c m.sender ref
  | _ => (s.answer? now c seq m).any Body.refuses

section
variable {s s' : Server} {now : Nat} {c : ConnId} {seq : Int32} {m : Message} {answer : Body}
  {sender : Token} {ref : GroupRef}

theorem answer?_of_outbox {token : Token} {told : List Outgoing}
    (put : (s.handle now c seq m).outbox =
      s.outbox ++ (⟨c, .ofMessage seq ⟨token, answer⟩⟩ :: told)) :
    s.answer? now c seq m = some answer := by
  unfold answer?
  rw [put, List.getElem?_append_right (Nat.le_refl _), Nat.sub_self]
  rfl

theorem answer?_of_queueAll (bs : List Broadcast)
    (handled : s.handle now c seq m = (s'.respond c seq answer).queueAll bs)
    (outbox : s'.outbox = s.outbox) : s.answer? now c seq m = some answer := by
  obtain ⟨told, put, -⟩ := (s'.respond c seq answer).queueAll_outbox bs
  have first : (s.handle now c seq m).outbox =
      s.outbox ++ (⟨c, .ofMessage seq ⟨s'.token, answer⟩⟩ :: told) := by
    rw [handled, put, ← outbox]
    exact List.append_assoc ..
  exact answer?_of_outbox first

theorem answer?_of_respond (handled : s.handle now c seq m = s'.respond c seq answer)
    (outbox : s'.outbox = s.outbox) : s.answer? now c seq m = some answer :=
  answer?_of_queueAll [] handled outbox

theorem register_accepted {id : NodeId} (accepted : s.registerCode c id = .accepted) :
    s.register c seq id =
      (s.enroll c id).2.respond c seq (.registerResponse (s.enroll c id).1 .accepted) := by
  unfold register
  rw [accepted]

theorem register_refused {id : NodeId} (refused : s.registerCode c id ≠ .accepted) :
    s.register c seq id = s.respond c seq (.registerResponse .null (s.registerCode c id)) := by
  unfold register
  split
  · contradiction
  · rfl

section
variable {member : NodeId} {terms : SyncTerms}

theorem join_unknown (unknown : s.authenticate c sender = none) :
    s.join now c sender seq ref = s.respond c seq (.joinResponse ref .authenticationFailure) := by
  unfold join
  rw [unknown]

theorem leave_unknown (unknown : s.authenticate c sender = none) :
    s.leave now c sender seq ref = s.respond c seq (.leaveResponse ref .accepted) := by
  unfold leave
  rw [unknown]

theorem sync_unknown (unknown : s.authenticate c sender = none) :
    s.sync now c sender seq ref terms =
      s.respond c seq (syncResponse ref terms.point .rejected) := by
  unfold sync syncBy
  dsimp only [Id.run, bind, pure]
  rw [unknown]

theorem join_known (known : s.authenticate c sender = some member) :
    let change := s.directory.join s.policy now c member ref
    s.join now c sender seq ref = ({ s with directory := change.directory }.respond c seq
      (.joinResponse ref change.answer)).queueAll change.broadcasts := by
  unfold join
  rw [known]

theorem leave_known (known : s.authenticate c sender = some member) :
    let change := s.directory.leave now c ref
    s.leave now c sender seq ref = ({ s with directory := change.directory }.respond c seq
      (.leaveResponse ref .accepted)).queueAll change.broadcasts := by
  unfold leave
  rw [known]

theorem sync_known (known : s.authenticate c sender = some member) :
    let change := s.directory.sync now c ref terms
    s.sync now c sender seq ref terms = ({ s with directory := change.directory }.respond c seq
      (syncResponse ref terms.point change.answer)).queueAll change.broadcasts := by
  unfold sync syncBy
  rw [known]
  rfl

theorem join_idle {code : JoinCode} (known : s.authenticate c sender = some member)
    (idle : s.directory.join s.policy now c member ref = ⟨code, s.directory, []⟩) :
    s.join now c sender seq ref = s.respond c seq (.joinResponse ref code) := by
  rw [join_known known, idle]
  rfl

theorem leave_idle {left : Bool} (known : s.authenticate c sender = some member)
    (idle : s.directory.leave now c ref = ⟨left, s.directory, []⟩) :
    s.leave now c sender seq ref = s.respond c seq (.leaveResponse ref .accepted) := by
  rw [leave_known known, idle]
  rfl

theorem sync_idle {reply : SyncReply} (known : s.authenticate c sender = some member)
    (idle : s.directory.sync now c ref terms = ⟨reply, s.directory, []⟩) :
    s.sync now c sender seq ref terms = s.respond c seq (syncResponse ref terms.point reply) := by
  rw [sync_known known, idle]
  rfl

end

theorem refuses_of_rejects (rejected : s.rejects now c seq m = true)
    (other : ∀ ref, m.body ≠ .leaveRequest ref) (answered : s.answer? now c seq m = some answer) :
    answer.refuses = true := by
  unfold rejects at rejected
  split at rejected
  · rename_i ref body
    exact absurd body (other ref)
  · rw [answered] at rejected
    exact rejected

/-- All that the server does about a request that it turns down is to answer it. -/
theorem handle_rejected (rejected : s.rejects now c seq m = true) :
    ∃ answer, answer.Answers m.body ∧ s.handle now c seq m = s.respond c seq answer := by
  obtain ⟨sender, body⟩ := m
  cases body with
  | registerRequest id =>
    by_cases accepted : s.registerCode c id = .accepted
    · have answered : s.answer? now c seq ⟨sender, .registerRequest id⟩ =
          some (.registerResponse (s.enroll c id).1 .accepted) :=
        answer?_of_respond (register_accepted accepted) (s.enroll_frame c id).1
      exact nomatch refuses_of_rejects rejected nofun answered
    · refine ⟨.registerResponse .null (s.registerCode c id), ?_, register_refused accepted⟩
      exact True.intro
  | joinRequest ref =>
    cases known : s.authenticate c sender with
    | none => exact ⟨.joinResponse ref .authenticationFailure, rfl, join_unknown known⟩
    | some member =>
      let change := s.directory.join s.policy now c member ref
      have answered : s.answer? now c seq ⟨sender, .joinRequest ref⟩ =
          some (.joinResponse ref change.answer) :=
        answer?_of_queueAll _ (join_known known) rfl
      have refused := Directory.join_refused
        (beq_iff_eq.mp (refuses_of_rejects rejected nofun answered))
      exact ⟨.joinResponse ref .authenticationFailure, rfl, join_idle known refused⟩
  | leaveRequest ref =>
    refine ⟨.leaveResponse ref .accepted, rfl, ?_⟩
    show s.leave now c sender seq ref = _
    cases known : s.authenticate c sender with
    | none => exact leave_unknown known
    | some member =>
      apply leave_idle known
      apply Directory.leave_refused
      intro g group
      have rejected : (!s.knowsMember c sender ref) = true := rejected
      unfold knowsMember at rejected
      rw [registered_of_authenticate known, Option.mem_def.mp group] at rejected
      simpa using rejected
  | syncRequest ref terms =>
    cases known : s.authenticate c sender with
    | none => exact ⟨syncResponse ref terms.point .rejected, ⟨rfl, rfl⟩, sync_unknown known⟩
    | some member =>
      let change := s.directory.sync now c ref terms
      have answered : s.answer? now c seq ⟨sender, .syncRequest ref terms⟩ =
          some (syncResponse ref terms.point change.answer) :=
        answer?_of_queueAll _ (sync_known known) rfl
      have refused := Directory.sync_refused
        (beq_iff_eq.mp (refuses_of_rejects rejected nofun answered))
      exact ⟨syncResponse ref terms.point .rejected, ⟨rfl, rfl⟩, sync_idle known refused⟩
  | registerResponse | joinResponse | membershipNotice | leaveResponse | syncResponse
  | progressNotice =>
    have unanswered : s.outbox[s.outbox.length]?.map (fun o => o.packet.message.body) = none := by
      simp
    change (s.outbox[s.outbox.length]?.map fun o => o.packet.message.body).any _ = true at rejected
    rw [unanswered] at rejected
    contradiction

end

/-- The server with further packets in its outbox, in front of those that are there. -/
def behind (s : Server) (out : List Outgoing) : Server := { s with outbox := out ++ s.outbox }

/-- The server with nothing in its outbox. -/
def emptied (s : Server) : Server := { s with outbox := [] }

theorem emptied_behind (s : Server) : s.emptied.behind s.outbox = s := by
  unfold behind emptied
  dsimp only
  rw [List.append_nil]

section
variable (s : Server) (out : List Outgoing) (now : Nat) (c : ConnId) (seq : Int32)

theorem respond_behind (body : Body) :
    (s.behind out).respond c seq body = (s.respond c seq body).behind out := by
  unfold respond behind
  dsimp only
  rw [List.append_assoc]

theorem queueAll_behind (bs : List Broadcast) :
    (s.behind out).queueAll bs = (s.queueAll bs).behind out := by
  induction bs generalizing s with
  | nil => rfl
  | cons b bs ih =>
    have first : (s.behind out).queue b = (s.queue b).behind out := by
      unfold queue behind
      dsimp only
      rw [List.append_assoc]
    show ((s.behind out).queue b).queueAll bs = ((s.queue b).queueAll bs).behind out
    rw [first, ih]

theorem unregister_behind : (s.behind out).unregister c = (s.unregister c).behind out := by
  unfold unregister behind
  dsimp only
  split
  · rfl
  · rfl

theorem enroll_behind (id : NodeId) : (s.behind out).enroll c id =
    ((s.enroll c id).1, (s.enroll c id).2.behind out) := by
  have freed : (if (s.behind out).clients.contains id then s.behind out
      else (s.behind out).unregister c) =
        (if s.clients.contains id then s else s.unregister c).behind out := by
    rw [unregister_behind]
    exact (apply_ite (fun s : Server => s.behind out) _ s (s.unregister c)).symm
  unfold enroll
  dsimp only
  rw [freed]
  generalize (if s.clients.contains id then s else s.unregister c) = s'
  unfold behind
  dsimp only
  cases s'.registrations[c]? with
  | none => rfl
  | some r => rfl

theorem answer_behind (d : Directory) (body : Body) (bs : List Broadcast) :
    ({ s.behind out with directory := d }.respond c seq body).queueAll bs =
      (({ s with directory := d }.respond c seq body).queueAll bs).behind out := by
  rw [← queueAll_behind, ← respond_behind]
  rfl

theorem handle_behind (m : Message) :
    (s.behind out).handle now c seq m = (s.handle now c seq m).behind out := by
  obtain ⟨sender, body⟩ := m
  have same : (s.behind out).authenticate c sender = s.authenticate c sender := rfl
  cases body with
  | registerRequest id =>
    show (s.behind out).register c seq id = (s.register c seq id).behind out
    have code : (s.behind out).registerCode c id = s.registerCode c id := rfl
    by_cases accepted : s.registerCode c id = .accepted
    · rw [register_accepted accepted, register_accepted (code.trans accepted), enroll_behind,
        respond_behind]
    · rw [register_refused accepted, register_refused (code ▸ accepted), respond_behind, code]
  | joinRequest ref =>
    show (s.behind out).join now c sender seq ref = (s.join now c sender seq ref).behind out
    cases known : s.authenticate c sender with
    | none =>
      rw [join_unknown known, join_unknown (same.trans known)]
      exact respond_behind ..
    | some member =>
      rw [join_known known, join_known (same.trans known)]
      exact answer_behind ..
  | leaveRequest ref =>
    show (s.behind out).leave now c sender seq ref = (s.leave now c sender seq ref).behind out
    cases known : s.authenticate c sender with
    | none =>
      rw [leave_unknown known, leave_unknown (same.trans known)]
      exact respond_behind ..
    | some member =>
      rw [leave_known known, leave_known (same.trans known)]
      exact answer_behind ..
  | syncRequest ref terms =>
    show (s.behind out).sync now c sender seq ref terms =
      (s.sync now c sender seq ref terms).behind out
    cases known : s.authenticate c sender with
    | none =>
      rw [sync_unknown known, sync_unknown (same.trans known)]
      exact respond_behind ..
    | some member =>
      rw [sync_known known, sync_known (same.trans known)]
      exact answer_behind ..
  | registerResponse | joinResponse | membershipNotice | leaveResponse | syncResponse
  | progressNotice => rfl

/-- What a server does, but for taking away its outbox, does not depend on what is in there. -/
theorem act_behind {a : Action} (keeps : a ≠ .flush) :
    (s.behind out).act now a = (s.act now a).behind out := by
  cases a with
  | request c seq m => exact handle_behind s out now c seq m
  | lose c =>
    show (s.behind out).lose now c = (s.lose now c).behind out
    unfold lose
    rw [unregister_behind]
    exact queueAll_behind { s.unregister c with directory := _ } out _
  | expire => exact queueAll_behind { s with directory := _ } out _
  | flush => contradiction

end

/-- An action changes the server, but for the outbox, as it does with nothing in the outbox. -/
theorem act_emptied (s : Server) (now : Nat) (a : Action) :
    (s.act now a).emptied = (s.emptied.act now a).emptied := by
  by_cases flush : a = .flush
  · rw [flush]
    rfl
  · conv_lhs => rw [← s.emptied_behind, act_behind _ _ _ flush]
    rfl

theorem act_outbox (s : Server) (now : Nat) {a : Action} (keeps : a ≠ .flush) :
    (s.act now a).outbox = s.outbox ++ (s.emptied.act now a).outbox := by
  conv_lhs => rw [← s.emptied_behind, act_behind _ _ _ keeps]
  rfl

theorem act_adds (s : Server) (now : Nat) (a : Action) :
    (s.act now a).outbox.drop s.outbox.length = (s.emptied.act now a).outbox := by
  by_cases flush : a = .flush
  · rw [flush]
    exact List.drop_nil
  · rw [s.act_outbox now flush, List.drop_left]

/-- Whether the server turned down what was asked of it. -/
def Episode.isRejected (e : Episode) : Bool :=
  match e.action with
  | .request c seq m => e.before.rejects e.now c seq m
  | _ => false

def Episode.deed (e : Episode) : Nat × Action := (e.now, e.action)

def Episode.posts (e : Episode) : List Outgoing := e.after.outbox.drop e.before.outbox.length

theorem rejected_episode {s : Server} {now : Nat} {a : Action}
    (rejected : Episode.isRejected ⟨now, a, s, s.act now a⟩ = true) :
    ∃ c seq m answer, a = .request c seq m ∧ answer.Answers m.body ∧
      s.act now a = s.respond c seq answer := by
  cases a with
  | request c seq m =>
    obtain ⟨answer, answers, handled⟩ := handle_rejected rejected
    exact ⟨c, seq, m, answer, rfl, answers, handled⟩
  | lose | expire | flush => contradiction

variable {first s : Server} {past : List Episode}

theorem History.rejected_answered (h : History first past s) : ∀ e ∈ past, e.isRejected = true →
    ∃ c seq m answer, e.action = .request c seq m ∧ answer.Answers m.body ∧
      e.posts = [⟨c, .ofMessage seq ⟨e.before.token, answer⟩⟩] := by
  induction h with
  | start => exact fun e mem => absurd mem List.not_mem_nil
  | @act past s now a run ih =>
    intro e mem rejected
    rcases List.mem_cons.mp mem with rfl | mem
    · obtain ⟨c, seq, m, answer, asked, answers, handled⟩ := rejected_episode rejected
      refine ⟨c, seq, m, answer, asked, answers, ?_⟩
      unfold Episode.posts
      dsimp only
      rw [handled]
      exact List.drop_left
    · exact ih e mem rejected

/-- The requests that were turned down can be left out of a run. -/
theorem History.without_rejected (h : History first past s) :
    ∃ past' s', History first past' s' ∧
      past'.map Episode.deed = (past.filter fun e => !e.isRejected).map Episode.deed ∧
      past'.map Episode.posts = (past.filter fun e => !e.isRejected).map Episode.posts ∧
      s'.emptied = s.emptied := by
  induction h with
  | start => exact ⟨[], first, .start, rfl, rfl, rfl⟩
  | @act past s now a run ih =>
    obtain ⟨past', s', run', deeds, posts, same⟩ := ih
    cases rejected : Episode.isRejected ⟨now, a, s, s.act now a⟩ with
    | true =>
      -- The shorter run stands still: only the outbox of the longer one has changed.
      obtain ⟨c, seq, m, answer, -, -, handled⟩ := rejected_episode rejected
      have kept : (s.act now a).emptied = s.emptied := by
        rw [handled]
        rfl
      rw [List.filter_cons_of_neg (by simp [rejected])]
      exact ⟨past', s', run', deeds, posts, same.trans kept.symm⟩
    | false =>
      rw [List.filter_cons_of_pos (by simp [rejected])]
      refine ⟨⟨now, a, s', s'.act now a⟩ :: past', _, .act now a run', ?_, ?_, ?_⟩
      · rw [List.map_cons, List.map_cons, deeds]
        rfl
      · rw [List.map_cons, List.map_cons, posts]
        unfold Episode.posts
        dsimp only
        rw [act_adds, act_adds, same]
      · rw [act_emptied, same, ← act_emptied]

/-- Whatever a server turns down is answered, and that is all. Without the requests that are
turned down a run ends in the same server, and each of the other episodes posts the same packets
in the same order. -/
theorem History.rejections_leave_no_trace (h : History first past s) :
    (∀ now c seq m, s.rejects now c seq m = true →
      ∃ answer, answer.Answers m.body ∧ s.handle now c seq m = s.respond c seq answer) ∧
    (∀ e ∈ past, e.isRejected = true → ∃ c seq m answer, e.action = .request c seq m ∧
      answer.Answers m.body ∧ e.posts = [⟨c, .ofMessage seq ⟨e.before.token, answer⟩⟩]) ∧
    ∃ past' s', History first past' s' ∧
      past'.map Episode.deed = (past.filter fun e => !e.isRejected).map Episode.deed ∧
      past'.map Episode.posts = (past.filter fun e => !e.isRejected).map Episode.posts ∧
      s' = { s with outbox := s'.outbox } := by
  obtain ⟨past', s', run, deeds, posts, same⟩ := h.without_rejected
  refine ⟨fun _ _ _ _ => handle_rejected, h.rejected_answered, past', s', run, deeds, posts, ?_⟩
  calc s' = s'.emptied.behind s'.outbox := s'.emptied_behind.symm
    _ = { s with outbox := s'.outbox ++ [] } := by
      rw [same]
      rfl
    _ = { s with outbox := s'.outbox } := by rw [List.append_nil]

/-- Two clients ask for one name, and the second of them asks to join a group all the same; the
last request is first. -/
def sampleRefusals : List (Nat × Action) :=
  [(0, .request 1 2 ⟨.null, .joinRequest Directory.sampleRef⟩),
    (0, .request 1 1 ⟨.null, .registerRequest Directory.sampleMember⟩),
    (0, .request 0 1 ⟨.null, .registerRequest Directory.sampleMember⟩)]

theorem rejections_leave_no_trace_of_two :
    let (past, s) := play sampleServer sampleRefusals
    past.map Episode.isRejected = [true, true, false] ∧
      ∃ past' s', History sampleServer past' s' ∧
        past'.map Episode.deed = (past.filter fun e => !e.isRejected).map Episode.deed ∧
        s' = { s with outbox := s'.outbox } := by
  refine ⟨by decide +kernel, ?_⟩
  obtain ⟨-, -, past', s', run, deeds, -, same⟩ :=
    (History.play sampleServer sampleRefusals).rejections_leave_no_trace
  exact ⟨past', s', run, deeds, same⟩

end Server
end Muster
