import Muster.Proofs.Directory.Armed
import Muster.Proofs.Server.Rejection

/-! The order in which a server sends. A request is answered once, in front of all that it causes,
so a connection gets its responses in the order of its requests, and of a sync point that a response
is about it is told the end only behind that response. -/
namespace Muster

theorem Body.Answers.kind {body request : Body} (answers : body.Answers request) :
    body.kind.answers? = some request.kind := by
  cases body <;> cases request <;> first | exact answers.elim | rfl

/-- Unless it is turned down, a request to arrive is about a sync point that is there afterwards. -/
theorem Directory.sync_point {d : Directory} {now : Nat} {c : ConnId} {ref : GroupRef}
    {terms : SyncTerms} (taken : (d.sync now c ref terms).answer.code ≠ .authenticationFailure) :
    ∃ p, (d.sync now c ref terms).directory.point? ref.id terms.point = some p := by
  have outcome := sync_outcome d now c ref terms
  generalize d.sync now c ref terms = change at outcome taken ⊢
  cases outcome with
  | rejected => exact absurd rfl taken
  | @refresh g member p reply group token present point =>
    refine ⟨p, ?_⟩
    rw [setGroup_point?, if_pos rfl]
    exact point
  | arrive => exact ⟨_, arriveAt_point ..⟩
  | create => exact ⟨_, arriveAt_point ..⟩

/-- Whether a packet answers a request of a connection. -/
def Outgoing.Answers (token : Token) (c : ConnId) (request : Int32 × Message) (o : Outgoing) :
    Prop :=
  ∃ answer, answer.Answers request.2.body ∧ o = ⟨c, .ofMessage request.1 ⟨token, answer⟩⟩

namespace Server
variable {s : Server} {now : Nat} {c : ConnId} {seq : Int32} {m : Message}

theorem act_token (s : Server) (now : Nat) (a : Action) : (s.act now a).token = s.token := by
  cases a with
  | request c seq m =>
    show (s.handle now c seq m).token = s.token
    unfold handle handleBy
    dsimp only [Id.run, bind, pure]
    split
    · unfold register
      split
      · exact (s.enroll_frame c _).2.1
      · rfl
    · unfold join
      split
      · rfl
      · exact queueAll_token _ _
    · unfold leave
      split
      · rfl
      · exact queueAll_token _ _
    · unfold syncBy
      dsimp only [Id.run, bind, pure]
      split
      · rfl
      · exact queueAll_token _ _
    · rfl
  | lose c => exact (queueAll_token _ _).trans (s.unregister_frame c).2.1
  | expire => exact queueAll_token _ _
  | flush => rfl

def output (s : Server) (now : Nat) (a : Action) : List Outgoing := (s.emptied.act now a).outbox

theorem output_tells (s : Server) (now : Nat) (a : Action) : ∃ answers told,
    s.output now a = answers ++ told ∧ a.Answered s.token answers ∧
      mail told = news s.token (Directory.told (s.ledger now a)) := by
  by_cases flush : a = .flush
  · rw [flush]
    exact ⟨[], [], rfl, .other nofun, rfl⟩
  · obtain ⟨answers, told, put, answered, eq⟩ := s.act_tells now flush
    rw [s.act_outbox now flush] at put
    exact ⟨answers, told, List.append_cancel_left put, answered, eq⟩

theorem output_of_handle {out : List Outgoing}
    (put : (s.handle now c seq m).outbox = s.outbox ++ out) :
    s.output now (.request c seq m) = out := by
  have whole := s.act_outbox now (a := .request c seq m) nofun
  exact List.append_cancel_left (whole.symm.trans put)

def responses (c : ConnId) (out : List Outgoing) : List Outgoing :=
  out.filter fun o => o.receiver = c ∧ o.packet.message.role = .response

def notices (out : List Outgoing) : List Outgoing :=
  out.filter fun o => o.packet.message.role = .notice

theorem responses_append (c : ConnId) (out out' : List Outgoing) :
    responses c (out ++ out') = responses c out ++ responses c out' := List.filter_append out out'

theorem notices_append (out out' : List Outgoing) :
    notices (out ++ out') = notices out ++ notices out' := List.filter_append out out'

section
variable {token : Token} {bs : List Broadcast} {told answers : List Outgoing} {a : Action}

theorem responses_of_mail (eq : mail told = news token bs) : responses c told = [] := by
  apply List.filter_eq_nil_iff.mpr
  intro o mem
  rw [role_of_mail eq mem]
  simp

theorem notices_of_mail (eq : mail told = news token bs) : notices told = told := by
  apply List.filter_eq_self.mpr
  intro o mem
  rw [role_of_mail eq mem]
  rfl

theorem Action.Answered.no_notices (answered : a.Answered token answers) :
    notices answers = [] := by
  apply List.filter_eq_nil_iff.mpr
  intro o mem
  rw [answered.role o mem]
  decide

end

def Action.asks (c : ConnId) : Action → List (Int32 × Message)
  | .request c' seq m => if c' = c ∧ m.role = .request then [(seq, m)] else []
  | _ => []

theorem Action.Answered.answers {token : Token} {a : Action} {answers : List Outgoing}
    (answered : a.Answered token answers) (c : ConnId) :
    List.Forall₂ (Outgoing.Answers token c) (a.asks c) (responses c answers) := by
  cases answered with
  | @request c' seq m answer request answers =>
    show List.Forall₂ _ (if c' = c ∧ m.role = .request then [(seq, m)] else []) (List.filter _ [_])
    by_cases own : c' = c
    · rw [own, if_pos ⟨rfl, request⟩, List.filter_cons_of_pos]
      · exact .cons ⟨answer, answers, rfl⟩ .nil
      · exact decide_eq_true ⟨rfl, answers.role⟩
    · rw [if_neg (fun h => own h.1), List.filter_cons_of_neg]
      · exact .nil
      · exact fun h => own (of_decide_eq_true h).1
  | other other =>
    have asks : a.asks c = [] := by
      unfold asks
      split
      · rename_i c' seq m
        exact if_neg fun h => other c' seq m rfl h.2
      · rfl
    rw [asks]
    exact .nil

def Episode.flushed (e : Episode) : List Outgoing :=
  match e.action with
  | .flush => e.before.outbox
  | _ => []

def sent (past : List Episode) (s : Server) : List Outgoing :=
  past.reverse.flatMap Episode.flushed ++ s.outbox

def requests (c : ConnId) (past : List Episode) : List (Int32 × Message) :=
  past.reverse.flatMap fun e => e.action.asks c

def toldBy (past : List Episode) : List Broadcast := Directory.told (past.flatMap Episode.ledger)

theorem toldBy_cons (e : Episode) (past : List Episode) :
    toldBy (e :: past) = toldBy past ++ Directory.told e.ledger := Directory.told_append _ _

theorem sent_act (past : List Episode) (s : Server) (now : Nat) (a : Action) :
    sent (⟨now, a, s, s.act now a⟩ :: past) (s.act now a) = sent past s ++ s.output now a := by
  unfold sent
  rw [List.reverse_cons, List.flatMap_append, List.flatMap_singleton, List.append_assoc,
    List.append_assoc]
  congr 1
  by_cases flush : a = .flush
  · rw [flush]
    rfl
  · have kept : Episode.flushed ⟨now, a, s, s.act now a⟩ = [] := by
      cases a with
      | request | lose | expire => rfl
      | flush => contradiction
    rw [kept]
    exact s.act_outbox now flush

variable {first : Server} {past post pre : List Episode} {e : Episode}

theorem History.token (h : History first past s) : s.token = first.token := by
  induction h with
  | start => rfl
  | @act past s now a run ih => exact (s.act_token now a).trans ih

theorem History.sent_later (run : History first (post ++ e :: pre) s) :
    ∃ later, sent (post ++ e :: pre) s = sent (e :: pre) e.after ++ later := by
  induction post generalizing s with
  | nil =>
    rw [List.nil_append] at run
    cases run with
    | act now a run => exact ⟨[], (List.append_nil _).symm⟩
  | cons f post ih =>
    rw [List.cons_append] at run
    cases run with
    | @act _ s now a run =>
      obtain ⟨later, eq⟩ := ih run
      refine ⟨later ++ s.output now a, ?_⟩
      rw [List.cons_append, sent_act, eq, List.append_assoc]

/-- A connection is sent one response for each of its requests, in their order. -/
theorem History.answers_requests (h : History first past s) (empty : first.outbox = [])
    (c : ConnId) : List.Forall₂ (Outgoing.Answers first.token c) (requests c past)
      (responses c (sent past s)) := by
  induction h with
  | start =>
    unfold sent
    rw [empty]
    exact .nil
  | @act past s now a run ih =>
    obtain ⟨answers, told, put, answered, eq⟩ := s.output_tells now a
    have new := answered.answers c
    rw [run.token] at new
    unfold requests
    rw [List.reverse_cons, List.flatMap_append, List.flatMap_singleton, sent_act, put,
      responses_append, responses_append, responses_of_mail eq, List.append_nil]
    exact List.rel_append ih new

/-- All other packets are the news of all that was done to the directory. -/
theorem History.tells_news (h : History first past s) (empty : first.outbox = []) :
    mail (notices (sent past s)) = news first.token (toldBy past) := by
  induction h with
  | start =>
    unfold sent
    rw [empty]
    rfl
  | @act past s now a run ih =>
    obtain ⟨answers, told, put, answered, eq⟩ := s.output_tells now a
    calc mail (notices (sent (⟨now, a, s, s.act now a⟩ :: past) (s.act now a)))
        = mail (notices (sent past s)) ++ mail told := by
          rw [sent_act, put, notices_append, notices_append, answered.no_notices,
            notices_of_mail eq]
          exact List.map_append
      _ = news first.token (toldBy past) ++ news first.token (Directory.told (s.ledger now a)) := by
          rw [ih, eq, run.token]
      _ = news first.token (toldBy (⟨now, a, s, s.act now a⟩ :: past)) := by
          rw [toldBy_cons]
          exact List.flatMap_append.symm

/-- Unless a request to arrive is turned down, the sync point that the answer is about is there
after it. -/
theorem handle_point {ref : GroupRef} {ids : List NodeId} {terms : SyncTerms} {code : SyncCode}
    (answered : s.answer? now c seq m = some (.syncResponse ref ids terms code))
    (answers : (Body.syncResponse ref ids terms code).Answers m.body)
    (taken : code ≠ .authenticationFailure) :
    ∃ p, (s.handle now c seq m).directory.point? ref.id terms.point = some p := by
  obtain ⟨sender, body⟩ := m
  cases body with
  | syncRequest ref' terms' =>
    obtain ⟨rfl, point⟩ := answers
    rw [point]
    cases known : s.authenticate c sender with
    | none =>
      have refused : s.answer? now c seq ⟨sender, .syncRequest ref terms'⟩ =
          some (syncResponse ref terms'.point .rejected) :=
        answer?_of_respond (sync_unknown known) rfl
      cases refused.symm.trans answered
      exact absurd rfl taken
    | some member =>
      have served : s.answer? now c seq ⟨sender, .syncRequest ref terms'⟩ =
          some (syncResponse ref terms'.point (s.directory.sync now c ref terms').answer) :=
        answer?_of_queueAll _ (sync_known known) rfl
      cases served.symm.trans answered
      obtain ⟨p, found⟩ := Directory.sync_point taken
      refine ⟨p, ?_⟩
      show (s.sync now c sender seq ref terms').directory.point? ref.id terms'.point = some p
      rw [sync_known known, queueAll_directory]
      exact found
  | registerRequest | registerResponse | joinRequest | joinResponse | membershipNotice
  | leaveRequest | leaveResponse | syncResponse | progressNotice => exact answers.elim

section
variable {config : ServerConfig} {token : Token} {start : Nat} {numbering : Numbering}
  {tokens : TokenSource}

/-- What is known of a request when it is answered: the sync point that the answer is about has
not come to its end. -/
theorem History.answered_before_end
    (h : History (.start config token start numbering tokens) past s) {ref : GroupRef}
    {ids : List NodeId} {terms : SyncTerms} {code : SyncCode} {told : List Outgoing}
    (put : (s.handle now c seq m).outbox =
      s.outbox ++ (⟨c, .ofMessage seq ⟨token, .syncResponse ref ids terms code⟩⟩ :: told))
    (answers : (Body.syncResponse ref ids terms code).Answers m.body)
    (taken : code ≠ .authenticationFailure) :
    ∃ p, (s.handle now c seq m).directory.point? ref.id terms.point = some p ∧
      ∀ b ∈ toldBy (⟨now, .request c seq m, s, s.handle now c seq m⟩ :: past),
        ¬b.Ends p.generation := by
  obtain ⟨p, point⟩ := handle_point (answer?_of_outbox put) answers taken
  have run : Directory.Run config.policy (records config start _)
      (s.handle now c seq m).directory := (History.act now (.request c seq m) h).run
  refine ⟨p, point, fun b mem ends => ?_⟩
  have before : b ∈ Directory.told (records config start
      (⟨now, .request c seq m, s, s.handle now c seq m⟩ :: past)) := by
    unfold records
    rw [Directory.told_append]
    exact List.mem_append_right _ mem
  exact run.generational.finished b before p.generation ends ref.id terms.point p point rfl

/-- The response to a request is put behind all that is in the outbox, and the news that the
request makes behind the response. So over a run a connection is sent one response for each of
its requests, in their order, and the news that a request makes, or of the end of the sync point
that it was answered about, only after the response. -/
theorem History.responses_in_order
    (h : History (.start config token start numbering tokens) past s) :
    (∀ now c seq m, m.role = .request → ∃ answer told,
      answer.kind.answers? = some m.kind ∧ answer.Answers m.body ∧
      mail told = news s.token (Directory.told (s.ledger now (.request c seq m))) ∧
      ∀ q, ({ s with outbox := q }.handle now c seq m).outbox =
        q ++ ⟨c, .ofMessage seq ⟨s.token, answer⟩⟩ :: told) ∧
    (∀ c, List.Forall₂ (Outgoing.Answers token c) (requests c past)
      (responses c (sent past s))) ∧
    mail (notices (sent past s)) = news token (toldBy past) ∧
    ∀ post e pre c seq m, past = post ++ e :: pre → e.action = .request c seq m →
      m.role = .request → ∃ answer told later, answer.Answers m.body ∧
        sent past s =
          sent pre e.before ++ ⟨c, .ofMessage seq ⟨token, answer⟩⟩ :: told ++ later ∧
        mail (notices (sent pre e.before)) = news token (toldBy pre) ∧
        mail told = news token (Directory.told e.ledger) ∧
        ∀ ref ids terms code, answer = .syncResponse ref ids terms code →
          code ≠ .authenticationFailure →
          ∃ p, e.after.directory.point? ref.id terms.point = some p ∧
            ∀ b ∈ toldBy (e :: pre), ¬b.Ends p.generation := by
  refine ⟨fun now c seq m request => ?_, h.answers_requests rfl, h.tells_news rfl, ?_⟩
  · obtain ⟨answer, told, answers, put, eq⟩ := handle_tells request s now c seq
    refine ⟨answer, told, answers.kind, answers, eq, fun q => ?_⟩
    rw [← output_of_handle put]
    exact ({ s with outbox := q } : Server).act_outbox now (a := .request c seq m) nofun
  · rintro post ⟨now, a, before, after⟩ pre c seq m rfl action request
    obtain ⟨run, change⟩ := h.at
    dsimp only at action run change
    subst action change
    obtain ⟨answer, told, answers, put, eq⟩ := handle_tells request before now c seq
    obtain ⟨later, behind⟩ := h.sent_later
    have token : before.token = token := run.token
    rw [token] at put eq
    refine ⟨answer, told, later, answers, ?_, run.tells_news rfl, eq, ?_⟩
    · rw [behind, sent_act, output_of_handle put]
    · rintro ref ids terms code rfl taken
      exact run.answered_before_end put answers taken

theorem responses_in_order_of_two :
    let past := (play sampleServer sampleRequests).1
    let s := (play sampleServer sampleRequests).2
    (requests 0 past).length = 3 ∧ (notices (sent past s)).length = 6 ∧
      List.Forall₂ (Outgoing.Answers .null 0) (requests 0 past) (responses 0 (sent past s)) ∧
      mail (notices (sent past s)) = news .null (toldBy past) := by
  intro past s
  have run : History sampleServer past s := .play _ _
  obtain ⟨-, answers, tells, -⟩ := History.responses_in_order run
  refine ⟨?_, ?_, answers 0, tells⟩
  · decide +kernel
  · decide +kernel

end

end Server
end Muster
