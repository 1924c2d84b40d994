import Muster.Proofs.Network.Answers
import Muster.Proofs.Network.SyncCalls
import Muster.Proofs.Network.Writes

/-! What has happened before a call returns that all have met. The server has answered the
request of that call and has told of the success after that, of a generation at which all members
of the group had arrived. -/
namespace Muster

def Outcome.isMet : Outcome → Bool
  | .waited (.ok true) => true
  | _ => false

theorem Outcome.eq_of_isMet {outcome : Outcome} (met : outcome.isMet = true) :
    outcome = .waited (.ok true) := by
  unfold isMet at met
  split at met
  · rfl
  · contradiction

namespace Network
variable {n : Network} {i : ConnId} {past : List Episode}

structure Episode.Answers (e : Episode) (i : ConnId) (r : Request) : Prop where
  handles : e.action = .handle i
  next : (e.before.peers[i]?.bind fun p => p.toServer.head?) = some r
  written : ∃ y ∈ e.writes i, y.request? = some r

/-- The server writes to a client that all have met at a sync point of a group. The client is
among those who had arrived in the generation that ends, which is the latest of that sync point,
and all members of the group had arrived in it at the arrival that completed it. -/
structure Episode.Tells (e : Episode) (past : List Episode) (i : ConnId) (x : Incoming)
    (id point : NodeId) : Prop where
  expires : e.action = .expire
  written : x ∈ e.writes i
  succeeds : ∃ ref ids, x.packet.message.body = .progressNotice ref ids point .success ∧
    ref.id = id ∧ ∃ f ∈ e.ledger, ∃ generation,
      f.Succeeds (past.flatMap Episode.ledger) i ref point generation ids

/-- The server has written to a client that all have met, after it answered a request of the
client. -/
def ToldAfterAnswer (past : List Episode) (i : ConnId) (r : Request) (x : Incoming)
    (id point : NodeId) : Prop :=
  ∃ later told between answered earlier, past = later ++ told :: (between ++ answered :: earlier) ∧
    answered.Answers i r ∧ told.Tells (between ++ answered :: earlier) i x id point

theorem History.at {post pre : List Episode} {e : Episode}
    (run : History (post ++ e :: pre) n) :
    History pre e.before ∧ e.after = e.before.act e.now e.action := by
  induction post generalizing n with
  | nil =>
    rw [List.nil_append] at run
    cases run with
    | act run now a => exact ⟨run, rfl⟩
  | cons f post ih =>
    rw [List.cons_append] at run
    cases run with
    | act run now a => exact ih run

theorem answers_of_writes {e : Episode} (run : History past e.before) {y : Incoming}
    (mem : y ∈ e.writes i) {r : Request} (origin : y.request? = some r) : e.Answers i r := by
  obtain ⟨now, a, n, n'⟩ := e
  have mem' : y ∈ n.writes now a i := mem
  have quiet (notices : ∀ y ∈ n.writes now a i, y.packet.RespondsTo y.request? ∧
      y.request? = none) : False := by
    obtain ⟨-, none⟩ := notices y mem'
    exact nomatch none.symm.trans origin
  cases a with
  | handle k =>
    cases next : n.peers[k]?.bind fun p => p.toServer.head? with
    | none =>
      have idle : n.serverAction? (.handle k) = none := by
        simp only [serverAction?, next, Option.map_none]
      rw [writes_none idle] at mem'
      exact absurd mem' List.not_mem_nil
    | some r' =>
      rw [writes_handle next] at mem' quiet
      have split := arrivals_handle run.outbox now k i r' (removes n.server
        (n.server.handle now k r'.packet.seq r'.packet.message) k r'.packet.message.body)
      obtain notices | ⟨rfl, -, once⟩ := split
      · exact (quiet notices).elim
      · have own := once.subset (List.mem_filterMap.mpr ⟨y, mem', origin⟩)
        obtain rfl := List.mem_singleton.mp own
        exact ⟨rfl, next, y, mem, origin⟩
  | expire => exact (quiet (expire_notices run.outbox now)).elim
  | lose k =>
    cases gone : n.peers[k]?.bind fun p => p.client.link with
    | none =>
      rw [writes_lose gone] at quiet
      exact (quiet (lose_notices run.outbox now k)).elim
    | some link =>
      have idle : n.serverAction? (.lose k) = none := by
        simp only [serverAction?, gone]
      rw [writes_none idle] at mem'
      exact absurd mem' List.not_mem_nil
  | connect | ask | advance | correlate | dispatch | close => exact absurd mem' List.not_mem_nil

/-- That all have met is told when due events are handled, and it is true. -/
theorem tells_of_writes {e : Episode} (run : History past e.before) {x : Incoming}
    (mem : x ∈ e.writes i) {ref : GroupRef} {ids : List NodeId} {point : NodeId}
    (body : x.packet.message.body = .progressNotice ref ids point .success) :
    e.Tells past i x ref.id point := by
  have inside : x ∈ e.before.writes e.now e.action i := mem
  unfold Network.writes at inside
  cases acts : e.before.serverAction? e.action with
  | none =>
    rw [acts] at inside
    exact absurd inside List.not_mem_nil
  | some b =>
    rw [acts] at inside
    have ledger : e.ledger = e.before.server.ledger e.now b := by
      unfold Episode.ledger
      rw [acts]
    obtain ⟨o, mine, rfl⟩ := List.mem_map.mp inside
    obtain ⟨sent, own⟩ := List.mem_filter.mp mine
    have own : o.receiver = i := of_decide_eq_true own
    subst own
    obtain ⟨config, start, served⟩ := run.run
    obtain ⟨rfl, f, here, generation, succeeds⟩ := Server.success_after_arrivals served
      (ledger_unforced past config start) run.outbox sent body
    refine ⟨expire_of_serverAction acts, mem, ref, ids, body, rfl, f, ledger ▸ here, generation,
      succeeds.told, succeeds.arrived, fun g mem => succeeds.latest g (List.mem_append_left _ mem),
      ?_⟩
    obtain ⟨g, mem, completes⟩ := succeeds.completed
    rcases List.mem_append.mp mem with mem | mem
    · exact ⟨g, mem, completes⟩
    · -- Nothing arrives when the server opens.
      obtain rfl := List.mem_singleton.mp mem
      obtain ⟨⟨⟨c, token, terms, action, -⟩, -⟩, -⟩ := completes
      contradiction

/-- A success that a client hears after the answer to a request was told after that answer. -/
theorem told_after_answer (run : History past n) {p : Peer} (here : n.peers[i]? = some p)
    {x y : Handed} {rest : List Handed} (next : p.inbox = x :: rest) (heard : y ∈ p.heard)
    {r : Request} (origin : y.request? = some r) {ref : GroupRef} {ids : List NodeId}
    {point : NodeId}
    (body : x.delivery.packet.message.body = .progressNotice ref ids point .success) :
    ToldAfterAnswer past i r x.incoming ref.id point := by
  have order : [y.incoming, x.incoming].Sublist (written i past) := by
    apply List.Sublist.trans _ (run.stream_written here)
    have first : [y].Sublist p.heard.reverse :=
      List.singleton_sublist.mpr (List.mem_reverse.mpr heard)
    have second : [x].Sublist p.inbox := by
      rw [next]
      exact List.singleton_sublist.mpr List.mem_cons_self
    have both := (first.append second).map Handed.incoming
    exact both.trans (List.sublist_append_left _ _)
  -- No step writes both a response and news of success.
  have apart (e : Episode) (mem : e ∈ past) (answer : y.incoming ∈ e.writes i) :
      x.incoming ∉ e.writes i := by
    intro success
    obtain ⟨post, pre, rfl⟩ := List.append_of_mem mem
    obtain ⟨before, -⟩ := run.at
    have answers : e.Answers i r := answers_of_writes before answer origin
    have tells := tells_of_writes before success body
    exact nomatch answers.handles.symm.trans tells.expires
  obtain ⟨later, told, between, answered, earlier, rfl, success, answer⟩ :=
    written_before order apart
  obtain ⟨before, -⟩ := run.at
  exact ⟨later, told, between, answered, earlier, rfl, answers_of_writes before.at.1 answer origin,
    tells_of_writes before success body⟩

/-- Whether a call of a client waits on a record and holds a request. -/
def Holds (n : Network) (i : ConnId) (j : Nat) (h : Handle) (r : Request) : Prop :=
  ∃ p job, n.peers[i]? = some p ∧ p.jobs[j]? = some job ∧ job.handle = h ∧ job.claim = .wait ∧
    job.request = some r

/-- Whether the wait on a record of a client has ended with the news that all have met. -/
def Succeeded (n : Network) (i : ConnId) (h : Handle) : Prop :=
  ∃ p m w, n.peers[i]? = some p ∧ p.client.records[h]? = some m ∧ m.wait = some w ∧ w.Succeeded

/-- No two requests of a client to meet others have the same number while one of them is to be
answered. -/
def SyncApartAt (n : Network) (i : ConnId) : Prop := ∀ p ∈ n.peers[i]?, p.SyncApart

instance (n : Network) (i : ConnId) : Decidable (n.SyncApartAt i) :=
  inferInstanceAs (Decidable (∀ p ∈ n.peers[i]?, p.SyncApart))

/-- A client takes in that all have met at a sync point of the group of a record. A call that
waits on the record had asked for that, and the server told of the success after it had answered
the request of the call. -/
structure Episode.Learns (e : Episode) (past : List Episode) (i : ConnId) (h : Handle) (j : Nat)
    (r : Request) (id point : NodeId) : Prop where
  fresh : ¬e.before.Succeeded i h
  success : e.after.Succeeded i h
  holds : e.before.Holds i j h r
  asks : r.Asks id point
  takes : ∃ p m x rest, e.before.peers[i]? = some p ∧ p.client.records[h]? = some m ∧ m.id = id ∧
    p.inbox = x :: rest ∧ e.after.peers[i]? = some p.dispatch ∧
    ToldAfterAnswer past i r x.incoming id point

/-- What is known of a request after its call has learnt of success. -/
def Learned (past : List Episode) (i : ConnId) (h : Handle) (j : Nat) (r : Request) : Prop :=
  ∃ later e earlier id point, past = later ++ e :: earlier ∧ e.Learns earlier i h j r id point

theorem Learned.later {h : Handle} {j : Nat} {r : Request} (learned : Learned past i h j r)
    (e : Episode) : Learned (e :: past) i h j r := by
  obtain ⟨later, f, earlier, id, point, rfl, learns⟩ := learned
  exact ⟨e :: later, f, earlier, id, point, rfl, learns⟩

theorem learns_of_succeeds {n n' : Network} (run : History past n) {p : Peer}
    (here : n.peers[i]? = some p) (after : n'.peers[i]? = some p.dispatch) (now : Nat) (a : Action)
    {x : Handed} {rest : List Handed} (next : p.inbox = x :: rest) {k : Handle} {j : Nat}
    {r : Request} {m m' : Membership} {w w' : SyncWait} (s : p.Succeeds x k j r m m' w w') :
    Episode.Learns ⟨now, a, n, n'⟩ past i k j r m.id w.point := by
  have record := s.alters.before
  obtain ⟨ref, ids, body, same⟩ := Delivery.notice_of_progress s.alters.told
  obtain ⟨job, there, handle, claim, request⟩ := s.owned
  obtain ⟨y, heard, origin⟩ := s.answered
  have told := told_after_answer run here next heard origin body
  rw [same] at told
  refine ⟨?_, ⟨p.dispatch, m', w', after, s.alters.after, s.alters.wait', s.success⟩,
    ⟨p, job, here, there, handle, claim, request⟩, s.asks,
    p, m, x, rest, here, record, rfl, next, after, told⟩
  rintro ⟨p₀, m₀, w₀, here₀, record₀, wait₀, success⟩
  obtain rfl := Option.some.inj (here.symm.trans here₀)
  obtain rfl := Option.some.inj (record.symm.trans record₀)
  obtain rfl := Option.some.inj (s.alters.wait.symm.trans wait₀)
  exact s.fresh success

/-- Calls that have learnt of success were told after the answer to their request. -/
theorem History.meeting (run : History past n) (apart : ∀ e ∈ past, e.before.SyncApartAt i)
    {p : Peer} (here : n.peers[i]? = some p) : p.Meeting (Learned past i) := by
  induction run generalizing p with
  | start => exact nomatch here
  | @act past n run now a ih =>
    obtain ⟨q, before, turn⟩ | ⟨-, -, id, config, numbering, rfl⟩ := act_turn now a here
    · have meeting : q.Meeting (Learned (⟨now, a, n, n.act now a⟩ :: past) i) := by
        apply (ih (fun e mem => apart e (List.mem_cons_of_mem _ mem)) before).mono
        exact fun k j r learned => learned.later _
      apply meeting.step (run.sound before) (turn.step run.outbox)
      rintro rfl
      cases next : q.inbox with
      | nil =>
        rw [Peer.dispatch_nil next]
        exact meeting
      | cons x rest =>
        apply meeting.dispatch (run.sound before) (apart _ List.mem_cons_self q before) next
        intro k j r m m' w w' succeeds
        exact ⟨[], _, past, _, _, rfl, learns_of_succeeds run before here now a next succeeds⟩
    · exact Peer.Meeting.register id config numbering

/-- Whenever a wait ends with the news that all have met, a call has learnt of it. -/
theorem learns_of_succeeded {post pre : List Episode} {e : Episode}
    (run : History (post ++ e :: pre) n) (apart : ∀ f ∈ post ++ e :: pre, f.before.SyncApartAt i)
    {h : Handle} (fresh : ¬e.before.Succeeded i h) (success : e.after.Succeeded i h) :
    ∃ j r id point, e.Learns pre i h j r id point := by
  obtain ⟨now, a, n, n'⟩ := e
  obtain ⟨before, acted⟩ := run.at
  replace acted : n' = n.act now a := acted
  subst acted
  obtain ⟨p', m', w', here', record', wait', success⟩ := success
  obtain ⟨p, here, turn⟩ | ⟨-, -, id, config, numbering, rfl⟩ := act_turn now a here'
  · have meeting : p.Meeting (Learned pre i) := by
      refine before.meeting (fun f mem => apart f ?_) here
      exact List.mem_append_right _ (List.mem_cons_of_mem _ mem)
    have old (m : Membership) (w : SyncWait) (record : p.client.records[h]? = some m)
        (wait : m.wait = some w) : ¬w.Succeeded :=
      fun success => fresh ⟨p, m, w, here, record, wait, success⟩
    obtain ⟨rfl, x, rest, j, r, m, m', w, w', next, succeeds⟩ :=
      meeting.succeeding (before.sound here) (turn.step before.outbox) old record' wait' success
    exact ⟨j, r, m.id, w.point, learns_of_succeeds before here here' now a next succeeds⟩
  · have new : (Peer.register id config numbering).Marked SyncWait.Succeeded fun _ _ _ => True :=
      .register id config numbering
    obtain ⟨j, job, r, there, -⟩ := new h m' w' record' wait' success
    exact nomatch (List.getElem?_nil (i := j)).symm.trans there

structure Episode.Begins (e : Episode) (i : ConnId) (j : Nat) (a : Ask) : Prop where
  asks : e.action = .ask i a
  made : ∃ p q, e.before.peers[i]? = some p ∧ e.after.peers[i]? = some q ∧ p.jobs.length = j ∧
    j < q.jobs.length

theorem ask_waitSync (p : Peer) (now : Nat) (h : Handle) (point : NodeId) (timeout : Nat) :
    (p.ask now (.waitSync h point timeout)).jobs = p.jobs ∨
      (p.ask now (.waitSync h point timeout)).jobs =
        p.jobs ++ [⟨.waitSync h point timeout, none⟩] := by
  unfold Peer.ask
  split
  · rename_i run
    obtain ⟨m, -, eq⟩ := Option.map_eq_some_iff.mp run
    obtain ⟨rfl, rfl⟩ := Prod.mk.inj eq
    exact .inr rfl
  · exact .inl rfl

theorem Episode.Begins.job {now : Nat} {a : Action} {j : Nat} {h : Handle} {point : NodeId}
    {timeout : Nat}
    (begins : Episode.Begins ⟨now, a, n, n.act now a⟩ i j (.waitSync h point timeout)) :
    ∃ p, (n.act now a).peers[i]? = some p ∧
      p.jobs[j]? = some ⟨.waitSync h point timeout, none⟩ := by
  obtain ⟨action, p, q, before, after, rfl, more⟩ := begins
  obtain rfl : a = .ask i (.waitSync h point timeout) := action
  have changed : q = p.ask now (.waitSync h point timeout) := by
    have after : (n.change i fun p => p.ask now (.waitSync h point timeout)).peers[i]? =
      some q := after
    rw [change_peers, if_pos rfl, before] at after
    exact (Option.some.inj after).symm
  rw [changed] at more
  obtain same | jobs := ask_waitSync p now h point timeout
  · rw [same] at more
    exact absurd more (Nat.lt_irrefl _)
  · refine ⟨q, after, ?_⟩
    rw [changed, jobs, List.getElem?_append_right (Nat.le_refl _), Nat.sub_self]
    rfl

/-- How the calls fare that were begun to meet others. -/
theorem History.fares (run : History past n) (apart : ∀ e ∈ past, e.before.SyncApartAt i) {j : Nat}
    {h : Handle} {point : NodeId} {timeout : Nat}
    (begun : ∃ e ∈ past, e.Begins i j (.waitSync h point timeout)) :
    ∃ p job, n.peers[i]? = some p ∧ p.jobs[j]? = some job ∧ job.handle = h ∧
      job.Fares point (Learned past i h j) := by
  induction run with
  | start =>
    obtain ⟨e, mem, -⟩ := begun
    exact nomatch mem
  | @act past n run now a ih =>
    obtain ⟨e, mem, begins⟩ := begun
    rcases List.mem_cons.mp mem with rfl | mem
    · obtain ⟨p, after, there⟩ := begins.job
      exact ⟨p, _, after, there, rfl, .entering timeout rfl⟩
    · have apart' := fun f inside => apart f (List.mem_cons_of_mem _ inside)
      obtain ⟨p, job, here, there, rfl, fares⟩ := ih apart' ⟨e, mem, begins⟩
      obtain ⟨p', here', turn⟩ := act_forth now a here
      have fares := fares.mono fun r learned => learned.later ⟨now, a, n, n.act now a⟩
      obtain same | ⟨now', m, c, c', s', record, advanced, there'⟩ :=
        (turn.step run.outbox).job there
      · exact ⟨p', job, here', same, rfl, fares⟩
      · refine ⟨p', _, here', there', rfl, ?_⟩
        apply fares.next (run.meeting apart' here) (run.sound here) there record advanced
        exact fun r claim request learned => learned.later _

def sampleHear : List (Nat × Action) := (0, .correlate 0) :: sampleTake 3

/-- The only member of a group waits at a sync point, and is told that all have met. -/
def sampleMeeting : List (Nat × Action) :=
  sampleStart ++ sampleJoin sampleGroup 0 0 ++ [(0, .handle 0)] ++ sampleHear ++ sampleHear ++
    .replicate 2 (0, .advance 0 0 (Numbering.rolling 0)) ++
    [(0, .ask 0 (.waitSync 0 Directory.sampleTerms.point 0))] ++
    .replicate 4 (0, .advance 0 1 (Numbering.rolling 1)) ++ [(0, .handle 0), (0, .expire)] ++
    sampleHear ++ sampleHear ++ sampleHear ++
    .replicate 3 (0, .advance 0 1 (Numbering.rolling 1))

/-- A call that was to meet others returns that all have met only after the server has answered
its request and has then told the client of the success of a generation. The client was among
those who had arrived in it, and at the arrival that completed it all members of the group had.
No other news of success ends a wait: neither of another sync point nor news that was told before
the answer. That holds as long as no two requests of the client to meet others have the same
number while one of them is to be answered. -/
theorem History.success_after_own_answer (run : History past n)
    (apart : ∀ e ∈ past, e.before.SyncApartAt i) :
    (∀ j h point timeout, (∃ e ∈ past, e.Begins i j (.waitSync h point timeout)) →
      ∀ p job, n.peers[i]? = some p → p.jobs[j]? = some job →
        job.call.outcome? = some (.waited (.ok true)) →
          ∃ later e earlier r id, past = later ++ e :: earlier ∧
            e.Learns earlier i h j r id point) ∧
    ∀ later e earlier, past = later ++ e :: earlier → ∀ h,
      ¬e.before.Succeeded i h → e.after.Succeeded i h →
        ∃ j r id point, e.Learns earlier i h j r id point := by
  constructor
  · intro j h point timeout begun p job here there returned
    obtain ⟨p', job', here', there', rfl, fares⟩ := run.fares apart begun
    obtain rfl := Option.some.inj (here.symm.trans here')
    obtain rfl := Option.some.inj (there.symm.trans there')
    unfold Call.outcome? at returned
    cases fares with
    | entering timeout stage =>
      rw [stage] at returned
      contradiction
    | waiting id claim seeks =>
      split at returned
      · rename_i outcome stage
        have claim : job.call.stage.claim = .wait := claim
        rw [stage] at claim
        contradiction
      · contradiction
    | done result stage truth =>
      rw [stage] at returned
      have ok : result = .ok true := Outcome.waited.inj (Option.some.inj returned)
      obtain ⟨r, id, asks, later, e, earlier, id', point', split, learns⟩ := truth ok
      obtain ⟨rfl, rfl⟩ := learns.asks.unique asks
      exact ⟨later, e, earlier, r, _, split, learns⟩
  · rintro later e earlier rfl h fresh success
    exact learns_of_succeeded run apart fresh success

theorem success_after_own_answer_of_lone_member :
    let run := samplePlay sampleMeeting
    let point := Directory.sampleTerms.point
    (∀ e ∈ run.1, e.before.SyncApartAt 0) ∧ (∃ e ∈ run.1, e.Begins 0 1 (.waitSync 0 point 0)) ∧
      ∃ later e earlier r id, run.1 = later ++ e :: earlier ∧
        e.Learns earlier 0 0 1 r id point := by
  intro run point
  have history : History run.1 run.2 := History.play _ _ _ _
  have apart : ∀ e ∈ run.1, e.before.SyncApartAt 0 := by decide +kernel
  have begun : ∃ e ∈ run.1, e.Begins 0 1 (.waitSync 0 point 0) := by
    have lengths : (run.1[21]?.map fun e => (e.before.peers[0]?.map fun p => p.jobs.length,
      e.after.peers[0]?.map fun p => p.jobs.length)) = some (some 1, some 2) := by decide +kernel
    have action : (run.1[21]?.map Episode.action) = some (.ask 0 (.waitSync 0 point 0)) := rfl
    obtain ⟨e, here, eq⟩ := Option.map_eq_some_iff.mp lengths
    obtain ⟨before, after⟩ := Prod.mk.inj eq
    obtain ⟨p, before, length⟩ := Option.map_eq_some_iff.mp before
    obtain ⟨q, after, length'⟩ := Option.map_eq_some_iff.mp after
    rw [here] at action
    refine ⟨e, List.mem_of_getElem? here, Option.some.inj action, p, q, before, after, length, ?_⟩
    rw [length']
    exact Nat.lt_succ_self 1
  have returned : (run.2.peers[0]?.bind fun p => p.jobs[1]?.bind fun job =>
      job.call.outcome?.map Outcome.isMet) = some true := by decide +kernel
  obtain ⟨p, here, returned⟩ := Option.bind_eq_some_iff.mp returned
  obtain ⟨job, there, returned⟩ := Option.bind_eq_some_iff.mp returned
  obtain ⟨outcome, returned, met⟩ := Option.map_eq_some_iff.mp returned
  rw [Outcome.eq_of_isMet met] at returned
  exact ⟨apart, begun,
    (History.success_after_own_answer history apart).1 1 0 point 0 begun p job here there returned⟩

end Network
end Muster
