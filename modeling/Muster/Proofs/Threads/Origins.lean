import Muster.Proofs.Client.Slots
import Muster.Proofs.Client.SyncCall
import Muster.Proofs.Threads.Sound

/-! Where the reply and the outcome in a record come from. The threads of a client take their steps
in any order, while its records hear anything at any time: answers with any number, notices of any
members, and the loss of the connection, again and again. -/
namespace Muster
namespace Threads

/-- What can happen to the threads of a client and to its records. Nothing is known of the server,
and the connection comes and goes. -/
inductive Event where
  | ask (a : Ask)
  /-- A step of a call, whatever numbers the process has drawn before and draws next. -/
  | advance (j : Nat) (numbering : Numbering)
  | hear (h : Handle) (seq : Int32) (t : Tidings)
  | lose (h : Handle)
  | reconnect (link : Option Link) (standing : Standing) (running : Bool)

def undergo (t : Threads) (now : Nat) : Event → Threads
  | .ask a => t.act now (.ask a)
  | .advance j numbering => t.act now (.advance j numbering)
  | .hear h seq tidings =>
    { t with client := t.client.update h fun m => m.hear t.client.id seq tidings }
  | .lose h => { t with client := t.client.update h Membership.connectionLost }
  | .reconnect link standing running =>
    { t with client := { t.client with link, standing, running } }

structure Incident where
  now : Nat
  event : Event
  before : Threads
  after : Threads

inductive Course (first : Threads) : List Incident → Threads → Prop where
  | start : Course first [] first
  | undergo {past : List Incident} {t : Threads} (now : Nat) (e : Event)
      (course : Course first past t) :
      Course first (⟨now, e, t, t.undergo now e⟩ :: past) (t.undergo now e)

def follow (first : Threads) : List (Nat × Event) → List Incident × Threads
  | [] => ([], first)
  | (now, e) :: earlier =>
    let (past, t) := follow first earlier
    (⟨now, e, t, t.undergo now e⟩ :: past, t.undergo now e)

theorem Course.follow (first : Threads) (events : List (Nat × Event)) :
    Course first (follow first events).1 (follow first events).2 := by
  induction events with
  | nil => exact .start
  | cons x events ih => exact .undergo x.1 x.2 ih

/-- How a record came to be what it is after an event. -/
inductive Becomes (t : Threads) (k : Handle) : Event → Membership → Prop where
  | fresh {e : Event} (id : NodeId) (token : Token) (new : t.client.records[k]? = none) :
      Becomes t k e (.create id token)
  | same {e : Event} {m : Membership} (before : t.client.records[k]? = some m) : Becomes t k e m
  | hear {m : Membership} (before : t.client.records[k]? = some m) (seq : Int32)
      (tidings : Tidings) : Becomes t k (.hear k seq tidings) (m.hear t.client.id seq tidings)
  | lose {m : Membership} (before : t.client.records[k]? = some m) :
      Becomes t k (.lose k) m.connectionLost
  | moved {m m' : Membership} {j : Nat} {numbering : Numbering} {call : Call} {s' : CallStage}
      (before : t.client.records[k]? = some m) (here : t.calls[j]? = some call)
      (handle : call.handle = k) (move : Call.Moved m call.stage m' s') :
      Becomes t k (.advance j numbering) m'

section
variable {t : Threads} {now : Nat} {e : Event} {k : Handle} {m : Membership}

theorem undergo_sound (sound : t.Sound) (now : Nat) (e : Event) : (t.undergo now e).Sound := by
  cases e with
  | ask a => exact sound.turn (act_turn t now (.ask a))
  | advance j numbering => exact sound.turn (act_turn t now (.advance j numbering))
  | hear h seq tidings =>
    have kept := t.client.update_kept h fun m =>
      show Membership.Kept m (m.hear t.client.id seq tidings) from m.hear_kept
    refine sound.kept kept t.closing t.intake fun k m record => ?_
    rw [Client.update_records] at record
    split at record
    · obtain ⟨m₀, before, rfl⟩ := Option.map_eq_some_iff.mp record
      exact ⟨m₀, before, fun seq owes => owes.hear _ _ _⟩
    · exact ⟨m, record, fun _ owes => owes⟩
  | lose h =>
    have kept := t.client.update_kept h fun m => m.connectionLost_kept
    refine sound.kept kept t.closing t.intake fun k m record => ?_
    rw [Client.update_records] at record
    split at record
    · obtain ⟨m₀, before, rfl⟩ := Option.map_eq_some_iff.mp record
      exact ⟨m₀, before, fun _ owes => .inr owes.connectionLost⟩
    · exact ⟨m, record, fun _ owes => owes⟩
  | reconnect link standing running => exact sound.aside rfl rfl rfl

theorem Course.sound {id : NodeId} {config : ClientConfig} {numbering : Numbering}
    {past : List Incident} (h : Course (.create id config numbering) past t) : t.Sound := by
  induction h with
  | start => exact .create id config numbering
  | undergo now e course ih => exact undergo_sound ih now e

theorem undergo_ask (t : Threads) (now : Nat) (a : Ask) :
    t.undergo now (.ask a) = t ∨ ∃ c call, a.call? t.client now = some (c, call) ∧
      t.undergo now (.ask a) = ⟨c, t.calls ++ [call], t.closing, t.intake⟩ := by
  unfold undergo act
  dsimp only
  split
  · rename_i c call run
    exact .inr ⟨c, call, run, rfl⟩
  · exact .inl rfl

theorem undergo_advance (t : Threads) (now j : Nat) (numbering : Numbering) :
    let c₀ := { t.client with numbering }
    t.undergo now (.advance j numbering) = t ∨ ∃ call m c s', t.calls[j]? = some call ∧
      c₀.records[call.handle]? = some m ∧ Call.CallStep c₀ call.handle m call.stage c s' ∧
      t.undergo now (.advance j numbering) =
        ⟨c, t.calls.set j { call with stage := s' }, t.closing, t.intake⟩ := by
  unfold undergo act
  dsimp only
  split
  · exact .inl rfl
  · rename_i call here
    split
    · exact .inl rfl
    · rename_i c call' run
      obtain ⟨m, s', record, advanced, rfl⟩ := Call.step_advance run
      exact .inr ⟨call, m, c, s', here, record, Call.advance_callStep advanced, rfl⟩

theorem undergo_id (t : Threads) (now : Nat) (e : Event) :
    (t.undergo now e).client.id = t.client.id := by
  cases e with
  | ask a =>
    obtain eq | ⟨c, call, run, eq⟩ := t.undergo_ask now a
    · rw [eq]
    · rw [eq]
      obtain ⟨-, -, ⟨rfl, -⟩ | ⟨id, token, -, rfl, -⟩⟩ := Ask.call?_cases run <;> rfl
  | advance j numbering =>
    obtain eq | ⟨call, m, c, s', -, -, step, eq⟩ := t.undergo_advance now j numbering
    · rw [eq]
    · rw [eq]
      exact step.frame_standing.2
  | hear | lose | reconnect => rfl

/-- An event is a step of a call or a change of one record, and no record is made but by a call that
begins. -/
theorem undergo_becomes (sound : t.Sound) (record : (t.undergo now e).client.records[k]? = some m) :
    Becomes t k e m := by
  have changed {h : Handle} {f : Membership → Membership}
      (record : (t.client.update h f).records[k]? = some m) :
      t.client.records[k]? = some m ∨ h = k ∧ ∃ m₀, t.client.records[k]? = some m₀ ∧ f m₀ = m := by
    rw [Client.update_records] at record
    split at record
    · rename_i own
      exact .inr ⟨own, Option.map_eq_some_iff.mp record⟩
    · exact .inl record
  cases e with
  | ask a =>
    obtain eq | ⟨c, call, run, eq⟩ := t.undergo_ask now a
    · exact .same (eq ▸ record)
    · rw [eq] at record
      obtain ⟨free, -, ⟨rfl, -⟩ | ⟨id, token, -, rfl, -⟩⟩ := Ask.call?_cases run
      · exact .same record
      · dsimp only at record
        rw [Client.addGroup_records] at record
        split at record
        · rename_i own
          obtain rfl := Option.some.inj record
          refine .fresh id token ?_
          cases before : t.client.records[k]? with
          | none => rfl
          | some m => exact absurd own (Nat.ne_of_gt (sound.lt before))
        · exact .same record
  | advance j numbering =>
    obtain eq | ⟨call, m₀, c, s', here, before, step, eq⟩ := t.undergo_advance now j numbering
    · exact .same (eq ▸ record)
    · rw [eq] at record
      by_cases own : k = call.handle
      · subst own
        obtain ⟨m', after, move⟩ := step.moved before
        obtain rfl := Option.some.inj (after.symm.trans record)
        exact .moved before here rfl move
      · exact .same ((step.frame own).symm.trans record)
  | hear h seq tidings =>
    obtain same | ⟨rfl, m₀, before, rfl⟩ := changed record
    · exact .same same
    · exact .hear before seq tidings
  | lose h =>
    obtain same | ⟨rfl, m₀, before, rfl⟩ := changed record
    · exact .same same
    · exact .lose before
  | reconnect link standing running => exact .same record

/-- A call that others leave alone stays as it is. A call that has just begun has no claim. -/
theorem undergo_calls {j : Nat} {call : Call} (others : ∀ numbering, e ≠ .advance j numbering)
    (here : (t.undergo now e).calls[j]? = some call) :
    t.calls[j]? = some call ∨ call.stage.claim = .none := by
  cases e with
  | ask a =>
    obtain eq | ⟨c, begun, run, eq⟩ := t.undergo_ask now a
    · rw [eq] at here
      exact .inl here
    · rw [eq] at here
      obtain here | rfl := getElem?_append_cases here
      · exact .inl here
      · exact .inr (Ask.call?_cases run).1
  | advance i numbering =>
    obtain eq | ⟨other, m, c, s', there, -, -, eq⟩ := t.undergo_advance now i numbering
    · rw [eq] at here
      exact .inl here
    · rw [eq] at here
      have ne : i ≠ j := fun eq => others numbering (eq ▸ rfl)
      rw [List.getElem?_set_ne ne] at here
      exact .inl here
  | hear | lose | reconnect => exact .inl here

end

/-- A call joins or leaves, and its record was told that its request has this number. -/
def Pursues (t : Threads) (j : Nat) (seq : Int32) : Prop :=
  ∃ call, t.calls[j]? = some call ∧ call.stage.claim = .lock ∧ call.stage.errand.number? = some seq

/-- A record waits at a sync point, and its request has this number. -/
def Attends (t : Threads) (k : Handle) (seq : Int32) (point : NodeId) : Prop :=
  ∃ m w, t.client.records[k]? = some m ∧ m.wait = some w ∧ w.seq = some seq ∧ w.point = point

namespace Incident

/-- A call that joins or leaves has its record await a request that it has just made. -/
def Requests (x : Incident) (k : Handle) (j : Nat) (seq : Int32) : Prop :=
  (∃ numbering, x.event = .advance j numbering) ∧
    (∃ call p, x.before.calls[j]? = some call ∧ call.handle = k ∧ call.stage.errand = .drafted p ∧
      p.seq = seq) ∧
    x.after.Pursues j seq ∧ ∃ m, x.after.client.records[k]? = some m ∧ m.exchange = .awaiting seq

/-- A record that awaits the request of this number comes to hold a reply. It is the answer to that
number, or the loss of the connection. -/
def Stores (x : Incident) (k : Handle) (seq : Int32) (reply : Reply) : Prop :=
  (∃ m, x.before.client.records[k]? = some m ∧ m.exchange = .awaiting seq) ∧
    (∃ m, x.after.client.records[k]? = some m ∧ m.exchange = .answered reply) ∧
    ((∃ t, x.event = .hear k seq t ∧ t.reply? = some reply) ∨ x.event = .lose k ∧ reply = .lost)

/-- A wait that nothing was heard of hears that its request, of this number and for this sync point,
was taken in. -/
def Acknowledges (x : Incident) (k : Handle) (seq : Int32) (point : NodeId) : Prop :=
  (∃ code, x.event = .hear k seq (.syncAnswer point code) ∧ (code = .created ∨ code = .joined)) ∧
    ∃ m w, x.before.client.records[k]? = some m ∧ m.wait = some w ∧ w.seq = some seq ∧
      w.point = point ∧ w.acknowledged = false ∧ w.outcome ≠ some .success ∧
      w.outcome ≠ some .timeout

end Incident

/-- A call made its request and still pursues it, and any reply that the record now has was stored
since. -/
def Replies (past : List Incident) (k : Handle) (j : Nat) (seq : Int32) (m : Membership) : Prop :=
  ∃ later x earlier, past = later ++ x :: earlier ∧ x.Requests k j seq ∧
    (∀ y ∈ later, y.after.Pursues j seq) ∧
    ∀ reply, m.exchange = .answered reply → ∃ y ∈ later, y.Stores k seq reply

/-- The request of a wait was taken in, and the record has waited for it since. -/
def Acknowledged (past : List Incident) (k : Handle) (seq : Int32) (point : NodeId) : Prop :=
  ∃ later x earlier, past = later ++ x :: earlier ∧ x.Acknowledges k seq point ∧
    ∀ y ∈ later, y.after.Attends k seq point

section
variable {past : List Incident} {x : Incident} {k : Handle} {j : Nat} {seq : Int32}

theorem Replies.begin {m : Membership} (past : List Incident) (requests : x.Requests k j seq)
    (awaiting : m.exchange = .awaiting seq) : Replies (x :: past) k j seq m :=
  ⟨[], x, past, rfl, requests, List.forall_mem_nil _,
    fun _ answered => nomatch awaiting.symm.trans answered⟩

theorem Replies.extend {m m' : Membership} (replies : Replies past k j seq m)
    (pursues : x.after.Pursues j seq) (stored : ∀ reply, m'.exchange = .answered reply →
      m.exchange = .answered reply ∨ x.Stores k seq reply) : Replies (x :: past) k j seq m' := by
  obtain ⟨later, r, earlier, rfl, requests, pursued, before⟩ := replies
  refine ⟨x :: later, r, earlier, rfl, requests, List.forall_mem_cons.mpr ⟨pursues, pursued⟩, ?_⟩
  intro reply answered
  obtain old | new := stored reply answered
  · obtain ⟨y, mem, stores⟩ := before reply old
    exact ⟨y, .tail x mem, stores⟩
  · exact ⟨x, .head later, new⟩

theorem Acknowledged.begin {point : NodeId} (past : List Incident)
    (heard : x.Acknowledges k seq point) : Acknowledged (x :: past) k seq point :=
  ⟨[], x, past, rfl, heard, List.forall_mem_nil _⟩

theorem Acknowledged.extend {point : NodeId} (known : Acknowledged past k seq point)
    (attends : x.after.Attends k seq point) : Acknowledged (x :: past) k seq point := by
  obtain ⟨later, a, earlier, rfl, heard, attended⟩ := known
  exact ⟨x :: later, a, earlier, rfl, heard, List.forall_mem_cons.mpr ⟨attends, attended⟩⟩

end

section
variable {t : Threads} {k : Handle} {m : Membership}

/-- What others do to a record while a call awaits its reply: nothing, or they store the reply. -/
theorem Becomes.stored {now : Nat} {e : Event} {j : Nat} {call : Call} {seq : Int32}
    (becomes : Becomes t call.handle e m) (sound : t.Sound) (here : t.calls[j]? = some call)
    (claim : call.stage.claim = .lock) (number : call.stage.errand.number? = some seq)
    (others : ∀ numbering, e ≠ .advance j numbering)
    (record : (t.undergo now e).client.records[call.handle]? = some m) :
    ∃ m₀, t.client.records[call.handle]? = some m₀ ∧ ∀ reply, m.exchange = .answered reply →
      m₀.exchange = .answered reply ∨
        Incident.Stores ⟨now, e, t, t.undergo now e⟩ call.handle seq reply := by
  obtain ⟨m₀, before⟩ := sound.record here
  have owed := sound.owes j call here claim m₀ before seq number
  refine ⟨m₀, before, fun reply answered => ?_⟩
  have awaited {n : Int32} (awaiting : m₀.exchange = .awaiting n) : n = seq := by
    obtain own | ⟨reply, there⟩ := owed
    · exact Exchange.awaiting.inj (awaiting.symm.trans own)
    · exact nomatch awaiting.symm.trans there
  cases becomes with
  | fresh _ _ new => exact nomatch new.symm.trans before
  | same there =>
    obtain rfl := Option.some.inj (before.symm.trans there)
    exact .inl answered
  | hear there n tidings =>
    obtain rfl := Option.some.inj (before.symm.trans there)
    obtain kept | ⟨awaiting, reply', brings, now'⟩ := m₀.hear_exchange
    · exact .inl (kept.symm.trans answered)
    · obtain rfl := awaited awaiting
      obtain rfl := Exchange.answered.inj (now'.symm.trans answered)
      exact .inr ⟨⟨m₀, before, awaiting⟩, ⟨_, record, answered⟩, .inl ⟨tidings, rfl, brings⟩⟩
  | lose there =>
    obtain rfl := Option.some.inj (before.symm.trans there)
    cases exchange : m₀.exchange with
    | idle =>
      rw [Membership.connectionLost, exchange] at answered
      exact nomatch answered
    | answered reply' =>
      rw [Membership.connectionLost, exchange] at answered
      exact .inl answered
    | awaiting n =>
      obtain rfl := awaited exchange
      have lost : reply = .lost := by
        obtain same | lost := Membership.connectionLost_answered answered
        · exact nomatch exchange.symm.trans same
        · exact lost
      exact .inr ⟨⟨m₀, before, exchange⟩, ⟨_, record, answered⟩, .inr ⟨rfl, lost⟩⟩
  | @moved _ _ i numbering other s' there their handle move =>
    obtain rfl := Option.some.inj (before.symm.trans there)
    have free : other.stage.claim ≠ .lock := fun locked => by
      have same := sound.alone here their (by rw [claim]; decide) (locked.trans claim.symm) handle
      exact others numbering (same ▸ rfl)
    exact .inl ((move.exchange free).symm.trans answered)

end

namespace Course
variable {id : NodeId} {config : ClientConfig} {numbering : Numbering} {past : List Incident}
  {t : Threads} {k : Handle} {m : Membership}

theorem id_eq (h : Course (.create id config numbering) past t) : t.client.id = id := by
  induction h with
  | start => rfl
  | undergo now e course ih => exact (undergo_id _ now e).trans ih

/-- Whatever a record holds, its slots were filled by one touch after the other. -/
theorem touches (h : Course (.create id config numbering) past t)
    (record : t.client.records[k]? = some m) :
    ∃ token, Slots.Touches id (.fresh token) m.slots := by
  induction h generalizing m with
  | start => exact nomatch (Std.ExtTreeMap.getElem?_empty (a := k)).symm.trans record
  | undergo now e course ih =>
    cases undergo_becomes course.sound record with
    | fresh _ token => exact ⟨token, .refl⟩
    | same before => exact ih before
    | @hear m before seq tidings =>
      obtain ⟨token, touches⟩ := ih before
      rw [course.id_eq]
      exact ⟨token, touches.trans (m.hear_touches seq tidings)⟩
    | @lose m before =>
      obtain ⟨token, touches⟩ := ih before
      exact ⟨token, touches.trans m.connectionLost_touches⟩
    | moved before _ _ move =>
      obtain ⟨token, touches⟩ := ih before
      exact ⟨token, touches.trans (Membership.moved_touches move)⟩

theorem slots_sound (h : Course (.create id config numbering) past t)
    (record : t.client.records[k]? = some m) : m.slots.Sound id := by
  obtain ⟨token, touches⟩ := h.touches record
  exact touches.sound (Slots.sound_fresh token)

/-- A reply is the answer to the request of the call that awaits it, or the loss of the connection,
and it came after the request was made. -/
theorem replies (h : Course (.create id config numbering) past t) {j : Nat} {call : Call}
    {seq : Int32} (here : t.calls[j]? = some call) (claim : call.stage.claim = .lock)
    (number : call.stage.errand.number? = some seq)
    (record : t.client.records[call.handle]? = some m) : Replies past call.handle j seq m := by
  induction h generalizing call m with
  | start => exact nomatch here
  | @undergo past t now e course ih =>
    have pursues : (t.undergo now e).Pursues j seq := ⟨call, here, claim, number⟩
    by_cases own : ∃ numbering, e = .advance j numbering
    · obtain ⟨numbering, rfl⟩ := own
      obtain eq | ⟨call₀, m₀, c, s', there, before, step, eq⟩ := t.undergo_advance now j numbering
      · rw [eq] at here record
        exact (ih here claim number record).extend pursues fun _ answered => .inl answered
      · have stands : (t.calls.set j { call₀ with stage := s' })[j]? =
            some { call₀ with stage := s' } := by
          rw [getElem?_set_of there, if_pos rfl]
        rw [eq] at here
        obtain rfl := Option.some.inj (stands.symm.trans here)
        have after : c.records[call₀.handle]? = some m := by
          rw [eq] at record
          exact record
        obtain ⟨p, drafted, rfl, awaiting⟩ | ⟨claim₀, number₀, rfl⟩ :=
          step.recorded before after claim number
        · have requests : Incident.Requests
              ⟨now, .advance j numbering, t, t.undergo now (.advance j numbering)⟩ call₀.handle j p.seq :=
            ⟨⟨numbering, rfl⟩, ⟨call₀, p, there, rfl, drafted, rfl⟩, pursues, m, record, awaiting⟩
          exact .begin past requests awaiting
        · exact (ih there claim₀ number₀ before).extend pursues fun _ answered => .inl answered
    · have others (numbering : Numbering) : e ≠ .advance j numbering := fun eq => own ⟨numbering, eq⟩
      obtain there | free := undergo_calls others here
      · obtain ⟨m₀, before, stored⟩ :=
          (undergo_becomes course.sound record).stored course.sound there claim number others record
        exact (ih there claim number before).extend pursues stored
      · exact nomatch free.symm.trans claim

/-- A wait was acknowledged by the answer to its own request, before it came to any outcome that a
notice brings, and has been the same wait since. -/
theorem acknowledged (h : Course (.create id config numbering) past t) {w : SyncWait}
    (record : t.client.records[k]? = some m) (wait : m.wait = some w)
    (known : w.acknowledged = true) :
    ∃ seq, w.seq = some seq ∧ Acknowledged past k seq w.point := by
  induction h generalizing m w with
  | start => exact nomatch (Std.ExtTreeMap.getElem?_empty (a := k)).symm.trans record
  | @undergo past t now e course ih =>
    -- A wait that was acknowledged before is still at its point and for its request.
    have later {m₀ : Membership} {w₀ : SyncWait} (before : t.client.records[k]? = some m₀)
        (wait₀ : m₀.wait = some w₀) (known₀ : w₀.acknowledged = true) (seq : w.seq = w₀.seq)
        (point : w.point = w₀.point) : ∃ seq, w.seq = some seq ∧
          Acknowledged (⟨now, e, t, t.undergo now e⟩ :: past) k seq w.point := by
      obtain ⟨n, mark, heard⟩ := ih before wait₀ known₀
      rw [← point] at heard
      exact ⟨n, seq.trans mark, heard.extend ⟨m, w, record, wait, seq.trans mark, rfl⟩⟩
    cases undergo_becomes course.sound record with
    | fresh => exact nomatch wait
    | same before => exact later before wait known rfl rfl
    | @hear m₀ before n tidings =>
      obtain ⟨w₀, wait₀, seq, point, known₀ | ⟨code, rfl, mark, taken⟩⟩ :=
        Membership.hear_acknowledged wait known
      · exact later before wait₀ known₀ seq point
      · by_cases known₀ : w₀.acknowledged = true
        · exact later before wait₀ known₀ seq point
        · refine ⟨n, seq.trans mark, ?_⟩
          rw [point]
          have told := (course.slots_sound before).told
          have unknown : m₀.slots.acknowledged = w₀.acknowledged := by
            rw [Membership.slots, wait₀]
            rfl
          have unmet {o : SyncOutcome} (met : o = .success ∨ o = .timeout) :
              w₀.outcome ≠ some o := by
            intro ended
            refine known₀ (unknown.symm.trans (told ?_))
            have outcome : m₀.slots.outcome = some o := by
              rw [Membership.slots, wait₀]
              exact ended
            rw [outcome]
            exact met.imp (congrArg some) (congrArg some)
          exact .begin past ⟨⟨code, rfl, taken⟩, m₀, w₀, before, wait₀, mark, rfl,
            Bool.eq_false_iff.mpr known₀, unmet (.inl rfl), unmet (.inr rfl)⟩
    | @lose m₀ before =>
      have lost : m₀.connectionLost.wait = m₀.wait.map fun w => w.endWith .left := rfl
      obtain ⟨w₀, wait₀, rfl⟩ := Option.map_eq_some_iff.mp (lost.symm.trans wait)
      exact later before wait₀ ((w₀.endWith_acknowledged _).symm.trans known) (w₀.endWith_seq _)
        (w₀.endWith_point _)
    | @moved m₀ _ j numbering call s' before here handle move =>
      cases move with
      | same | enter | record | abandon | take | exit => exact later before wait known rfl rfl
      | beginWait =>
        obtain rfl := Option.some.inj wait
        exact nomatch known
      | markWait claim _ errand =>
        obtain ⟨w₀, wait₀, rfl⟩ := Option.map_eq_some_iff.mp wait
        obtain ⟨n, mark, -⟩ := ih before wait₀ known
        subst handle
        have unmarked := course.sound.unmarked here claim (by rw [errand]; rfl) before
        rw [wait₀] at unmarked
        exact nomatch mark.symm.trans unmarked
      | endWait => exact nomatch wait

/-- Whatever comes in, and whenever calls go on, a record fits together and what is in it has an
origin. Its slots hold what one touch after the other put there: the client is one of the members it
knows of, no number is awaited when there is a reply, and only a wait that has a sync point is
acknowledged or over. The reply that a call takes is the answer to its own request, or it stands for
the loss of the connection, and came after the request. A wait that has succeeded or timed out was
acknowledged before by the answer to its own request, for its own sync point. Answers with another
number change nothing. -/
theorem records_fit (h : Course (.create id config numbering) past t)
    (record : t.client.records[k]? = some m) :
    (∃ token, Slots.Touches id (.fresh token) m.slots) ∧ m.slots.Sound id ∧
      (∀ (j : Nat) (call : Call) (seq : Int32) (reply : Reply) (m' : Membership),
        t.calls[j]? = some call → call.handle = k → call.stage.claim = .lock →
        call.stage.errand = .awaiting seq → m.takeReply seq = (some reply, m') →
          ∃ later x earlier, past = later ++ x :: earlier ∧ x.Requests k j seq ∧
            (∀ y ∈ later, y.after.Pursues j seq) ∧ ∃ y ∈ later, y.Stores k seq reply) ∧
      (∀ w, m.wait = some w → w.outcome = some .success ∨ w.outcome = some .timeout →
        ∃ seq, w.seq = some seq ∧ Acknowledged past k seq w.point) ∧
      (∀ seq, m.exchange ≠ .awaiting seq →
        (∀ code, m.joinAnswered id seq code = m) ∧ m.leaveAnswered seq = m) ∧
      ∀ seq point code, m.wait.bind SyncWait.seq ≠ some seq →
        m.syncAnswered seq point code = m := by
  have sound := h.slots_sound record
  refine ⟨h.touches record, sound, ?_, ?_, ?_, ?_⟩
  · intro j call seq reply m' here handle claim errand taken
    subst handle
    obtain ⟨answered, -⟩ := Call.takeReply_some taken
    have number : call.stage.errand.number? = some seq := by rw [errand]; rfl
    obtain ⟨later, x, earlier, split, requests, pursues, stored⟩ :=
      h.replies here claim number record
    exact ⟨later, x, earlier, split, requests, pursues, stored reply answered⟩
  · intro w wait met
    have slots : m.slots.outcome = w.outcome ∧ m.slots.acknowledged = w.acknowledged := by
      rw [Membership.slots, wait]
      exact ⟨rfl, rfl⟩
    have known : w.acknowledged = true := slots.2.symm.trans (sound.told (slots.1 ▸ met))
    exact h.acknowledged record wait known
  · intro seq other
    exact ⟨fun code => if_neg other, if_neg other⟩
  · intro seq point code other
    exact Membership.syncAnswered_of_ne other point code

end Course

/-- A client joins a group and waits at a sync point, at which it then stays alone. -/
def sampleCourse : List Incident × Threads :=
  follow (.create Directory.sampleMember .standard (.ofSeed 0)) <| List.reverse <|
    [(0, .reconnect (some (.ofStream .empty)) .idle true),
      (0, .ask (.join Directory.sampleRef.id (.ofByte 7)))] ++
    .replicate 5 (0, .advance 0 (Numbering.rolling 0)) ++
    [(1, .hear 0 (Kind.firstSeq .joinRequest) (.joinAnswer .accepted)),
      (1, .ask (.waitSync 0 Directory.sampleTerms.point 0))] ++
    .replicate 4 (1, .advance 1 (Numbering.rolling 0)) ++
    [(2, .hear 0 (Kind.firstSeq .syncRequest) (.syncAnswer Directory.sampleTerms.point .created)),
      (3, .hear 0 0 (.progress Directory.sampleTerms.point .timeout))]

theorem records_fit_of_lone_member :
    ∃ m, sampleCourse.2.client.records[0]? = some m ∧
      m.exchange = .answered (.join .accepted) ∧
      m.wait.bind SyncWait.outcome = some .timeout ∧ m.slots.Sound Directory.sampleMember ∧
      (∃ x ∈ sampleCourse.1, x.Stores 0 (Kind.firstSeq .joinRequest) (.join .accepted)) ∧
      Acknowledged sampleCourse.1 0 (Kind.firstSeq .syncRequest) Directory.sampleTerms.point := by
  have course : Course _ sampleCourse.1 sampleCourse.2 := .follow _ _
  obtain ⟨m, record⟩ : ∃ m, sampleCourse.2.client.records[0]? = some m := by
    apply Option.isSome_iff_exists.mp
    decide +kernel
  have view : (sampleCourse.2.client.records[0]?.map fun m => (m.exchange, m.wait)) =
      some (.answered (.join .accepted), some ⟨Directory.sampleTerms.point,
        some (Kind.firstSeq .syncRequest), true, some .timeout⟩) := by decide +kernel
  rw [record, Option.map_some, Option.some_inj] at view
  obtain ⟨answered, wait⟩ := Prod.mk.inj view
  obtain ⟨call, here⟩ : ∃ call, sampleCourse.2.calls[0]? = some call := by
    apply Option.isSome_iff_exists.mp
    decide +kernel
  have stage : (sampleCourse.2.calls[0]?.map fun call =>
      (call.handle, call.stage.claim, call.stage.errand)) =
        some (0, .lock, .awaiting (Kind.firstSeq .joinRequest)) := by decide +kernel
  rw [here, Option.map_some, Option.some_inj] at stage
  obtain ⟨handle, claim, errand⟩ : _ ∧ _ ∧ _ := by simpa using stage
  have taken : m.takeReply (Kind.firstSeq .joinRequest) =
      (some (.join .accepted), { m with exchange := .idle }) := by
    rw [Membership.takeReply, answered]
    rfl
  obtain ⟨-, sound, replies, outcomes, -, -⟩ := course.records_fit record
  obtain ⟨later, x, earlier, split, -, -, y, mem, stores⟩ :=
    replies 0 call _ _ _ here handle claim errand taken
  obtain ⟨seq, mark, known⟩ := outcomes _ wait (.inr rfl)
  obtain rfl := Option.some.inj mark
  refine ⟨m, record, answered, by rw [wait]; rfl, sound, ⟨y, ?_, stores⟩, known⟩
  rw [split]
  exact List.mem_append_left _ mem

end Threads
end Muster
