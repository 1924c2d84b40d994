import Mathlib.Data.List.Induction
import Muster.Proofs.Client.Basic
import Muster.Proofs.Link.History

/-! Which requests are outstanding, told by what has happened to the link. A request that was sent
is so until it is given up, a response with its number arrives, or the stream fails when a packet
with its number is sent. Whatever is handed on with a response is what was outstanding then. -/
namespace Muster

namespace Link
namespace Episode

def request? (seq : Int32) : Episode → Option Message
  | sent p (.ok ()) => if p.seq = seq ∧ p.message.role = .request then some p.message else none
  | _ => none

/-- Whether nothing is outstanding under a number from here on: the request is given up, a response
arrives, or the stream fails when a packet is sent. -/
def settles (seq : Int32) : Episode → Bool
  | sent p (.error e) => p.seq = seq ∧ e ≠ .oversized
  | cancelled k => k = seq
  | parsed p _ => p.seq = seq ∧ p.message.role = .response
  | _ => false

def update (pending : Pending) : Episode → Pending
  | sent p (.ok ()) =>
    if p.message.role = .request then pending.insert p.seq p.message else pending
  | sent p (.error e) => if e = .oversized then pending else pending.erase p.seq
  | cancelled seq => pending.erase seq
  | took _ => pending
  | parsed p _ => if p.message.role = .response then pending.erase p.seq else pending

theorem update_getElem? (e : Episode) (pending : Pending) (seq : Int32) :
    (e.update pending)[seq]? =
      if e.settles seq then none else (e.request? seq).or pending[seq]? := by
  have erased (k : Int32) : (pending.erase k)[seq]? = if k = seq then none else pending[seq]? :=
    Table.getElem?_erase pending k seq
  unfold update settles request?
  cases e with
  | sent p result =>
    cases result with
    | ok =>
      by_cases request : p.message.role = .request
      · have inserted : (pending.insert p.seq p.message)[seq]? =
            if p.seq = seq then some p.message else pending[seq]? :=
          Table.getElem?_insert pending p.seq seq p.message
        by_cases own : p.seq = seq
        · simp [request, own]
        · simp [request, inserted, own]
      · simp [request]
    | error broken =>
      by_cases large : broken = .oversized
      · simp [large]
      · simp [large, erased]
  | cancelled k => simp [erased]
  | took bs => rfl
  | parsed p passed =>
    by_cases response : p.message.role = .response
    · simp [response, erased]
    · simp [response]

theorem request?_of_settles {seq : Int32} {e : Episode} (settles : e.settles seq = true) :
    e.request? seq = none := by
  cases e with
  | sent p result =>
    cases result with
    | ok => contradiction
    | error broken => rfl
  | cancelled | took | parsed => rfl

end Episode

/-- Whether this request was sent under the number, as the last one there, and nothing has
happened since that settles it. -/
def Outstanding (past : List Episode) (seq : Int32) (m : Message) : Prop :=
  ∃ before e after, past = before ++ e :: after ∧ e.request? seq = some m ∧
    ∀ f ∈ after, f.request? seq = none ∧ f.settles seq = false

variable {past before between : List Episode} {e : Episode} {seq : Int32} {m : Message}

theorem not_outstanding_nil : ¬Outstanding [] seq m := by
  rintro ⟨before, e, after, split, -⟩
  exact List.append_ne_nil_of_right_ne_nil before (List.cons_ne_nil e after) split.symm

theorem outstanding_snoc : Outstanding (past ++ [e]) seq m ↔ e.request? seq = some m ∨
    e.request? seq = none ∧ e.settles seq = false ∧ Outstanding past seq m := by
  constructor
  · rintro ⟨before, f, after, split, sent, since⟩
    induction after using List.reverseRecOn with
    | nil =>
      obtain ⟨-, same⟩ := List.append_inj' split rfl
      cases same
      exact .inl sent
    | append_singleton after g _ =>
      rw [← List.cons_append, ← List.append_assoc] at split
      obtain ⟨rfl, same⟩ := List.append_inj' split rfl
      cases same
      obtain ⟨nothing, unsettled⟩ := since e (List.mem_append_right _ List.mem_cons_self)
      refine .inr ⟨nothing, unsettled, before, f, after, rfl, sent, fun h mem => ?_⟩
      exact since h (List.mem_append_left _ mem)
  · rintro (sent | ⟨nothing, unsettled, before, f, after, rfl, sent, since⟩)
    · exact ⟨past, e, [], rfl, sent, fun f mem => absurd mem List.not_mem_nil⟩
    · refine ⟨before, f, after ++ [e], ?_, sent, fun g mem => ?_⟩
      · rw [List.append_assoc, List.cons_append]
      · rcases List.mem_append.mp mem with mem | mem
        · exact since g mem
        · rw [List.mem_singleton.mp mem]
          exact ⟨nothing, unsettled⟩

def pendingAfter (past : List Episode) : Pending := past.foldl Episode.update ∅

theorem pendingAfter_snoc (past : List Episode) (e : Episode) :
    pendingAfter (past ++ [e]) = e.update (pendingAfter past) := by
  unfold pendingAfter
  rw [List.foldl_append]
  rfl

theorem pendingAfter_iff : (pendingAfter past)[seq]? = some m ↔ Outstanding past seq m := by
  induction past using List.reverseRecOn with
  | nil =>
    refine ⟨fun found => ?_, fun out => absurd out not_outstanding_nil⟩
    exact nomatch Std.ExtTreeMap.getElem?_empty.symm.trans found
  | append_singleton past e ih =>
    rw [pendingAfter_snoc, Episode.update_getElem?, outstanding_snoc, ← ih]
    split
    · rename_i settles
      simp [settles, Episode.request?_of_settles settles]
    · rename_i unsettled
      rw [Option.or_eq_some_iff]
      simp [unsettled]

/-- Once it is settled, a request is outstanding again only if it was sent again. -/
theorem Outstanding.sent_again (outstanding : Outstanding (before ++ e :: between) seq m)
    (settles : e.settles seq = true) : ∃ f ∈ between, f.request? seq ≠ none := by
  induction between using List.reverseRecOn with
  | nil =>
    rcases outstanding_snoc.mp outstanding with sent | ⟨-, unsettled, -⟩
    · exact nomatch (Episode.request?_of_settles settles).symm.trans sent
    · exact nomatch settles.symm.trans unsettled
  | append_singleton between f ih =>
    rw [← List.cons_append, ← List.append_assoc] at outstanding
    rcases outstanding_snoc.mp outstanding with sent | ⟨-, -, earlier⟩
    · refine ⟨f, List.mem_append_right _ List.mem_cons_self, ?_⟩
      rw [sent]
      exact Option.some_ne_none m
    · obtain ⟨g, mem, sent⟩ := ih earlier
      exact ⟨g, List.mem_append_left _ mem, sent⟩

theorem erase_enqueue (l : Link) (p : Packet) :
    (l.enqueue p).pending.erase p.seq = l.pending.erase p.seq := by
  apply Std.ExtTreeMap.ext_getElem?
  intro k
  rw [Table.getElem?_erase, Table.getElem?_erase]
  split
  · rfl
  · rename_i other
    show (if _ then l.pending.insert p.seq p.message else l.pending)[k]? = l.pending[k]?
    split
    · rw [Table.getElem?_insert, if_neg other]
    · rfl

theorem send_update (l : Link) (p : Packet) :
    (l.send p).2.pending = Episode.update l.pending (.sent p (l.send p).1) := by
  by_cases fits : p.Fits
  · have flushed := flush_pending (l.enqueue p)
    unfold send
    rw [if_pos fits]
    cases run : (l.enqueue p).flush with
    | mk result l' =>
      rw [run] at flushed
      cases result with
      | ok => exact flushed
      | error e =>
        obtain ⟨k, rfl⟩ := flush_error (l := l.enqueue p) (congrArg Prod.fst run)
        show l'.pending.erase p.seq = if _ then l.pending else l.pending.erase p.seq
        rw [flushed, if_neg (IoError.ofKind_ne_oversized k), erase_enqueue]
  · rw [send_refused fits]
    rfl

end Link

namespace Pending

theorem pass_update (pending : Pending) (p : Packet) (passed : Option Delivery) :
    (pending.pass p).2 = Link.Episode.update pending (.parsed p passed) := by
  unfold pass Link.Episode.update
  dsimp only
  split
  · cases found : pending[p.seq]? with
    | some request => rfl
    | none =>
      show pending = pending.erase p.seq
      apply Std.ExtTreeMap.ext_getElem?
      intro k
      rw [Table.getElem?_erase]
      split
      · rename_i own
        rw [← own, found]
      · rfl
  · rfl

theorem pass_other {p : Packet} (other : p.message.role ≠ .response) (pending : Pending) :
    (pending.pass p).1 = some ⟨p, none⟩ := by
  unfold pass
  rw [if_neg other]

theorem pass_response {p : Packet} (response : p.message.role = .response) (pending : Pending) :
    (pending.pass p).1 = pending[p.seq]?.map fun request => ⟨p, some request⟩ := by
  unfold pass
  rw [if_pos response]
  cases pending[p.seq]? with
  | none => rfl
  | some request => rfl

theorem episodes_update (pending : Pending) (ps : List Packet) :
    (pending.episodes ps).foldl Link.Episode.update pending = (pending.receive ps).2 := by
  induction ps generalizing pending with
  | nil => rfl
  | cons p ps ih =>
    rw [receive_cons, episodes, List.foldl_cons, ← pass_update, ih]

end Pending

theorem Deed.update (d : Deed) (l : Link) :
    (d.perform l).pending = (d.episodes l).foldl Link.Episode.update l.pending := by
  cases d with
  | send p => exact l.send_update p
  | flush => exact l.flush_pending
  | cancel seq => rfl
  | read => exact l.read_received.2.trans (l.pending.episodes_update l.parsed).symm

namespace Link
variable {first : Stream} {past before : List Episode} {e : Episode} {l : Link}

/-- Whether packets were passed on or dropped as the requests outstanding tell. -/
def Faithful : Pending → List Episode → Prop
  | _, [] => True
  | pending, e :: later =>
    (∀ p passed, e = .parsed p passed → passed = (pending.pass p).1) ∧
      Faithful (e.update pending) later

theorem faithful_append {pending : Pending} {more : List Episode} :
    Faithful pending (past ++ more) ↔
      Faithful pending past ∧ Faithful (past.foldl Episode.update pending) more := by
  induction past generalizing pending with
  | nil => exact (true_and _).symm ▸ Iff.rfl
  | cons e past ih =>
    show _ ∧ Faithful _ (past ++ more) ↔ (_ ∧ _) ∧ _
    rw [ih, and_assoc]
    rfl

theorem faithful_episodes (pending : Pending) (ps : List Packet) :
    Faithful pending (pending.episodes ps) := by
  induction ps generalizing pending with
  | nil => trivial
  | cons p ps ih =>
    refine ⟨fun q passed same => ?_, ?_⟩
    · cases same
      rfl
    · rw [← Pending.pass_update]
      exact ih (pending.pass p).2

theorem faithful_cons {pending : Pending} {later : List Episode} (quiet : e.parsed? = none)
    (faithful : Faithful (e.update pending) later) : Faithful pending (e :: later) := by
  refine ⟨fun p passed same => ?_, faithful⟩
  rw [same] at quiet
  contradiction

theorem faithful_deed (d : Deed) (l : Link) : Faithful l.pending (d.episodes l) := by
  cases d with
  | send p => exact faithful_cons rfl True.intro
  | flush => exact True.intro
  | cancel seq => exact faithful_cons rfl True.intro
  | read => exact faithful_cons rfl (faithful_episodes l.pending l.parsed)

theorem History.pending (h : History first past l) : l.pending = pendingAfter past := by
  induction h with
  | start => rfl
  | @act past l d run ih =>
    unfold pendingAfter at ih ⊢
    rw [List.foldl_append, ← ih, d.update]
  | stream run same ih => exact ih

theorem History.faithful (h : History first past l) : Faithful ∅ past := by
  induction h with
  | start => trivial
  | @act past l d run ih =>
    refine faithful_append.mpr ⟨ih, ?_⟩
    have pending : past.foldl Episode.update ∅ = l.pending := run.pending.symm
    rw [pending]
    exact faithful_deed d l
  | stream run same ih => exact ih

theorem Faithful.passed {p : Packet} {passed : Option Delivery} {after : List Episode}
    (faithful : Faithful ∅ (before ++ .parsed p passed :: after)) :
    passed = ((pendingAfter before).pass p).1 :=
  (faithful_append.mp faithful).2.1 p passed rfl

def Episode.delivers (seq : Int32) : Episode → Bool
  | .parsed p (some _) => p.seq = seq ∧ p.message.role = .response
  | _ => false

theorem Episode.settles_of_delivers {seq : Int32} (delivers : e.delivers seq = true) :
    e.settles seq = true := by
  cases e with
  | parsed p passed =>
    cases passed with
    | none => contradiction
    | some d => exact delivers
  | sent | cancelled | took => contradiction

theorem Faithful.pending_of_delivers {seq : Int32} (faithful : Faithful ∅ (past ++ [e]))
    (delivers : e.delivers seq = true) : (pendingAfter past)[seq]?.isSome := by
  cases e with
  | parsed p passed =>
    cases passed with
    | none => contradiction
    | some d =>
      obtain ⟨rfl, response⟩ := of_decide_eq_true delivers
      have same := faithful.passed
      rw [Pending.pass_response response] at same
      obtain ⟨m, found, -⟩ := Option.map_eq_some_iff.mp same.symm
      exact Option.isSome_of_eq_some found
  | sent | cancelled | took => contradiction

/-- Every response that is passed on uses up a request that was sent. -/
theorem Faithful.deliveries_le (faithful : Faithful ∅ past) (seq : Int32) :
    past.countP (Episode.delivers seq) + (pendingAfter past)[seq]?.isSome.toNat ≤
      past.countP fun e => (e.request? seq).isSome := by
  induction past using List.reverseRecOn with
  | nil =>
    have nothing : (pendingAfter [])[seq]? = none := Std.ExtTreeMap.getElem?_empty
    rw [nothing]
    exact Nat.le_refl 0
  | append_singleton past e ih =>
    have count := ih (faithful_append.mp faithful).1
    rw [List.countP_append, List.countP_append, List.countP_singleton, List.countP_singleton,
      pendingAfter_snoc, Episode.update_getElem?]
    cases delivers : e.delivers seq with
    | true =>
      -- It was outstanding before, and is not any more.
      rw [faithful.pending_of_delivers delivers] at count
      rw [Episode.settles_of_delivers delivers]
      simp only [if_true, Option.isSome_none, Bool.toNat_false, Bool.toNat_true] at count ⊢
      omega
    | false =>
      cases e.settles seq with
      | true =>
        simp only [if_true, Option.isSome_none, Bool.toNat_false, Bool.false_eq_true, if_false]
        omega
      | false =>
        simp only [Bool.false_eq_true, if_false]
        cases e.request? seq with
        | none =>
          rw [Option.none_or]
          omega
        | some m =>
          have most := Bool.toNat_le (pendingAfter past)[seq]?.isSome
          simp only [Option.some_or, Option.isSome_some, Bool.toNat_true, if_true]
          omega

/-- What becomes of a packet after all this. A response is passed on with the request that is
outstanding under its number, which it uses up, and dropped if there is none. -/
structure Correlates (before : List Episode) (p : Packet) (passed : Option Delivery) : Prop where
  other : p.message.role ≠ .response → passed = some ⟨p, none⟩
  delivered : p.message.role = .response →
    ∀ d, passed = some d ↔ ∃ m, Outstanding before p.seq m ∧ d = ⟨p, some m⟩
  used : p.message.role = .response →
    ∀ m, ¬Outstanding (before ++ [.parsed p passed]) p.seq m

theorem Faithful.correlates {p : Packet} {passed : Option Delivery} {after : List Episode}
    (faithful : Faithful ∅ (before ++ .parsed p passed :: after)) : Correlates before p passed := by
  have same := faithful.passed
  constructor
  · intro other
    rw [same, Pending.pass_other other]
  · intro response d
    rw [same, Pending.pass_response response, Option.map_eq_some_iff]
    exact exists_congr fun m => and_congr pendingAfter_iff eq_comm
  · intro response m outstanding
    have settles : (Episode.parsed p passed).settles p.seq = true := decide_eq_true ⟨rfl, response⟩
    obtain ⟨f, mem, -⟩ := outstanding.sent_again settles
    contradiction

def Episode.passed? : Episode → Option Delivery
  | .parsed _ passed => passed
  | _ => none

theorem episodes_passed (pending : Pending) (ps : List Packet) :
    (pending.episodes ps).filterMap Episode.passed? = (pending.receive ps).1 := by
  induction ps generalizing pending with
  | nil => rfl
  | cons p ps ih =>
    rw [Pending.receive_cons, ← ih]
    show List.filterMap _ (Episode.parsed p (pending.pass p).1 :: _) =
      (pending.pass p).1.toList ++ _
    cases (pending.pass p).1 with
    | none => rfl
    | some d => rfl

theorem read_passes (l : Link) :
    l.read.delivered = (Deed.read.episodes l).filterMap Episode.passed? :=
  l.read_received.1.trans (episodes_passed l.pending l.parsed).symm

end Link

/-- A response is handled only with a request of the kind that it answers. -/
theorem Delivery.request_of_handler {d : Delivery} {k : Kind} (handler : d.handler? = some k)
    (response : k.role = .response) :
    ∃ request, d.request = some request ∧ k.answers? = some request.kind := by
  unfold handler? at handler
  dsimp only at handler
  split at handler
  · rename_i handled
    obtain rfl := Option.some.inj handler
    obtain other | answers := handled
    · exact absurd response other
    · cases request : d.request with
      | none =>
        rw [request] at answers
        generalize d.packet.message.kind = k at answers response
        cases k <;> contradiction
      | some m =>
        rw [request] at answers
        exact ⟨m, rfl, answers.symm⟩
  · contradiction

theorem Client.receive_unhandled {d : Delivery} (unhandled : d.handler? = none) (c : Client) :
    c.receive d = c := by
  unfold Delivery.handler? at unhandled
  dsimp only at unhandled
  split at unhandled
  · contradiction
  · rename_i other
    obtain ⟨response, mismatch⟩ := not_or.mp other
    have notice {b : Body} (body : d.packet.message.body = b) (told : b.kind.role = .notice) :
        False := by
      apply response
      rw [Message.kind, body, told]
      decide
    have answered {b r : Body} (body : d.packet.message.body = b)
        (request : d.request.map Message.body = some r) (answers : b.kind.answers? = some r.kind) :
        False := by
      obtain ⟨m, asked, rfl⟩ := Option.map_eq_some_iff.mp request
      apply mismatch
      rw [asked, Message.kind, body, answers]
      rfl
    unfold receive
    dsimp only
    split
    · rename_i body
      exact (notice body rfl).elim
    · rename_i body
      exact (notice body rfl).elim
    · rename_i body request
      exact (answered body request rfl).elim
    · rename_i body request
      exact (answered body request rfl).elim
    · rename_i body request
      exact (answered body request rfl).elim
    · rename_i body request
      exact (answered body request rfl).elim
    · rfl

namespace Link
variable {first : Stream} {past : List Episode} {l : Link}

/-- A request is outstanding exactly if it was the last to be sent under its number, and since then
it was not given up, no response with the number arrived, and the stream did not fail when a packet
with the number was sent. A response is passed on exactly if a request is outstanding under its
number, with that request, and uses it up. So no more of them are passed on than requests were sent,
and none after a request was given up or answered until one is sent again. Responses are handled
only with requests of their kind. -/
theorem History.outstanding_exactly (h : History first past l) :
    (∀ seq, (l.isPending seq = true ↔ ∃ m, Outstanding past seq m) ∧
      ∀ m, l.pending[seq]? = some m ↔ Outstanding past seq m) ∧
    (∀ before p passed after, past = before ++ .parsed p passed :: after →
      Correlates before p passed) ∧
    (∀ before e between p d after, past = before ++ e :: between ++ .parsed p (some d) :: after →
      p.message.role = .response → e.settles p.seq = true →
      ∃ f ∈ between, f.request? p.seq ≠ none) ∧
    (∀ seq, past.countP (Episode.delivers seq) ≤ past.countP fun e => (e.request? seq).isSome) ∧
    l.read.delivered = (Deed.read.episodes l).filterMap Episode.passed? ∧
    ((Transcript.ofBytes (taken past)).broken = false →
      received past = (Transcript.ofBytes (taken past)).packets) ∧
    ∀ d : Delivery, (∀ k, d.handler? = some k → k.role = .response →
        ∃ request, d.request = some request ∧ k.answers? = some request.kind) ∧
      (d.handler? = none → ∀ c : Client, c.receive d = c) := by
  have found (seq : Int32) (m : Message) : l.pending[seq]? = some m ↔ Outstanding past seq m := by
    rw [h.pending]
    exact pendingAfter_iff
  refine ⟨fun seq => ⟨?_, found seq⟩, ?_, ?_, fun seq => ?_, l.read_passes,
    fun sound => (h.reading sound).packets,
    fun d => ⟨fun _ => Delivery.request_of_handler, Client.receive_unhandled⟩⟩
  · exact Table.contains_iff.trans (exists_congr (found seq))
  · rintro before p passed after rfl
    exact h.faithful.correlates
  · rintro before e between p d after rfl response settles
    obtain ⟨m, outstanding, -⟩ := (h.faithful.correlates.delivered response d).mp rfl
    exact outstanding.sent_again settles
  · exact Nat.le_trans (Nat.le_add_right ..) (h.faithful.deliveries_le seq)

def sampleGroup : GroupRef := ⟨⟨"rowers", by decide, by decide⟩, .ofByte 3⟩

def sampleRequest : Packet := .ofMessage 5 ⟨.ofByte 4, .leaveRequest sampleGroup⟩

/-- The answer arrives twice. -/
def sampleAnswers : Stream :=
  let answer := Packet.ofMessage 5 ⟨.ofByte 1, .leaveResponse sampleGroup .accepted⟩
  Stream.empty.feed [answer.encode ++ answer.encode]

theorem outstanding_exactly_of_two_answers : ∃ past l, History sampleAnswers past l ∧
    past.countP (Episode.delivers 5) = 1 ∧ (received past).length = 2 ∧
    l.isPending 5 = false ∧ ∀ m, ¬Outstanding past 5 m := by
  have run : History sampleAnswers _ _ := .act .read (.act (.send sampleRequest) .start)
  have answered : ((Deed.send sampleRequest).perform (.ofStream sampleAnswers)).read.link.isPending
      5 = false := by decide +kernel
  refine ⟨_, _, run, by decide +kernel, by decide +kernel, answered, fun m outstanding => ?_⟩
  obtain ⟨pending, -⟩ := History.outstanding_exactly run
  exact Bool.false_ne_true (answered.symm.trans ((pending 5).1.mpr ⟨m, outstanding⟩))

end Link
end Muster
