import Muster.Proofs.Directory.Firing
import Muster.Proofs.Server.History

/-! A server on a clock that comes to an end. Its operations have no result where the sum of a time
and a delay is beyond the last time of the clock. What requests add is at most a year, and so only
the interval of housekeeping, which is a setting, can be too much. -/
namespace Muster

namespace Instant

/-- The last time of a clock that counts seconds in a signed word of sixty-four bits. -/
def last : Nat := Duration.ofSeconds 9223372036854775807 + 999999999

def add? (now delay : Nat) : Option Nat :=
  if now + delay ≤ last then some (now + delay) else none

theorem add?_eq {now delay : Nat} (fits : now + delay ≤ last) :
    add? now delay = some (now + delay) := if_pos fits

def half : Nat := Duration.ofSeconds 4611686018427387904

theorem add_le_last {now delay : Nat} (early : now < half) (short : delay ≤ half) :
    now + delay ≤ last := by
  unfold half last Duration.ofSeconds at *
  omega

end Instant

namespace Agenda
variable {ε : Type}

theorem scheduleBy_eq {a : Agenda ε} {now delay : Nat} (fits : now + delay ≤ Instant.last)
    (payload : ε) (recurring : Bool) :
    a.scheduleBy Instant.add? now delay payload recurring =
      some (a.schedule now delay payload recurring) := by
  unfold scheduleBy
  rw [Instant.add?_eq fits]
  rfl

/-- Whether all that recurs does so at this interval. -/
def Recurs (a : Agenda ε) (interval : Nat) : Prop :=
  ∀ e ∈ a.entries, e.recurring = true → e.delay = interval

namespace Recurs
variable {a b : Agenda ε} {interval now : Nat}

theorem mono (h : a.Recurs interval) (sub : ∀ e ∈ b.entries, e ∈ a.entries) : b.Recurs interval :=
  fun e mem => h e (sub e mem)

theorem schedule (h : a.Recurs interval) {delay : Nat} {payload : ε} {recurring : Bool}
    (same : recurring = true → delay = interval) :
    (a.schedule now delay payload recurring).2.Recurs interval := by
  intro e mem
  rcases mem_schedule.mp mem with rfl | mem
  · exact same
  · exact h e mem

theorem cancel (h : a.Recurs interval) (id : Nat) : (a.cancel id).Recurs interval :=
  h.mono fun _ mem => (mem_cancel.mp mem).1

theorem pop (h : a.Recurs interval) {payload : ε} (taken : a.pop? now = some (payload, b)) :
    b.Recurs interval := by
  obtain ⟨e, here, -, -, left⟩ := pop?_eq_some taken
  intro f mem
  rcases (left f).mp mem with ⟨mem, -⟩ | ⟨recurring, rfl⟩
  · exact h f mem
  · exact h e here

/-- However late an event is taken, its next time is an interval from now. -/
theorem popBy_eq (h : a.Recurs interval) (fits : now + interval ≤ Instant.last) :
    a.popBy Instant.add? now = some (a.pop? now) := by
  unfold popBy
  split
  · rename_i entries
    rw [pop?_of_nil entries]
    rfl
  · rename_i e rest entries
    rw [pop?_of_cons entries]
    split
    · rename_i due
      split
      · rename_i recurring
        have delay := h e (entries ▸ List.mem_cons_self) recurring
        rw [Nat.max_eq_left due, delay, Instant.add?_eq fits]
        rfl
      · rfl
    · rfl

end Recurs
end Agenda

namespace Directory
variable {d : Directory} {policy : Policy} {now interval : Nat}

/-- Success is put on the agenda without a delay. -/
theorem arriveAtBy_eq (early : now ≤ Instant.last) (c : ConnId) (member id name : NodeId)
    (g : Group) (p : SyncPoint) (code : SyncCode) :
    d.arriveAtBy Instant.add? now c member id name g p code =
      some (d.arriveAt now c member id name g p code) := by
  unfold arriveAtBy
  by_cases complete : (p.arrive c member).isComplete g.members = true
  · rw [arriveAt_of_complete complete]
    dsimp only
    rw [if_pos complete, Agenda.scheduleBy_eq early]
    rfl
  · rw [arriveAt_of_incomplete complete]
    dsimp only
    rw [if_neg complete]
    rfl

/-- The timeout of a sync point is a year at most. -/
theorem syncBy_eq (early : now < Instant.half) (c : ConnId) (ref : GroupRef)
    (terms : SyncTerms) :
    d.syncBy Instant.add? now c ref terms = some (d.sync now c ref terms) := by
  have year : maxSyncTimeout ≤ Instant.half := by decide
  have fits : now + syncTimeout terms ≤ Instant.last :=
    Instant.add_le_last early (Nat.le_trans (Nat.min_le_right _ _) year)
  have here : now ≤ Instant.last := Instant.add_le_last early (Nat.zero_le _)
  unfold sync syncBy
  cases d.groups[ref.id]? with
  | none => rfl
  | some g =>
    dsimp only
    cases g.members[c]? with
    | none => rfl
    | some member =>
      dsimp only
      by_cases other : g.token ≠ ref.token
      · rw [if_pos other, if_pos other]
        rfl
      · rw [if_neg other, if_neg other]
        cases g.points[terms.point]? with
        | some p =>
          dsimp only
          split
          · rfl
          · split
            · rfl
            · exact arriveAtBy_eq here ..
        | none =>
          dsimp only
          rw [Agenda.scheduleBy_eq fits, Instant.add?_eq fits]
          exact arriveAtBy_eq here ..

/-- To handle events puts none on the agenda. -/
theorem handle_recurs (h : d.agenda.Recurs interval) (policy : Policy) (now : Nat)
    (event : Event) : (d.handle policy now event).1.agenda.Recurs interval :=
  h.mono (d.handle_sublist policy now event).subset

theorem fireManyBy_eq (h : d.agenda.Recurs interval) (fits : now + interval ≤ Instant.last)
    (policy : Policy) (fuel : Nat) :
    fireManyBy Instant.add? policy now fuel d = some (fireMany policy now fuel d) := by
  induction fuel generalizing d with
  | zero => rfl
  | succ fuel ih =>
    rw [fireManyBy, fireMany_succ, h.popBy_eq fits]
    cases taken : d.agenda.pop? now with
    | none => rfl
    | some popped =>
      obtain ⟨event, agenda⟩ := popped
      have left : Agenda.Recurs { d with agenda }.agenda interval := h.pop taken
      have later := ih (handle_recurs left policy now event)
      show (fireManyBy Instant.add? policy now fuel
        ({ d with agenda }.handle policy now event).1).bind _ = _
      rw [later]
      rfl

theorem arriveAt_recurs (h : d.agenda.Recurs interval) (c : ConnId) (member id name : NodeId)
    (g : Group) (p : SyncPoint) (code : SyncCode) :
    (d.arriveAt now c member id name g p code).directory.agenda.Recurs interval := by
  by_cases complete : (p.arrive c member).isComplete g.members = true
  · rw [arriveAt_of_complete complete]
    exact (h.cancel _).schedule nofun
  · rw [arriveAt_of_incomplete complete]
    exact h

theorem sync_recurs (h : d.agenda.Recurs interval) (c : ConnId) (ref : GroupRef)
    (terms : SyncTerms) : (d.sync now c ref terms).directory.agenda.Recurs interval := by
  have outcome := sync_outcome d now c ref terms
  generalize d.sync now c ref terms = change at outcome ⊢
  cases outcome with
  | rejected | refresh => exact h
  | arrive =>
    apply arriveAt_recurs
    exact h
  | create =>
    apply arriveAt_recurs
    exact h.schedule nofun

/-- All that recurs does so at the interval at which it was put on the agenda. -/
theorem act_recurs (h : d.agenda.Recurs interval) (policy : Policy) {a : Action}
    (watched : ∀ interval', a = .watch interval' → interval' = interval) :
    (d.act policy now a).1.agenda.Recurs interval := by
  cases a with
  | join c member ref =>
    show (d.join policy now c member ref).directory.agenda.Recurs interval
    rw [join_agenda]
    exact h
  | leave c ref =>
    show (d.leave now c ref).directory.agenda.Recurs interval
    unfold leave
    split
    · exact h
    · split
      · exact h.mono (d.removeMember_sublist now c ref.id).subset
      · exact h
  | removeConnection c => exact h.mono (d.removeConnection_sublist now c).subset
  | sync c ref terms => exact sync_recurs h c ref terms
  | housekeeping => exact h.mono (d.housekeeping_sublist policy now).subset
  | watch interval' => exact h.schedule fun _ => watched interval' rfl
  | resolve id name generation resolution =>
    show (d.resolve id name generation resolution).1.agenda.Recurs interval
    rw [resolve_agenda]
    exact h
  | fire =>
    show (d.fire policy now).1.agenda.Recurs interval
    unfold fire
    split
    · exact h
    · rename_i event agenda taken
      exact handle_recurs (d := { d with agenda }) (h.pop taken) policy now event

theorem Run.recurs {past : List Episode} (run : Run policy past d)
    (watched : ∀ e ∈ past, ∀ interval', e.action = .watch interval' → interval' = interval) :
    d.agenda.Recurs interval := by
  induction run with
  | start => exact List.forall_mem_nil _
  | act now a run ih =>
    apply act_recurs
    · exact ih fun e mem => watched e (List.mem_cons_of_mem _ mem)
    · exact watched _ List.mem_cons_self

end Directory

namespace Server
variable {s : Server} {now : Nat}

def start? (config : ServerConfig) (token : Token) (now : Nat) (numbering : Numbering)
    (tokens : TokenSource) : Option Server :=
  startBy Instant.add? config token now numbering tokens

def act? (s : Server) (now : Nat) (a : Action) : Option Server := s.actBy Instant.add? now a

def run? (first : Server) : List (Nat × Action) → Option Server
  | [] => some first
  | (now, a) :: earlier => do
    let s ← run? first earlier
    s.act? now a

theorem start?_eq_some_iff {config : ServerConfig} {token : Token} {numbering : Numbering}
    {tokens : TokenSource} : start? config token now numbering tokens = some s ↔
      now + config.housekeepingInterval ≤ Instant.last ∧
        start config token now numbering tokens = s := by
  by_cases fits : now + config.housekeepingInterval ≤ Instant.last
  · unfold start? startBy
    rw [Agenda.scheduleBy_eq fits, and_iff_right fits]
    exact Option.some_inj
  · have none : start? config token now numbering tokens = none := by
      unfold start? startBy Agenda.scheduleBy Instant.add?
      rw [if_neg fits]
      rfl
    rw [none]
    exact ⟨nofun, fun ⟨within, _⟩ => absurd within fits⟩

theorem syncBy_eq (early : now < Instant.half) (c : ConnId) (sender : Token) (seq : Int32)
    (ref : GroupRef) (terms : SyncTerms) :
    s.syncBy Instant.add? now c sender seq ref terms =
      some (s.sync now c sender seq ref terms) := by
  unfold sync syncBy
  cases s.authenticate c sender with
  | none => rfl
  | some member =>
    dsimp only
    rw [Directory.syncBy_eq early]
    rfl

/-- Requests and lost connections never add too much, whatever the interval of housekeeping is. -/
theorem act?_eq_of_ne_expire (early : now < Instant.half) {a : Action} (other : a ≠ .expire) :
    s.act? now a = some (s.act now a) := by
  cases a with
  | request c seq m =>
    obtain ⟨sender, body⟩ := m
    cases body with
    | syncRequest ref terms => exact syncBy_eq early c sender seq ref terms
    | _ => rfl
  | lose c => rfl
  | expire => exact absurd rfl other
  | flush => rfl

theorem act?_eq {interval : Nat} (recurs : s.directory.agenda.Recurs interval)
    (early : now < Instant.half) (short : interval ≤ Instant.half) (a : Action) :
    s.act? now a = some (s.act now a) := by
  by_cases expires : a = .expire
  · rw [expires]
    show (Directory.fireManyBy Instant.add? s.policy now s.directory.agenda.size
      s.directory).bind _ = _
    rw [Directory.fireManyBy_eq recurs (Instant.add_le_last early short)]
    rfl
  · exact act?_eq_of_ne_expire early expires

theorem History.recurs {config : ServerConfig} {token : Token} {start : Nat}
    {numbering : Numbering} {tokens : TokenSource} {past : List Episode}
    (run : History (.start config token start numbering tokens) past s) :
    s.directory.agenda.Recurs config.housekeepingInterval := by
  apply run.run.recurs
  intro e mem interval watches
  rcases mem_records mem with rfl | ⟨f, -, mem⟩
  · exact (Directory.Action.watch.inj watches).symm
  · exact absurd watches ((ledger_action mem).2.2 interval)

theorem run?_eq {config : ServerConfig} (short : config.housekeepingInterval ≤ Instant.half)
    (token : Token) (start : Nat) (numbering : Numbering) (tokens : TokenSource)
    {actions : List (Nat × Action)} (early : ∀ x ∈ actions, x.1 < Instant.half) :
    run? (.start config token start numbering tokens) actions =
      some (play (.start config token start numbering tokens) actions).2 := by
  induction actions with
  | nil => rfl
  | cons x earlier ih =>
    obtain ⟨now, a⟩ := x
    obtain ⟨here, before⟩ := List.forall_mem_cons.mp early
    have recurs := (History.play (.start config token start numbering tokens) earlier).recurs
    show (run? _ earlier).bind _ = _
    rw [ih before]
    exact act?_eq recurs here short a

/-- In the first half of its clock a server never adds up more than the clock can show, whatever
happens to it and however late it handles what is due, just if it looks for idle groups at least
once in that time. Requests and lost connections never are the cause. -/
theorem sums_fit_clock_iff (config : ServerConfig) :
    ((∀ (token : Token) (start : Nat) (numbering : Numbering) (tokens : TokenSource)
        (actions : List (Nat × Action)), start < Instant.half →
          (∀ x ∈ actions, x.1 < Instant.half) →
            ∃ first, start? config token start numbering tokens = some first ∧
              first = .start config token start numbering tokens ∧
                run? first actions = some (play first actions).2) ↔
      config.housekeepingInterval ≤ Instant.half) ∧
    ∀ (s : Server) (now : Nat) (a : Action), now < Instant.half → a ≠ .expire →
      s.act? now a = some (s.act now a) := by
  refine ⟨⟨?_, ?_⟩, fun s now a early => act?_eq_of_ne_expire early⟩
  · intro fits
    -- The last moment of the first half is the worst.
    obtain ⟨first, started, -⟩ := fits .null (Instant.half - 1) (.ofSeed 0) (.ofSeed 0) []
      (by decide) (List.forall_mem_nil _)
    obtain ⟨within, -⟩ := start?_eq_some_iff.mp started
    unfold Instant.half Instant.last Duration.ofSeconds at *
    omega
  · intro short token start numbering tokens actions early calm
    exact ⟨_, start?_eq_some_iff.mpr ⟨Instant.add_le_last early short, rfl⟩, rfl,
      run?_eq short token start numbering tokens calm⟩

/-- Settings may be accepted with which no server ever gets to handle anything. -/
theorem overflow_of_rare_housekeeping :
    let config : ServerConfig := { ServerConfig.standard with
      groupIdleTimeout := Duration.longest
      housekeepingInterval := Duration.ofSeconds 9223372036854775808 }
    config.validate = .ok () ∧ ∀ (token : Token) (now : Nat) (numbering : Numbering)
      (tokens : TokenSource), start? config token now numbering tokens = none := by
  refine ⟨rfl, fun token now numbering tokens => ?_⟩
  rw [Option.eq_none_iff_forall_ne_some]
  intro s started
  obtain ⟨within, -⟩ := start?_eq_some_iff.mp started
  have beyond : Instant.last < Duration.ofSeconds 9223372036854775808 := by decide
  exact absurd (Nat.le_trans (Nat.le_add_left _ _) within) (Nat.not_le_of_lt beyond)

end Server
end Muster
