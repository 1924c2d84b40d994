import Mathlib.Logic.Function.Iterate
import Muster.Proofs.Client.Hearing

/-! What happens to the records of a client while its network side takes in a delivery. -/
namespace Muster

namespace Client
variable {c : Client} {h : Handle} {f g : Membership → Membership}

theorem update_congr (same : ∀ m, c.records[h]? = some m → f m = g m) :
    c.update h f = c.update h g := by
  have records : (c.update h f).records = (c.update h g).records := by
    ext k m
    rw [update_records, update_records]
    split
    · rename_i own
      subst own
      cases record : c.records[h]? with
      | none => rfl
      | some m₀ => rw [Option.map_some, Option.map_some, same m₀ record]
    · rfl
  exact congrArg (fun records => { c with records }) records

theorem update_same (same : ∀ m, c.records[h]? = some m → f m = m) : c.update h f = c := by
  have records : (c.update h fun m => m).records = c.records := by
    ext k m
    rw [update_records, Option.map_id', ite_self]
  calc c.update h f
    _ = c.update h fun m => m := update_congr same
    _ = c := congrArg (fun records => { c with records }) records

end Client

namespace Intake

/-- What a step of taking in a delivery can be. -/
inductive Step (c : Client) (d : Delivery) : Intake → Client → Option Intake → Prop where
  | untold (untold : d.tidings? = none) (s : Intake) : Step c d s (c.receive d) none
  | unknown {id : NodeId} {t : Tidings} (told : d.tidings? = some (id, t))
      (unknown : c.groups[id]? = none) : Step c d .fresh c none
  | find {id : NodeId} {t : Tidings} {h : Handle} (told : d.tidings? = some (id, t))
      (known : c.groups[id]? = some h) : Step c d .fresh c (some (.found h))
  | miss {id : NodeId} {t : Tidings} {h : Handle} {token : Token}
      (told : d.tidings? = some (id, t)) (named : t.token? = some token)
      (other : ∀ m, c.records[h]? = some m → m.token ≠ token) : Step c d (.found h) c none
  | match {id : NodeId} {t : Tidings} {h : Handle} {m : Membership}
      (told : d.tidings? = some (id, t)) (named : t.token? = some m.token)
      (record : c.records[h]? = some m) : Step c d (.found h) c (some (.matched h))
  | change {id : NodeId} {t : Tidings} {h : Handle} {s : Intake}
      (told : d.tidings? = some (id, t)) (handle : s.handle? = some h)
      (ready : t.token? = none ∨ s = .matched h) :
      Step c d s (c.update h fun m => m.heed c.id d.packet.seq t) none

variable {c : Client} {d : Delivery}

theorem step_cases (c : Client) (d : Delivery) (s : Intake) :
    Step c d s (s.step c d).1 (s.step c d).2 := by
  unfold step
  cases told : d.tidings? with
  | none => exact .untold told s
  | some x =>
    obtain ⟨id, t⟩ := x
    cases s with
    | fresh =>
      show Step c d .fresh c (c.groups[id]?.map found)
      cases known : c.groups[id]? with
      | none => exact .unknown told known
      | some h => exact .find told known
    | found h =>
      dsimp only
      cases named : t.token? with
      | none => exact .change (s := .found h) told rfl (.inl named)
      | some token =>
        dsimp only
        by_cases same : c.records[h]?.map Membership.token = some token
        · rw [if_pos same]
          obtain ⟨m, record, rfl⟩ := Option.map_eq_some_iff.mp same
          exact .match told named record
        · rw [if_neg same]
          refine .miss told named fun m record eq => same ?_
          rw [record, Option.map_some, eq]
    | matched h => exact .change (s := .matched h) told rfl (.inr rfl)

/-- With nothing in between, the steps are the whole of it. -/
theorem receive_steps (c : Client) (d : Delivery) :
    (fun x : Client × Option Intake => (x.2.map fun s => s.step x.1 d).getD x)^[3]
      (c, some .fresh) = (c.receive d, none) := by
  cases told : d.tidings? with
  | none => simp [step, told]
  | some x =>
    obtain ⟨id, t⟩ := x
    rw [Client.receive_of_tidings told]
    unfold Client.updateGroup
    cases known : c.groups[id]? with
    | none => simp [step, told, known]
    | some h =>
      cases named : t.token? with
      | none => simp [step, told, known, named, Membership.hear]
      | some token =>
        have heard (m : Membership) : m.hear c.id d.packet.seq t =
            if m.token = token then m.heed c.id d.packet.seq t else m := by
          unfold Membership.hear
          rw [named]
        by_cases same : ∃ m, c.records[h]? = some m ∧ m.token = token
        · obtain ⟨m, record, rfl⟩ := same
          have heeded : (c.update h fun m => m.hear c.id d.packet.seq t) =
              c.update h fun m => m.heed c.id d.packet.seq t := by
            refine Client.update_congr fun m' record' => ?_
            obtain rfl := Option.some.inj (record.symm.trans record')
            rw [heard, if_pos rfl]
          simp [step, told, known, named, record, heeded]
        · have left : (c.update h fun m => m.hear c.id d.packet.seq t) = c := by
            refine Client.update_same fun m record => ?_
            rw [heard, if_neg fun eq => same ⟨m, record, eq⟩]
          simp [step, told, known, named, same, left]

namespace Step
variable {c' : Client} {s : Intake} {left : Option Intake} {k : Handle}

theorem kept (step : s.Step c d c' left) : c.Kept c' := by
  cases step with
  | untold => exact c.receive_kept d
  | change => exact c.update_kept _ fun m => m.heed_kept
  | unknown | find | miss | «match» => exact .of_records rfl rfl

theorem link_eq (step : s.Step c d c' left) : c'.link = c.link := by
  cases step with
  | untold => exact c.receive_link d
  | change | unknown | find | miss | «match» => rfl

theorem id_eq (step : s.Step c d c' left) : c'.id = c.id := by
  cases step with
  | untold => exact c.receive_id d
  | change | unknown | find | miss | «match» => rfl

/-- Before its last step the network side only looks. -/
theorem client_eq {next : Intake} (step : s.Step c d c' (some next)) : c' = c := by
  cases step with
  | find | «match» => rfl

/-- A step changes at most the record that was looked up, and then it is the last one. -/
theorem record (step : s.Step c d c' left) {m' : Membership} (record : c'.records[k]? = some m') :
    ∃ m, c.records[k]? = some m ∧ (m' = m ∨ ∃ id t, d.tidings? = some (id, t) ∧
      s.handle? = some k ∧ (t.token? = none ∨ s = .matched k) ∧ left = none ∧
        m' = m.heed c.id d.packet.seq t) := by
  cases step with
  | untold untold =>
    obtain ⟨m, before, same | ⟨id, t, told, -⟩⟩ := Client.receive_record record
    · exact ⟨m, before, .inl same⟩
    · exact nomatch untold.symm.trans told
  | @change id t h _ told handle ready =>
    rw [Client.update_records] at record
    split at record
    · rename_i own
      subst own
      obtain ⟨m, before, rfl⟩ := Option.map_eq_some_iff.mp record
      exact ⟨m, before, .inr ⟨id, t, told, handle, ready, rfl, rfl⟩⟩
    · exact ⟨m', record, .inl rfl⟩
  | unknown | find | miss | «match» => exact ⟨m', record, .inl rfl⟩

theorem handle {next : Intake} (step : s.Step c d c' (some next)) (handle : next.handle? = some k) :
    s.handle? = some k ∨ ∃ id t, d.tidings? = some (id, t) ∧ c.groups[id]? = some k := by
  cases step with
  | find told known =>
    obtain rfl := Option.some.inj handle
    exact .inr ⟨_, _, told, known⟩
  | «match» => exact .inl handle

end Step
end Intake
end Muster
