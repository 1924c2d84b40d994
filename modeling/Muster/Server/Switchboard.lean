import Muster.Link.Basic
import Muster.Server.Basic

/-! A server with its open connections. Packets go from the outbox to the links of their
receivers. A link that fails is closed, which takes its client out of all groups and so may
put further packets into the outbox. Each such round has one open connection less than the
one before, so deliveries come to an end. -/
namespace Muster

structure Switchboard where
  server : Server
  links : Std.ExtTreeMap ConnId Link
  /-- No connection had this number yet. -/
  nextConn : ConnId

/-- Whether a connection is of no more use after it refused a packet. A packet that was
refused for itself is only dropped. -/
def IoError.isFatal (e : IoError) : Bool := e.kind != .invalidInput

namespace Switchboard

def ofServer (s : Server) : Switchboard := ⟨s, ∅, 0⟩

/-- Opens a connection, unless the server is full. -/
def accept (b : Switchboard) (stream : Stream) : Switchboard :=
  if b.server.maxClients ≤ b.server.clients.size then b
  else
    { b with
      links := b.links.insert b.nextConn (.ofStream stream)
      nextConn := b.nextConn + 1 }

def close (b : Switchboard) (now : Nat) (c : ConnId) : Switchboard :=
  if b.links.contains c then
    { b with links := b.links.erase c, server := b.server.lose now c }
  else b

def closeAll (b : Switchboard) (now : Nat) (cs : List ConnId) : Switchboard :=
  cs.foldl (fun b c => b.close now c) b

/-- Hands a packet to the link of its receiver, if that is still open. Tells whether the
connection has to be closed. -/
def post (b : Switchboard) (o : Outgoing) : Bool × Switchboard :=
  match b.links[o.receiver]? with
  | none => (false, b)
  | some link =>
    let (result, link) := link.send o.packet
    let fatal :=
      match result with
      | .ok () => false
      | .error e => e.isFatal
    (fatal, { b with links := b.links.insert o.receiver link })

/-- Hands out packets in their order. Gives the connections that have to be closed. -/
def postAll (b : Switchboard) : List Outgoing → List ConnId × Switchboard
  | [] => ([], b)
  | o :: rest =>
    let (fatal, b) := b.post o
    let (failed, b) := b.postAll rest
    (if fatal then o.receiver :: failed else failed, b)

def postOutbox (b : Switchboard) : List ConnId × Switchboard :=
  { b with server := { b.server with outbox := [] } }.postAll b.server.outbox

theorem size_close_le (b : Switchboard) (now : Nat) (c : ConnId) :
    (b.close now c).links.size ≤ b.links.size := by
  unfold close
  split
  · exact Std.ExtTreeMap.size_erase_le
  · exact Nat.le_refl _

theorem size_close_lt {b : Switchboard} (now : Nat) {c : ConnId} (h : b.links.contains c) :
    (b.close now c).links.size < b.links.size := by
  have pos : 0 < b.links.size := by
    refine Nat.pos_of_ne_zero fun h0 => ?_
    rw [Std.ExtTreeMap.eq_empty_iff_size_eq_zero.mpr h0] at h
    simp at h
  rw [close, if_pos h, Std.ExtTreeMap.size_erase, if_pos h]
  exact Nat.sub_lt pos Nat.one_pos

theorem size_closeAll_le (b : Switchboard) (now : Nat) (cs : List ConnId) :
    (b.closeAll now cs).links.size ≤ b.links.size := by
  induction cs generalizing b with
  | nil => exact Nat.le_refl _
  | cons c cs ih => exact Nat.le_trans (ih (b.close now c)) (b.size_close_le now c)

theorem size_closeAll_lt {b : Switchboard} (now : Nat) {cs : List ConnId} (ne : cs ≠ [])
    (h : ∀ c ∈ cs, b.links.contains c) : (b.closeAll now cs).links.size < b.links.size := by
  cases cs with
  | nil => exact absurd rfl ne
  | cons c cs =>
    exact Nat.lt_of_le_of_lt ((b.close now c).size_closeAll_le now cs)
      (size_close_lt now (h c List.mem_cons_self))

theorem size_post (b : Switchboard) (o : Outgoing) : (b.post o).2.links.size = b.links.size := by
  unfold post
  split
  · rfl
  · rename_i h
    have : b.links.contains o.receiver := by
      rw [← Std.ExtTreeMap.isSome_getElem?_eq_contains, h]
      rfl
    simp only [Std.ExtTreeMap.size_insert, this, if_true]

theorem contains_post (b : Switchboard) (o : Outgoing) (c : ConnId) :
    (b.post o).2.links.contains c = b.links.contains c := by
  unfold post
  split
  · rfl
  · rename_i h
    rw [Std.ExtTreeMap.contains_insert]
    by_cases hc : o.receiver = c
    · subst hc
      rw [← Std.ExtTreeMap.isSome_getElem?_eq_contains, h]
      simp
    · simp [hc]

theorem contains_of_post {b : Switchboard} {o : Outgoing} (h : (b.post o).1) :
    b.links.contains o.receiver := by
  unfold post at h
  split at h
  · contradiction
  · rename_i hl
    rw [← Std.ExtTreeMap.isSome_getElem?_eq_contains, hl]
    rfl

theorem size_postAll (b : Switchboard) (out : List Outgoing) :
    (b.postAll out).2.links.size = b.links.size := by
  induction out generalizing b with
  | nil => rfl
  | cons o rest ih => exact (ih (b.post o).2).trans (b.size_post o)

theorem contains_postAll (b : Switchboard) (out : List Outgoing) (c : ConnId) :
    (b.postAll out).2.links.contains c = b.links.contains c := by
  induction out generalizing b with
  | nil => rfl
  | cons o rest ih => exact (ih (b.post o).2).trans (b.contains_post o c)

theorem contains_of_mem_postAll {b : Switchboard} {out : List Outgoing} {c : ConnId}
    (h : c ∈ (b.postAll out).1) : b.links.contains c := by
  induction out generalizing b with
  | nil => exact absurd h List.not_mem_nil
  | cons o rest ih =>
    have later (h : c ∈ ((b.post o).2.postAll rest).1) : b.links.contains c :=
      b.contains_post o c ▸ ih h
    simp only [postAll] at h
    split at h
    · rename_i fatal
      rcases List.mem_cons.mp h with rfl | h
      · exact contains_of_post fatal
      · exact later h
    · exact later h

/-- Hands out the outbox and closes what failed, until nothing is left to hand out. All that is
closed on the way is closed at one time, `now`, although a server that runs reads its clock anew
for each connection that it closes. -/
def deliver (b : Switchboard) (now : Nat) : Switchboard :=
  if b.postOutbox.1 = [] then b.postOutbox.2
  else (b.postOutbox.2.closeAll now b.postOutbox.1).deliver now
termination_by b.links.size
decreasing_by
  have size : b.postOutbox.2.links.size = b.links.size := size_postAll _ _
  rw [← size]
  refine size_closeAll_lt now ‹_› fun c hc => ?_
  exact (contains_postAll _ _ c).trans (contains_of_mem_postAll hc)

/-- Passes what a connection brought to the server. -/
def handleAll (b : Switchboard) (now : Nat) (c : ConnId) (ds : List Delivery) : Switchboard :=
  { b with
    server := ds.foldl (fun s d => s.handle now c d.packet.seq d.packet.message) b.server }

/-- Takes in what a connection brought. Tells whether it has to be closed. -/
def takeIn (b : Switchboard) (now : Nat) (c : ConnId) : Bool × Switchboard :=
  match b.links[c]? with
  | none => (false, b)
  | some link =>
    let (_, run) := link.drain
    let b := { b with links := b.links.insert c run.link }.handleAll now c run.delivered
    match run.result with
    | .error _ | .ok .closed => (true, b)
    | .ok _ => (false, b)

/-- Writes what a connection did not take before. Tells whether it has to be closed. -/
def writeOut (b : Switchboard) (c : ConnId) : Bool × Switchboard :=
  match b.links[c]? with
  | none => (false, b)
  | some link =>
    let (result, link) := link.flush
    (result.toOption.isNone, { b with links := b.links.insert c link })

/-- Handles a connection that is ready to be read from or written to. -/
def service (b : Switchboard) (now : Nat) (c : ConnId) (readable writable : Bool) :
    Switchboard :=
  let (ended, b) := if readable then b.takeIn now c else (false, b)
  let (failed, b) := if writable ∧ !ended then b.writeOut c else (false, b)
  (if ended || failed then b.close now c else b).deliver now

def fireDue (b : Switchboard) (now : Nat) : Switchboard :=
  { b with server := b.server.fireDue now }.deliver now

def stop (b : Switchboard) : Switchboard :=
  let directory := { b.server.directory with agenda := b.server.directory.agenda.clear }
  { b with links := ∅, server := { b.server with directory } }

end Switchboard
end Muster
