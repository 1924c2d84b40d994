import Muster.Wire.Decoding
import Muster.Wire.Encoding

/-! Reading undoes writing. A decoder takes from the front of its input the bytes that write
its value, and no others, so that a value has one written form and what follows a value does
not change how it is read. A list is written by its length in a signed word, which says how
long a list can be that is read back. -/
namespace Muster

/-- A list of as many names cannot be counted by a signed word. -/
def NodeId.uncountable : Nat := 2147483648

namespace Bytes

/-- A count that a signed word holds is written like that word. -/
theorem ofNat_four {n : Nat} (small : n < NodeId.uncountable) :
    ofNat 4 n = ofInt32 (Int32.ofNat n) := by
  unfold NodeId.uncountable at small
  have size : n < UInt32.size := by
    unfold UInt32.size
    omega
  rw [ofInt32, Int32.toUInt32_ofNat', UInt32.toNat_ofNat_of_lt' size]

theorem toInt_ofNat {n : Nat} (small : n < NodeId.uncountable) : (Int32.ofNat n).toInt = n := by
  unfold NodeId.uncountable at small
  exact Int32.toInt_ofNat_of_lt small

/-- A word that is not negative counts as many as it says. -/
theorem ofNat_four_toNat {n : Int32} (nonneg : 0 ≤ n.toInt) :
    ofNat 4 n.toInt.toNat = ofInt32 n := by
  have small : n.toInt.toNat < NodeId.uncountable := by
    have := n.toInt_lt
    unfold NodeId.uncountable
    omega
  have word : Int32.ofNat n.toInt.toNat = n := by
    apply Int32.toInt_inj.mp
    rw [toInt_ofNat small, Int.toNat_of_nonneg nonneg]
  rw [ofNat_four small, word]

end Bytes

namespace Decoder
variable {α β : Type} {bs rest : Bytes}

theorem run_pure_eq_ok {a b : α} :
    (pure a : Decoder α).run bs = .ok b rest ↔ b = a ∧ bs = rest := by
  rw [EStateM.run_pure, EStateM.Result.ok.injEq, eq_comm]

theorem run_throw_ne_ok {e : DecodeError} {a : α} : (throw e : Decoder α).run bs ≠ .ok a rest :=
  nofun

theorem run_bind_eq_ok {d : Decoder α} {f : α → Decoder β} {b : β} :
    (d >>= f).run bs = .ok b rest ↔
      ∃ a mid, d.run bs = .ok a mid ∧ (f a).run mid = .ok b rest := by
  rw [EStateM.run_bind]
  cases d.run bs with
  | ok a mid => simp [and_assoc]
  | error e mid => simp

theorem run_unless_eq_ok {p : Prop} [Decidable p] {e : DecodeError} {f : α → Decoder β}
    {d : Decoder β} {b : β} :
    (if p then throw e >>= f else d).run bs = .ok b rest ↔ ¬p ∧ d.run bs = .ok b rest := by
  split
  · rename_i stopped
    exact ⟨nofun, fun h => absurd stopped h.1⟩
  · rename_i passed
    exact ⟨fun h => ⟨passed, h⟩, And.right⟩

theorem bytes_eq_ok {n : Nat} {front : Bytes} :
    (bytes n).run bs = .ok front rest ↔ front.length = n ∧ bs = front ++ rest := by
  rw [← Bytes.split?_eq_some_iff]
  unfold bytes
  rw [EStateM.run_bind, EStateM.run_get]
  dsimp only
  cases Bytes.split? n bs with
  | none => exact ⟨nofun, nofun⟩
  | some x =>
    show EStateM.Result.ok x.1 x.2 = .ok front rest ↔ _
    rw [EStateM.Result.ok.injEq, Option.some.injEq, Prod.ext_iff]

theorem remaining_eq_ok {n : Nat} : remaining.run bs = .ok n rest ↔ n = bs.length ∧ rest = bs := by
  show EStateM.Result.ok bs.length bs = .ok n rest ↔ _
  rw [EStateM.Result.ok.injEq, eq_comm, eq_comm (a := bs)]

theorem int32_eq_ok {n : Int32} : int32.run bs = .ok n rest ↔ bs = Bytes.ofInt32 n ++ rest := by
  simp only [int32, run_bind_eq_ok, bytes_eq_ok, run_pure_eq_ok]
  constructor
  · rintro ⟨front, mid, ⟨length, rfl⟩, rfl, rfl⟩
    rw [Bytes.ofInt32_toInt32 length]
  · rintro rfl
    exact ⟨_, _, ⟨Bytes.ofInt32_length n, rfl⟩, (Bytes.toInt32_ofInt32 n).symm, rfl⟩

theorem int64_eq_ok {n : Int64} : int64.run bs = .ok n rest ↔ bs = Bytes.ofInt64 n ++ rest := by
  simp only [int64, run_bind_eq_ok, bytes_eq_ok, run_pure_eq_ok]
  constructor
  · rintro ⟨front, mid, ⟨length, rfl⟩, rfl, rfl⟩
    rw [Bytes.ofInt64_toInt64 length]
  · rintro rfl
    exact ⟨_, _, ⟨Bytes.ofInt64_length n, rfl⟩, (Bytes.toInt64_ofInt64 n).symm, rfl⟩

theorem token_eq_ok {t : Token} : token.run bs = .ok t rest ↔ bs = t.bytes ++ rest := by
  simp only [token, run_bind_eq_ok, bytes_eq_ok]
  constructor
  · rintro ⟨front, mid, ⟨length, rfl⟩, read⟩
    have token : Token.ofBytes? front = some ⟨front, length⟩ := dif_pos length
    rw [token] at read
    obtain ⟨rfl, rfl⟩ := run_pure_eq_ok.mp read
    rfl
  · rintro rfl
    refine ⟨t.bytes, rest, ⟨t.length_eq, rfl⟩, ?_⟩
    rw [Token.ofBytes?_bytes]
    exact run_pure_eq_ok.mpr ⟨rfl, rfl⟩

theorem code_eq_ok {α : Type} [Code α] {c : α} :
    (code α).run bs = .ok c rest ↔ bs = Code.encode c ++ rest := by
  simp only [code, run_bind_eq_ok, int32_eq_ok, Code.encode]
  constructor
  · rintro ⟨n, mid, rfl, read⟩
    cases known : (Code.ofNumber? n : Option α) with
    | none =>
      rw [known] at read
      exact absurd read run_throw_ne_ok
    | some c' =>
      rw [known] at read
      obtain ⟨rfl, rfl⟩ := run_pure_eq_ok.mp read
      rw [Code.ofNumber?_eq_some_iff.mp known]
  · rintro rfl
    refine ⟨_, rest, rfl, ?_⟩
    rw [Code.ofNumber?_number]
    exact run_pure_eq_ok.mpr ⟨rfl, rfl⟩

theorem fromUTF8?_eq_some {b : ByteArray} {text : String} :
    String.fromUTF8? b = some text ↔ text.toByteArray = b := by
  unfold String.fromUTF8?
  constructor
  · intro h
    split at h
    · obtain rfl := Option.some.inj h
      rfl
    · contradiction
  · rintro rfl
    rw [dif_pos text.isValidUTF8]
    rfl

theorem ofText_eq_ok {text : String} {id : NodeId} :
    NodeId.ofText text = .ok id ↔ id.text = text := by
  constructor
  · intro h
    unfold NodeId.ofText at h
    split at h
    · obtain rfl := Except.ok.inj h
      rfl
    · contradiction
  · rintro rfl
    exact NodeId.ofText_text id

theorem utf8_eq_iff {id : NodeId} {front : Bytes} :
    id.utf8 = front ↔ id.text.toByteArray = ⟨front.toArray⟩ := by
  unfold NodeId.utf8
  constructor
  · rintro rfl
    rfl
  · intro h
    rw [h]

theorem nodeId_eq_ok {id : NodeId} : nodeId.run bs = .ok id rest ↔ bs = id.encode ++ rest := by
  unfold nodeId NodeId.encode
  simp only [run_bind_eq_ok, run_unless_eq_ok, int32_eq_ok, bytes_eq_ok]
  constructor
  · rintro ⟨length, mid, rfl, range, front, mid', ⟨size, rfl⟩, last⟩
    cases decoded : String.fromUTF8? ⟨front.toArray⟩ with
    | none =>
      rw [decoded] at last
      exact absurd last run_throw_ne_ok
    | some text =>
      rw [decoded] at last
      dsimp only at last
      cases named : NodeId.ofText text with
      | error e =>
        rw [named] at last
        exact absurd last run_throw_ne_ok
      | ok id' =>
        rw [named] at last
        obtain ⟨rfl, rfl⟩ := run_pure_eq_ok.mp last
        have text_eq := ofText_eq_ok.mp named
        have front_eq : id.utf8 = front := by
          rw [utf8_eq_iff, text_eq, fromUTF8?_eq_some.mp decoded]
        have nonneg : 0 ≤ length.toInt := by
          rw [not_or, Int32.not_lt, Int32.le_iff_toInt_le] at range
          exact Int.le_trans (by decide) range.1
        rw [front_eq, ← NodeId.utf8_length, front_eq, size, Bytes.ofNat_four_toNat nonneg,
          List.append_assoc]
  · rintro rfl
    have pos : 0 < id.size := id.size_pos
    have le : id.size ≤ 32 := id.size_le
    have small : id.size < NodeId.uncountable := Nat.lt_of_le_of_lt le (by decide)
    have count := Bytes.toInt_ofNat small
    refine ⟨.ofNat id.size, id.utf8 ++ rest, ?_, ?_, id.utf8, rest, ⟨?_, rfl⟩, ?_⟩
    · rw [Bytes.ofNat_four small, List.append_assoc]
    · rw [not_or, Int32.not_lt, Int32.le_iff_toInt_le, GT.gt, Int32.not_lt, Int32.le_iff_toInt_le,
        count]
      exact ⟨Int.ofNat_le.mpr pos, Int.ofNat_le.mpr le⟩
    · rw [count, Int.toNat_natCast, NodeId.utf8_length]
    · rw [fromUTF8?_eq_some.mpr (utf8_eq_iff.mp rfl)]
      dsimp only
      rw [NodeId.ofText_text]
      exact run_pure_eq_ok.mpr ⟨rfl, rfl⟩

theorem times_eq_ok {d : Decoder α} {write : α → Bytes}
    (once : ∀ {bs a rest}, d.run bs = .ok a rest ↔ bs = write a ++ rest) {n : Nat} {as : List α} :
    (times n d).run bs = .ok as rest ↔ as.length = n ∧ bs = as.flatMap write ++ rest := by
  induction n generalizing bs rest as with
  | zero =>
    rw [times, run_pure_eq_ok, List.length_eq_zero_iff]
    constructor
    · rintro ⟨rfl, rfl⟩
      exact ⟨rfl, rfl⟩
    · rintro ⟨rfl, rfl⟩
      exact ⟨rfl, rfl⟩
  | succ n ih =>
    simp only [times, run_bind_eq_ok, run_pure_eq_ok, once, ih]
    constructor
    · rintro ⟨a, _, rfl, as, _, ⟨rfl, rfl⟩, rfl, rfl⟩
      exact ⟨rfl, by rw [List.flatMap_cons, List.append_assoc]⟩
    · rintro ⟨length, rfl⟩
      obtain ⟨a, as, rfl⟩ := List.exists_cons_of_length_eq_add_one length
      refine ⟨a, _, ?_, as, rest, ⟨Nat.succ.inj length, rfl⟩, rfl, rfl⟩
      rw [List.flatMap_cons, List.append_assoc]

/-- Every name takes five bytes at least, so that the check of the count refuses no list. -/
theorem five_mul_length_le (ids : List NodeId) :
    ids.length * 5 ≤ (ids.flatMap NodeId.encode).length := by
  induction ids with
  | nil => exact Nat.le_refl 0
  | cons id ids ih =>
    have pos : 0 < id.size := id.size_pos
    rw [List.length_cons, List.flatMap_cons, List.length_append, NodeId.encode_length,
      NodeId.encodedSize]
    omega

theorem members_eq_ok {ids : List NodeId} : members.run bs = .ok ids rest ↔
    ids.length < NodeId.uncountable ∧ bs = NodeId.encodeList ids ++ rest := by
  unfold members NodeId.encodeList
  simp only [run_bind_eq_ok, run_unless_eq_ok, int32_eq_ok, remaining_eq_ok,
    times_eq_ok nodeId_eq_ok]
  constructor
  · rintro ⟨count, mid, rfl, _, _, ⟨rfl, rfl⟩, refused, length, rfl⟩
    have nonneg : 0 ≤ count.toInt := by
      rw [not_or, Int32.not_lt, Int32.le_iff_toInt_le] at refused
      exact refused.1
    refine ⟨?_, ?_⟩
    · have := count.toInt_lt
      unfold NodeId.uncountable
      omega
    · rw [length, Bytes.ofNat_four_toNat nonneg, List.append_assoc]
  · rintro ⟨small, rfl⟩
    have count := Bytes.toInt_ofNat small
    refine ⟨.ofNat ids.length, ids.flatMap NodeId.encode ++ rest, ?_, _, _, ⟨rfl, rfl⟩, ?_, ?_, rfl⟩
    · rw [Bytes.ofNat_four small, List.append_assoc]
    · have enough := five_mul_length_le ids
      rw [not_or, Int32.not_lt, Int32.le_iff_toInt_le, count, Int.toNat_natCast, List.length_append]
      exact ⟨Int.natCast_nonneg _, by omega⟩
    · rw [count, Int.toNat_natCast]

theorem group_eq_ok {g : GroupRef} : group.run bs = .ok g rest ↔ bs = g.encode ++ rest := by
  simp only [group, run_bind_eq_ok, run_pure_eq_ok, nodeId_eq_ok, token_eq_ok, GroupRef.encode]
  constructor
  · rintro ⟨id, _, rfl, token, _, rfl, rfl, rfl⟩
    rw [List.append_assoc]
  · rintro rfl
    exact ⟨g.id, _, List.append_assoc .., g.token, rest, rfl, rfl, rfl⟩

theorem terms_eq_ok {t : SyncTerms} : terms.run bs = .ok t rest ↔ bs = t.encode ++ rest := by
  simp only [terms, run_bind_eq_ok, run_pure_eq_ok, nodeId_eq_ok, int64_eq_ok, SyncTerms.encode]
  constructor
  · rintro ⟨timeout, _, rfl, point, _, rfl, rfl, rfl⟩
    rw [List.append_assoc]
  · rintro rfl
    exact ⟨t.timeout, _, List.append_assoc .., t.point, rest, rfl, rfl, rfl⟩

end Decoder

namespace Body

/-- Whether the members that a body lists, if it lists any, can be counted. -/
def Countable (b : Body) : Prop := ∀ ids, b.members? = some ids → ids.length < NodeId.uncountable

theorem Countable.of_none {b : Body} (h : b.members? = none) : b.Countable := by
  intro ids some
  rw [h] at some
  contradiction

theorem Countable.of_some {b : Body} {ids : List NodeId} (h : b.members? = some ids)
    (small : ids.length < NodeId.uncountable) : b.Countable := by
  intro ids' some
  rw [h] at some
  exact Option.some.inj some ▸ small

end Body

namespace Decoder
variable {bs rest : Bytes}

/-- Where a field is written, it is read, and reading goes on behind it. -/
theorem run_field {α β : Type} {d : Decoder α} {write : α → Bytes}
    (once : ∀ {bs a rest}, d.run bs = .ok a rest ↔ bs = write a ++ rest) (f : α → Decoder β)
    (a : α) (bs : Bytes) : (d >>= f).run (write a ++ bs) = (f a).run bs := by
  rw [EStateM.run_bind, once.mpr rfl]

theorem run_members {β : Type} (f : List NodeId → Decoder β) {ids : List NodeId}
    (small : ids.length < NodeId.uncountable) (bs : Bytes) :
    (members >>= f).run (NodeId.encodeList ids ++ bs) = (f ids).run bs := by
  rw [EStateM.run_bind, members_eq_ok.mpr ⟨small, rfl⟩]

theorem body_of_encode {b : Body} (countable : b.Countable) :
    (body b.kind).run (b.encode ++ rest) = .ok b rest := by
  cases b with
  | registerRequest client =>
    rw [Body.kind, body, Body.encode, run_field nodeId_eq_ok, EStateM.run_pure]
  | registerResponse client code =>
    rw [Body.kind, body, Body.encode, List.append_assoc, run_field token_eq_ok,
      run_field code_eq_ok, EStateM.run_pure]
  | joinRequest group =>
    rw [Body.kind, body, Body.encode, run_field group_eq_ok, EStateM.run_pure]
  | joinResponse group code =>
    rw [Body.kind, body, Body.encode, List.append_assoc, run_field group_eq_ok,
      run_field code_eq_ok, EStateM.run_pure]
  | membershipNotice group ids code =>
    have small := countable ids rfl
    simp only [Body.kind, body, Body.encode, List.append_assoc, run_field group_eq_ok,
      run_members _ small, run_field code_eq_ok, EStateM.run_pure]
  | leaveRequest group =>
    rw [Body.kind, body, Body.encode, run_field group_eq_ok, EStateM.run_pure]
  | leaveResponse group code =>
    rw [Body.kind, body, Body.encode, List.append_assoc, run_field group_eq_ok,
      run_field code_eq_ok, EStateM.run_pure]
  | syncRequest group terms =>
    rw [Body.kind, body, Body.encode, List.append_assoc, run_field group_eq_ok,
      run_field terms_eq_ok, EStateM.run_pure]
  | syncResponse group ids terms code =>
    have small := countable ids rfl
    simp only [Body.kind, body, Body.encode, List.append_assoc, run_field group_eq_ok,
      run_members _ small, run_field terms_eq_ok, run_field code_eq_ok, EStateM.run_pure]
  | progressNotice group ids point code =>
    have small := countable ids rfl
    simp only [Body.kind, body, Body.encode, List.append_assoc, run_field group_eq_ok,
      run_members _ small, run_field nodeId_eq_ok, run_field code_eq_ok, EStateM.run_pure]

theorem encode_of_body {k : Kind} {b : Body} (h : (body k).run bs = .ok b rest) :
    b.kind = k ∧ b.Countable ∧ bs = b.encode ++ rest := by
  cases k with
  | registerRequest =>
    simp only [body, run_bind_eq_ok, run_pure_eq_ok, nodeId_eq_ok] at h
    obtain ⟨client, _, rfl, rfl, rfl⟩ := h
    exact ⟨rfl, .of_none rfl, rfl⟩
  | registerResponse =>
    simp only [body, run_bind_eq_ok, run_pure_eq_ok, token_eq_ok, code_eq_ok] at h
    obtain ⟨client, _, rfl, code, _, rfl, rfl, rfl⟩ := h
    exact ⟨rfl, .of_none rfl, by rw [Body.encode, List.append_assoc]⟩
  | joinRequest =>
    simp only [body, run_bind_eq_ok, run_pure_eq_ok, group_eq_ok] at h
    obtain ⟨group, _, rfl, rfl, rfl⟩ := h
    exact ⟨rfl, .of_none rfl, rfl⟩
  | joinResponse =>
    simp only [body, run_bind_eq_ok, run_pure_eq_ok, group_eq_ok, code_eq_ok] at h
    obtain ⟨group, _, rfl, code, _, rfl, rfl, rfl⟩ := h
    exact ⟨rfl, .of_none rfl, by rw [Body.encode, List.append_assoc]⟩
  | membershipNotice =>
    simp only [body, run_bind_eq_ok, run_pure_eq_ok, group_eq_ok, members_eq_ok, code_eq_ok] at h
    obtain ⟨group, _, rfl, ids, _, ⟨small, rfl⟩, code, _, rfl, rfl, rfl⟩ := h
    exact ⟨rfl, .of_some rfl small, by simp only [Body.encode, List.append_assoc]⟩
  | leaveRequest =>
    simp only [body, run_bind_eq_ok, run_pure_eq_ok, group_eq_ok] at h
    obtain ⟨group, _, rfl, rfl, rfl⟩ := h
    exact ⟨rfl, .of_none rfl, rfl⟩
  | leaveResponse =>
    simp only [body, run_bind_eq_ok, run_pure_eq_ok, group_eq_ok, code_eq_ok] at h
    obtain ⟨group, _, rfl, code, _, rfl, rfl, rfl⟩ := h
    exact ⟨rfl, .of_none rfl, by rw [Body.encode, List.append_assoc]⟩
  | syncRequest =>
    simp only [body, run_bind_eq_ok, run_pure_eq_ok, group_eq_ok, terms_eq_ok] at h
    obtain ⟨group, _, rfl, terms, _, rfl, rfl, rfl⟩ := h
    exact ⟨rfl, .of_none rfl, by rw [Body.encode, List.append_assoc]⟩
  | syncResponse =>
    simp only [body, run_bind_eq_ok, run_pure_eq_ok, group_eq_ok, members_eq_ok, terms_eq_ok,
      code_eq_ok] at h
    obtain ⟨group, _, rfl, ids, _, ⟨small, rfl⟩, terms, _, rfl, code, _, rfl, rfl, rfl⟩ := h
    exact ⟨rfl, .of_some rfl small, by simp only [Body.encode, List.append_assoc]⟩
  | progressNotice =>
    simp only [body, run_bind_eq_ok, run_pure_eq_ok, group_eq_ok, members_eq_ok, nodeId_eq_ok,
      code_eq_ok] at h
    obtain ⟨group, _, rfl, ids, _, ⟨small, rfl⟩, point, _, rfl, code, _, rfl, rfl, rfl⟩ := h
    exact ⟨rfl, .of_some rfl small, by simp only [Body.encode, List.append_assoc]⟩

theorem message_eq_ok {k : Kind} {m : Message} : (message k).run bs = .ok m rest ↔
    m.kind = k ∧ m.body.Countable ∧ bs = m.encode ++ rest := by
  simp only [message, run_bind_eq_ok, run_pure_eq_ok, token_eq_ok, Message.encode]
  constructor
  · rintro ⟨sender, _, rfl, b, _, read, rfl, rfl⟩
    obtain ⟨kind, countable, rfl⟩ := encode_of_body read
    exact ⟨kind, countable, (List.append_assoc ..).symm⟩
  · rintro ⟨rfl, countable, rfl⟩
    exact ⟨m.sender, _, List.append_assoc .., m.body, rest, body_of_encode countable, rfl, rfl⟩

theorem runAll_eq_ok {α : Type} {d : Decoder α} {a : α} :
    d.runAll bs = .ok a ↔ d.run bs = .ok a [] := by
  unfold runAll
  cases d.run bs with
  | ok a' rest =>
    cases rest with
    | nil => simp
    | cons b rest => simp
  | error e rest => simp

end Decoder

namespace Message

/-- Messages are read from just what they write, if their members can be counted. -/
theorem decode_eq_ok {kind : Int32} {bs : Bytes} {m : Message} : decode kind bs = .ok m ↔
    m.kind.number = kind ∧ m.body.Countable ∧ m.encode = bs := by
  unfold decode
  cases known : Kind.ofNumber? kind with
  | none =>
    refine ⟨nofun, ?_⟩
    rintro ⟨rfl, -⟩
    rw [Kind.ofNumber?_number] at known
    contradiction
  | some k =>
    obtain rfl := Kind.ofNumber?_eq_some_iff.mp known
    dsimp only
    rw [Decoder.runAll_eq_ok, Decoder.message_eq_ok, List.append_nil, eq_comm (a := bs)]
    refine and_congr_left fun _ => ⟨fun h => by rw [h], Kind.number_injective⟩

/-- No message of a kind is the beginning of another one. -/
theorem eq_of_encode_front {m m' : Message} (kind : m.kind = m'.kind)
    (countable : m.body.Countable) (countable' : m'.body.Countable)
    (front : m.encode <+: m'.encode) : m = m' := by
  obtain ⟨rest, eq⟩ := front
  have read : (Decoder.message m'.kind).run m'.encode = .ok m rest :=
    Decoder.message_eq_ok.mpr ⟨kind, countable, eq.symm⟩
  have read' : (Decoder.message m'.kind).run m'.encode = .ok m' [] :=
    Decoder.message_eq_ok.mpr ⟨rfl, countable', (List.append_nil _).symm⟩
  rw [read] at read'
  exact (EStateM.Result.ok.inj read').1

theorem error_of_not_ok {kind : Int32} {bs : Bytes} (h : ∀ m, decode kind bs ≠ .ok m) :
    ∃ e, decode kind bs = .error e := by
  cases result : decode kind bs with
  | ok m => exact absurd result (h m)
  | error e => exact ⟨e, rfl⟩

/-- Writing and reading are inverse to each other. Each message whose members can be counted is
read back from its bytes, of which there are as many as were said; a body that is cut short or
goes on is refused. What is read is of the kind asked for and is written by the same bytes. All
other bodies are refused. -/
theorem decode_inverts_encode :
    (∀ m : Message, m.body.Countable →
      m.encode.length = m.encodedSize ∧ decode m.kind.number m.encode = .ok m ∧
        ∀ bs, bs ≠ m.encode → bs <+: m.encode ∨ m.encode <+: bs →
          ∃ e, decode m.kind.number bs = .error e) ∧
    (∀ kind bs m, decode kind bs = .ok m → m.kind.number = kind ∧ m.encode = bs) ∧
    ∀ kind bs, (∀ m : Message, m.body.Countable → m.kind.number = kind → m.encode ≠ bs) →
      ∃ e, decode kind bs = .error e := by
  refine ⟨?_, ?_, ?_⟩
  · intro m countable
    refine ⟨m.encode_length, decode_eq_ok.mpr ⟨rfl, countable, rfl⟩, ?_⟩
    rintro bs other cut
    apply error_of_not_ok
    intro m' read
    obtain ⟨kind, countable', rfl⟩ := decode_eq_ok.mp read
    have kind := Kind.number_injective kind
    apply other
    rcases cut with cut | cut
    · rw [eq_of_encode_front kind countable' countable cut]
    · rw [eq_of_encode_front kind.symm countable countable' cut]
  · intro kind bs m read
    obtain ⟨kind, -, body⟩ := decode_eq_ok.mp read
    exact ⟨kind, body⟩
  · intro kind bs unwritten
    apply error_of_not_ok
    intro m read
    obtain ⟨kind, countable, body⟩ := decode_eq_ok.mp read
    exact unwritten m countable kind body

/-- A timeout at a sync point, told to two who have arrived. -/
def sampleNotice : Message :=
  ⟨.ofByte 7, .progressNotice ⟨⟨"group", by decide, by decide⟩, .ofByte 1⟩
    [⟨"a", by decide, by decide⟩, ⟨"bc", by decide, by decide⟩] ⟨"cp1", by decide, by decide⟩
    .timeout⟩

theorem decode_inverts_encode_of_notice :
    sampleNotice.body.Countable ∧ sampleNotice.encode.length = 99 ∧
      decode 10 sampleNotice.encode = .ok sampleNotice ∧
      (∃ e, decode 10 sampleNotice.encode.dropLast = .error e) ∧
      ∃ e, decode 10 (sampleNotice.encode ++ [0]) = .error e := by
  have countable : sampleNotice.body.Countable := .of_some rfl (by decide)
  obtain ⟨length, read, cut⟩ := decode_inverts_encode.1 sampleNotice countable
  refine ⟨countable, length, read, cut _ ?_ (.inl (List.dropLast_prefix _)),
    cut _ ?_ (.inr (List.prefix_append _ _))⟩
  · intro same
    have := congrArg List.length same
    rw [List.length_dropLast, length] at this
    contradiction
  · intro same
    have := congrArg List.length same
    rw [List.length_append, length] at this
    contradiction

end Message

end Muster
