import Std.Data.ExtTreeMap
import Mathlib.Data.List.Nodup
import Mathlib.Data.List.Perm.Subperm

/-! Facts about ordered tables that hold whatever they store. -/
namespace Muster.Table
open Std

theorem values_eq {α β : Type} [Ord α] [TransOrd α] (t : ExtTreeMap α β) :
    t.values = t.toList.map Prod.snd := by
  obtain ⟨inner⟩ := t
  induction inner using ExtDTreeMap.inductionOn with
  | mk m =>
    show m.inner.values = (DTreeMap.Internal.Impl.Const.toList m.inner).map Prod.snd
    rw [DTreeMap.Internal.Impl.values_eq_map_snd,
      DTreeMap.Internal.Impl.Const.toList_eq_toListModel_map, List.map_map]
    rfl

theorem nodup_toList {α β : Type} [Ord α] [TransOrd α] (t : ExtTreeMap α β) :
    t.toList.Nodup := by
  apply List.Nodup.of_map Prod.fst
  rw [ExtTreeMap.map_fst_toList_eq_keys]
  exact ExtTreeMap.nodup_keys

theorem any_eq {α β : Type} [Ord α] [TransOrd α] (t : ExtTreeMap α β) (f : α → β → Bool) :
    t.any f = t.toList.any fun x => f x.1 x.2 := by
  obtain ⟨inner⟩ := t
  induction inner using ExtDTreeMap.inductionOn with
  | mk m =>
    show m.inner.any f = (DTreeMap.Internal.Impl.Const.toList m.inner).any _
    rw [DTreeMap.Internal.Impl.Const.toList_eq_toListModel_map, List.any_map]
    unfold DTreeMap.Internal.Impl.any
    show Id.run (do let r ← DTreeMap.Internal.Impl.forIn _ _ _; _) = _
    rw [DTreeMap.Internal.Impl.forIn_eq_forIn_toListModel]
    induction m.inner.toListModel with
    | nil => rfl
    | cons x xs ih =>
      rw [List.forIn_cons, List.any_cons]
      cases hf : f x.1 x.2 with
      | true => simp [hf]
      | false =>
        simp only [hf, Bool.false_eq_true, if_false, pure_bind, Function.comp_apply,
          Bool.false_or]
        exact ih

theorem contains_iff {α β : Type} [Ord α] [TransOrd α] {t : ExtTreeMap α β} {a : α} :
    t.contains a ↔ ∃ b : β, t[a]? = some b := by
  rw [ExtTreeMap.contains_eq_isSome_getElem?, Option.isSome_iff_exists]

theorem contains_of_getElem? {α β : Type} [Ord α] [TransOrd α] {t : ExtTreeMap α β} {a : α}
    {b : β} (h : t[a]? = some b) : t.contains a :=
  contains_iff.mpr ⟨b, h⟩

theorem size_pos_of_contains {α β : Type} [Ord α] [TransOrd α] {t : ExtTreeMap α β} {a : α}
    (h : t.contains a) : 0 < t.size := by
  refine Nat.pos_of_ne_zero fun zero => ?_
  rw [ExtTreeMap.eq_empty_iff_size_eq_zero.mpr zero, ExtTreeMap.contains_empty] at h
  contradiction

variable {α β : Type} [Ord α] [TransOrd α] [LawfulEqOrd α]

theorem mem_values {t : ExtTreeMap α β} {b : β} : b ∈ t.values ↔ ∃ a : α, t[a]? = some b := by
  rw [values_eq, List.mem_map]
  constructor
  · rintro ⟨⟨a, b⟩, h, rfl⟩
    exact ⟨a, ExtTreeMap.mem_toList_iff_getElem?_eq_some.mp h⟩
  · rintro ⟨a, h⟩
    exact ⟨(a, b), ExtTreeMap.mem_toList_iff_getElem?_eq_some.mpr h, rfl⟩

theorem any_iff {t : ExtTreeMap α β} {f : α → β → Bool} :
    t.any f = true ↔ ∃ (a : α) (b : β), t[a]? = some b ∧ f a b = true := by
  rw [any_eq, List.any_eq_true]
  constructor
  · rintro ⟨⟨a, b⟩, mem, h⟩
    exact ⟨a, b, ExtTreeMap.mem_toList_iff_getElem?_eq_some.mp mem, h⟩
  · rintro ⟨a, b, found, h⟩
    exact ⟨(a, b), ExtTreeMap.mem_toList_iff_getElem?_eq_some.mpr found, h⟩

theorem getElem?_insert [DecidableEq α] (t : ExtTreeMap α β) (a k : α) (b : β) :
    (t.insert a b)[k]? = if a = k then some b else t[k]? := by
  simp [ExtTreeMap.getElem?_insert]

theorem insert_of_getElem? [DecidableEq α] {t : ExtTreeMap α β} {a : α} {b : β}
    (found : t[a]? = some b) : t.insert a b = t := by
  apply ExtTreeMap.ext_getElem?
  intro k
  rw [getElem?_insert]
  split
  · rename_i same
    rw [← same, found]
  · rfl

theorem getElem?_erase [DecidableEq α] (t : ExtTreeMap α β) (a k : α) :
    (t.erase a)[k]? = if a = k then none else t[k]? := by
  simp [ExtTreeMap.getElem?_erase]

theorem mem_keys_iff {t : ExtTreeMap α β} {a : α} : a ∈ t.keys ↔ ∃ b : β, t[a]? = some b := by
  rw [ExtTreeMap.mem_keys, ← ExtTreeMap.contains_iff_mem, contains_iff]

theorem mem_keys_filter {t : ExtTreeMap α β} {f : α → β → Bool} {a : α} :
    a ∈ (t.filter f).keys ↔ ∃ b : β, t[a]? = some b ∧ f a b = true := by
  rw [mem_keys_iff, ExtTreeMap.getElem?_filter']
  simp only [Option.filter_eq_some_iff]

theorem nodup_values {t : ExtTreeMap α β}
    (single : ∀ (a a' : α) (b : β), t[a]? = some b → t[a']? = some b → a = a') :
    t.values.Nodup := by
  rw [values_eq]
  apply List.Nodup.map_on _ (nodup_toList t)
  rintro ⟨a, b⟩ mem ⟨a', b'⟩ mem' rfl
  rw [ExtTreeMap.mem_toList_iff_getElem?_eq_some] at mem mem'
  rw [single a a' b mem mem']

/-- What a list made from a table says of one name. -/
theorem filter_map_toList [DecidableEq α] {γ : Type} (t : ExtTreeMap α β) (a : α)
    (f : α × β → γ) (p : γ → Bool) (hp : ∀ x, p (f x) = decide (x.1 = a)) :
    (t.toList.map f).filter p = (t[a]?.map fun b => f (a, b)).toList := by
  have chosen : ∀ x, x ∈ t.toList.filter (p ∘ f) ↔ t[a]? = some x.2 ∧ x.1 = a := by
    rintro ⟨k, b⟩
    rw [List.mem_filter, ExtTreeMap.mem_toList_iff_getElem?_eq_some, Function.comp_apply, hp,
      decide_eq_true_eq]
    constructor
    · rintro ⟨h, rfl⟩
      exact ⟨h, rfl⟩
    · rintro ⟨h, rfl⟩
      exact ⟨h, rfl⟩
  have nodup : (t.toList.filter (p ∘ f)).Nodup := (nodup_toList t).filter _
  rw [List.filter_map]
  cases h : t[a]? with
  | none =>
    have empty : t.toList.filter (p ∘ f) = [] := by
      apply List.eq_nil_iff_forall_not_mem.mpr
      intro x hx
      rw [chosen, h] at hx
      exact nomatch hx.1
    rw [empty]
    rfl
  | some b =>
    have single : t.toList.filter (p ∘ f) = [(a, b)] := by
      apply List.Perm.eq_singleton
      rw [List.perm_ext_iff_of_nodup nodup (List.nodup_singleton _)]
      rintro ⟨k, b'⟩
      rw [chosen, h, List.mem_singleton, Option.some_inj, Prod.mk.injEq]
      exact ⟨fun ⟨hb, hk⟩ => ⟨hk, hb.symm⟩, fun ⟨hk, hb⟩ => ⟨hb.symm, hk⟩⟩
    rw [single]
    rfl

/-- A table that is part of another one of the same size is the whole of it. -/
theorem getElem?_eq_of_size_eq {s t : ExtTreeMap α β}
    (sub : ∀ (a : α) (b : β), s[a]? = some b → t[a]? = some b) (size : s.size = t.size) (a : α) :
    s[a]? = t[a]? := by
  have keys : s.keys ⊆ t.keys := by
    intro k hk
    obtain ⟨b, hb⟩ := mem_keys_iff.mp hk
    exact mem_keys_iff.mpr ⟨b, sub k b hb⟩
  have perm : s.keys.Perm t.keys := by
    refine (List.subperm_of_subset ExtTreeMap.nodup_keys keys).perm_of_length_le ?_
    apply Nat.le_of_eq
    rw [ExtTreeMap.length_keys, ExtTreeMap.length_keys, size]
  cases hs : s[a]? with
  | some b => exact (sub a b hs).symm
  | none =>
    cases ht : t[a]? with
    | none => rfl
    | some b =>
      obtain ⟨b', hb'⟩ := mem_keys_iff.mp (perm.mem_iff.mpr (mem_keys_iff.mpr ⟨b, ht⟩))
      rw [hs] at hb'
      contradiction

end Muster.Table
