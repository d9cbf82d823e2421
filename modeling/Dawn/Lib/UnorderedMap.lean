import Mathlib.Data.Finmap
import Mathlib.Tactic

/-!
# Unordered maps

`std::unordered_map` as a finite map. Its `insert` leaves a key alone that is already there, so of the
pairs of a list that are inserted one after another the first one with a key counts
(`lookup_foldl_insertNew`).
-/

namespace Dawn

/-- `std::unordered_map`. -/
abbrev UnorderedMap (κ β : Type) := Finmap fun _ : κ => β

namespace UnorderedMap

variable {κ β α : Type} [DecidableEq κ]

/-- `insert` of an `unordered_map`, which leaves a key alone that is already there. -/
def insertNew (m : UnorderedMap κ β) (k : κ) (v : β) : UnorderedMap κ β :=
  if k ∈ m then m else m.insert k v

theorem lookup_insertNew (m : UnorderedMap κ β) (k k' : κ) (v : β) :
    (m.insertNew k v).lookup k' = (m.lookup k').or (if k = k' then some v else none) := by
  unfold insertNew
  split_ifs with hm hk hk
  · subst hk
    obtain ⟨b, hb⟩ := Finmap.mem_iff.mp hm
    rw [hb, Option.some_or]
  · rw [Option.or_none]
  · subst hk
    rw [Finmap.lookup_insert, Finmap.lookup_eq_none.mpr hm, Option.none_or]
  · rw [Finmap.lookup_insert_of_ne _ (Ne.symm hk), Option.or_none]

theorem lookup_insertNew_eq_some {m : UnorderedMap κ β} {k k' : κ} {v v' : β} (h : k ∉ m) :
    (m.insertNew k v).lookup k' = some v' ↔ k' = k ∧ v' = v ∨ m.lookup k' = some v' := by
  rw [lookup_insertNew]
  obtain rfl | hne := eq_or_ne k' k
  · rw [Finmap.lookup_eq_none.mpr h]
    simp [eq_comm]
  · simp [hne, hne.symm]

theorem mem_insertNew {m : UnorderedMap κ β} {k k' : κ} {v : β} : k' ∈ m.insertNew k v ↔ k' = k ∨ k' ∈ m := by
  unfold insertNew
  split_ifs with hm
  · exact ⟨Or.inr, fun h => h.elim (fun e => e ▸ hm) id⟩
  · exact Finmap.mem_insert

theorem lookup_foldl_insertNew (f : α → κ) (g : α → β) (l : List α) (m : UnorderedMap κ β) (k : κ) :
    (l.foldl (fun m a => m.insertNew (f a) (g a)) m).lookup k = (m.lookup k).or ((l.find? fun a => f a = k).map g) := by
  induction l generalizing m with
  | nil => rw [List.foldl_nil, List.find?_nil, Option.map_none, Option.or_none]
  | cons a l ih =>
    rw [List.foldl_cons, ih, lookup_insertNew, Option.or_assoc]
    congr 1
    by_cases h : f a = k <;> simp [h]

theorem lookup_foldl_insertNew_eq_some {f : α → κ} {g : α → β} {l : List α} (h : (l.map f).Nodup) {k : κ}
    {v : β} : (l.foldl (fun m a => m.insertNew (f a) (g a)) (∅ : UnorderedMap κ β)).lookup k = some v ↔
      ∃ a ∈ l, f a = k ∧ g a = v := by
  rw [lookup_foldl_insertNew, Finmap.lookup_empty, Option.none_or, Option.map_eq_some_iff]
  refine ⟨fun ⟨a, ha, hv⟩ => ?_, fun ⟨a, ha, hk, hv⟩ => ?_⟩
  · have hk := List.find?_some ha
    exact ⟨a, List.mem_of_find?_eq_some ha, by simpa using hk, hv⟩
  · cases hf : l.find? fun a => f a = k with
    | none => exact absurd hk (by simpa using List.find?_eq_none.mp hf a ha)
    | some b =>
      have hb : f b = k := by simpa using List.find?_some hf
      have hab := List.inj_on_of_nodup_map h (List.mem_of_find?_eq_some hf) ha (hb.trans hk.symm)
      exact ⟨b, rfl, hab ▸ hv⟩

theorem ext_some {m m' : UnorderedMap κ β} (h : ∀ k v, m.lookup k = some v ↔ m'.lookup k = some v) : m = m' :=
  Finmap.ext_lookup fun k => Option.ext fun v => h k v

theorem lookup_erase_eq_some {m : UnorderedMap κ β} {k k' : κ} {v : β} :
    (m.erase k).lookup k' = some v ↔ k' ≠ k ∧ m.lookup k' = some v := by
  obtain rfl | h := eq_or_ne k' k
  · simp
  · simp [Finmap.lookup_erase_ne h, h]

theorem erase_foldl_insertNew {f : α → κ} {g : α → β} {l l' : List α} {a : α} (h : ((l ++ a :: l').map f).Nodup) :
    ((l ++ a :: l').foldl (fun m a => insertNew m (f a) (g a)) (∅ : UnorderedMap κ β)).erase (f a) =
      (l ++ l').foldl (fun m a => insertNew m (f a) (g a)) (∅ : UnorderedMap κ β) := by
  have h' := h
  rw [List.map_append, List.map_cons, List.nodup_middle, ← List.map_append, List.nodup_cons] at h'
  refine ext_some fun k v => ?_
  rw [lookup_erase_eq_some, lookup_foldl_insertNew_eq_some h, lookup_foldl_insertNew_eq_some h'.2]
  constructor
  · rintro ⟨hne, b, hb, rfl, hv⟩
    rcases List.mem_append.mp hb with hb | hb
    · exact ⟨b, List.mem_append_left _ hb, rfl, hv⟩
    · have hba : b ≠ a := fun he => hne (by rw [he])
      exact ⟨b, List.mem_append_right _ (List.mem_of_ne_of_mem hba hb), rfl, hv⟩
  · rintro ⟨b, hb, rfl, hv⟩
    refine ⟨fun he => h'.1 (he ▸ List.mem_map_of_mem hb), b, ?_, rfl, hv⟩
    rcases List.mem_append.mp hb with hb | hb
    · exact List.mem_append_left _ hb
    · exact List.mem_append_right _ (List.mem_cons_of_mem a hb)

theorem card_insertNew {m : UnorderedMap κ β} {k : κ} {v : β} (h : k ∉ m) :
    (m.insertNew k v).keys.card = m.keys.card + 1 := by
  have hkeys : (m.insertNew k v).keys = insert k m.keys := by
    ext k'
    rw [Finmap.mem_keys, mem_insertNew, Finset.mem_insert, Finmap.mem_keys]
  rw [hkeys, Finset.card_insert_of_notMem (by rwa [Finmap.mem_keys])]

theorem card_erase {m : UnorderedMap κ β} {k : κ} (h : k ∈ m) : ((m.erase k).keys.card : ℤ) = m.keys.card - 1 := by
  rw [Finmap.keys_erase, Finset.card_erase_of_mem (Finmap.mem_keys.mpr h)]
  have := Finset.card_pos.mpr ⟨k, Finmap.mem_keys.mpr h⟩
  omega

theorem insertNew_erase {m : UnorderedMap κ β} {k : κ} {v : β} (h : m.lookup k = some v) :
    insertNew (m.erase k) k v = m := by
  refine ext_some fun k' v' => ?_
  rw [lookup_insertNew_eq_some (by simp), lookup_erase_eq_some]
  obtain rfl | hne := eq_or_ne k' k
  · simp [h, eq_comm]
  · simp [hne]

end UnorderedMap

end Dawn
