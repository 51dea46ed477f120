import DotGraph.Entries
import Mathlib.Data.List.Nodup

/-! Insertion-ordered maps as lists: which entries an operation leaves, and in which order. -/

namespace DotGraph.Entries

variable {κ ν : Type}

@[simp] theorem keys_nil : keys ([] : Entries κ ν) = [] := rfl

@[simp] theorem keys_cons (pair : κ × ν) (rest : Entries κ ν) :
    keys (pair :: rest) = pair.1 :: rest.keys := rfl

@[simp] theorem keys_append (entries more : Entries κ ν) :
    keys (entries ++ more) = entries.keys ++ more.keys :=
  List.map_append

variable [BEq κ] {k : κ} {v : ν} {entries more : Entries κ ν}

theorem has_eq_any (k : κ) (entries : Entries κ ν) :
    entries.has k = entries.keys.any (· == k) := by
  induction entries with
  | nil => rfl
  | cons pair rest ih =>
    obtain ⟨k', v'⟩ := pair
    simp only [has] at ih
    by_cases hk : (k' == k) = true <;> simp [has, get?_cons, hk, ih]

theorem exists_mem_of_get? (h : entries.get? k = some v) : ∃ k', (k', v) ∈ entries := by
  induction entries with
  | nil => simp at h
  | cons pair rest ih =>
    obtain ⟨k', v'⟩ := pair
    rw [get?_cons] at h
    split at h
    · obtain rfl := Option.some.inj h
      exact ⟨k', by simp⟩
    · obtain ⟨k'', hm⟩ := ih h
      exact ⟨k'', by simp [hm]⟩

theorem put_of_get?_eq_none (h : entries.get? k = none) :
    entries.put k v = entries ++ [(k, v)] := by
  induction entries with
  | nil => rfl
  | cons pair rest ih =>
    obtain ⟨k', v'⟩ := pair
    rw [get?_cons] at h
    split at h
    · cases h
    · rename_i hk
      simp [put, hk, ih h]

theorem put_of_get?_eq_some (h : entries.get? k = some v) : entries.put k v = entries := by
  induction entries with
  | nil => simp at h
  | cons pair rest ih =>
    obtain ⟨k', v'⟩ := pair
    rw [get?_cons] at h
    split at h
    · rename_i hk
      obtain rfl := Option.some.inj h
      simp [put, hk]
    · rename_i hk
      simp [put, hk, ih h]

theorem keys_put :
    (entries.put k v).keys = if entries.has k then entries.keys else entries.keys ++ [k] := by
  induction entries with
  | nil => simp [has]
  | cons pair rest ih =>
    obtain ⟨k', v'⟩ := pair
    by_cases hk : (k' == k) = true
    · simp [put, has, get?_cons, hk]
    · have hh : has k ((k', v') :: rest) = has k rest := by
        simp [has, get?_cons, hk]
      rw [hh, put, if_neg hk, keys_cons, ih]
      split <;> simp

theorem get?_put_of_congr {k' : κ} (hl : ∀ k₀ k', (k₀ == k) = true → (k₀ == k') = (k == k'))
    (hr : ∀ k₀ k', (k == k') = true → (k₀ == k) = (k₀ == k')) :
    (entries.put k v).get? k' = if k == k' then some v else entries.get? k' := by
  induction entries with
  | nil => rw [put_nil, get?_cons]
  | cons pair rest ih =>
    obtain ⟨k₀, v₀⟩ := pair
    by_cases hk : (k₀ == k) = true
    · simp only [put, hk, if_true, get?_cons, hl k₀ k' hk]
      split <;> rfl
    · rw [put, if_neg hk, get?_cons, get?_cons, ih]
      by_cases hk' : (k == k') = true
      · rw [hr k₀ k' hk'] at hk
        simp [hk', hk]
      · simp [hk']

/-- No key equals a later one. -/
def Apart (entries : Entries κ ν) : Prop :=
  entries.keys.Pairwise fun k k' => (k == k') = false

theorem Apart.put (h : entries.Apart) : (entries.put k v).Apart := by
  unfold Apart
  rw [keys_put]
  split
  · exact h
  · rename_i hnew
    refine List.pairwise_append.2 ⟨h, List.pairwise_singleton _ _, fun k' hk' l hl => ?_⟩
    obtain rfl := List.mem_singleton.1 hl
    rw [has_eq_any, Bool.not_eq_true, List.any_eq_false] at hnew
    simpa using hnew k' hk'

theorem Apart.merge (h : entries.Apart) : (entries.merge more).Apart := by
  induction more generalizing entries with
  | nil => exact h
  | cons pair rest ih => exact ih h.put

/-- New keys, each apart from all others, go behind these in their order. -/
theorem Apart.merge_eq_append (ha : more.Apart)
    (h : ∀ k ∈ entries.keys, ∀ k' ∈ more.keys, (k == k') = false) :
    entries.merge more = entries ++ more := by
  induction more generalizing entries with
  | nil => simp
  | cons pair rest ih =>
    obtain ⟨k, v⟩ := pair
    obtain ⟨hfirst, hrest⟩ := List.pairwise_cons.1 ha
    have hnew : entries.has k = false := by
      rw [has_eq_any, List.any_eq_false]
      exact fun k' hk' => by simp [h k' hk' k (by simp)]
    have hnone : entries.get? k = none := by simpa [has] using hnew
    rw [merge_cons, put_of_get?_eq_none hnone, ih hrest, List.append_assoc]
    · rfl
    · intro k' hk' k'' hk''
      rw [keys_append, List.mem_append] at hk'
      rcases hk' with hk' | hk'
      · exact h k' hk' k'' (List.mem_cons_of_mem _ hk'')
      · obtain rfl : k' = k := by simpa using hk'
        exact hfirst k'' hk''

theorem get?_of_mem [ReflBEq κ] (ha : entries.Apart) {entry : κ × ν} (h : entry ∈ entries) :
    entries.get? entry.1 = some entry.2 := by
  induction entries with
  | nil => cases h
  | cons first rest ih =>
    obtain ⟨hfirst, hrest⟩ := List.pairwise_cons.1 ha
    rw [get?_cons]
    rcases List.mem_cons.1 h with rfl | h
    · simp
    · rw [hfirst entry.1 (List.mem_map.2 ⟨entry, h, rfl⟩)]
      exact ih hrest h

theorem eq_or_mem_of_mem_put {entry : κ × ν} (h : entry ∈ entries.put k v) :
    entry.2 = v ∨ entry ∈ entries := by
  induction entries with
  | nil => simp_all
  | cons pair rest ih =>
    obtain ⟨k', v'⟩ := pair
    unfold put at h
    split at h
    · rcases List.mem_cons.1 h with rfl | h
      · exact .inl rfl
      · exact .inr (List.mem_cons_of_mem _ h)
    · rcases List.mem_cons.1 h with rfl | h
      · exact .inr List.mem_cons_self
      · exact (ih h).imp_right (List.mem_cons_of_mem _)

theorem erase_sublist : (entries.erase k).Sublist entries := by
  induction entries with
  | nil => exact .slnil
  | cons pair rest ih =>
    obtain ⟨k', v'⟩ := pair
    unfold erase
    split
    · exact List.sublist_cons_self _ _
    · exact ih.cons_cons _

theorem nodup_keys_erase (hn : entries.keys.Nodup) : (entries.erase k).keys.Nodup :=
  hn.sublist (erase_sublist.map Prod.fst)

/-! ### Keys that are equal only to themselves -/

section

variable [LawfulBEq κ]

theorem apart_iff_nodup : entries.Apart ↔ entries.keys.Nodup := by
  simp [Apart, List.Nodup]

theorem has_iff : entries.has k = true ↔ k ∈ entries.keys := by
  simp [has_eq_any]

theorem get?_eq_none_of_notMem (h : k ∉ entries.keys) : entries.get? k = none := by
  have hn : entries.has k ≠ true := fun hh => h (has_iff.1 hh)
  simpa [has] using hn

theorem mem_of_get? (h : entries.get? k = some v) : (k, v) ∈ entries := by
  induction entries with
  | nil => simp at h
  | cons pair rest ih =>
    obtain ⟨k', v'⟩ := pair
    rw [get?_cons] at h
    split at h
    · rename_i hk
      obtain rfl := eq_of_beq hk
      obtain rfl := Option.some.inj h
      simp
    · exact List.mem_cons_of_mem _ (ih h)

theorem mem_put {entry : κ × ν} (h : entry ∈ entries.put k v) :
    entry = (k, v) ∨ entry ∈ entries := by
  induction entries with
  | nil => simpa using h
  | cons pair rest ih =>
    obtain ⟨k', v'⟩ := pair
    unfold put at h
    split at h
    · rename_i hk
      obtain rfl := eq_of_beq hk
      rcases List.mem_cons.1 h with h | h
      · exact .inl h
      · exact .inr (List.mem_cons_of_mem _ h)
    · rcases List.mem_cons.1 h with h | h
      · exact .inr (h ▸ List.mem_cons_self)
      · exact (ih h).imp_right (List.mem_cons_of_mem _)

theorem nodup_keys_put (hn : entries.keys.Nodup) : (entries.put k v).keys.Nodup := by
  rw [keys_put]
  split
  · exact hn
  · rename_i hk
    rw [has_iff] at hk
    refine List.nodup_append.2 ⟨hn, by simp, fun a ha b hb => ?_⟩
    obtain rfl := List.mem_singleton.1 hb
    exact fun h => hk (h ▸ ha)

theorem nodup_keys_merge (hn : entries.keys.Nodup) : (entries.merge more).keys.Nodup := by
  induction more generalizing entries with
  | nil => exact hn
  | cons pair rest ih =>
    rw [merge_cons]
    exact ih (nodup_keys_put hn)

theorem merge_eq_append (hn : more.keys.Nodup) (h : ∀ k ∈ more.keys, k ∉ entries.keys) :
    entries.merge more = entries ++ more := by
  refine (apart_iff_nodup.2 hn).merge_eq_append fun k hk k' hk' => ?_
  rw [beq_eq_false_iff_ne]
  rintro rfl
  exact h k hk' hk

theorem ofList_eq (hn : more.keys.Nodup) : ofList more = more := by
  rw [ofList, merge_eq_append hn (by simp), List.nil_append]

theorem nodup_keys_ofList (pairs : List (κ × ν)) : (ofList pairs).keys.Nodup :=
  nodup_keys_merge .nil

end

end DotGraph.Entries
