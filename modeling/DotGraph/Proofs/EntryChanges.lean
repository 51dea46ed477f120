import DotGraph.Proofs.MergedEntries
import Mathlib.Data.List.Induction

/-!
Changes of insertion-ordered maps.  A change enters a value under a key, or removes the key.
Changes under distinct keys come to one closed form.  Of changes in a row, each key keeps what was
said of it last, and the keys stand in the order in which they came in to stay.
-/

namespace DotGraph.Entries

variable {κ ν : Type} [BEq κ]

/-- A value is entered under a key, or the key is removed. -/
def change (entries : Entries κ ν) (k : κ) : Option ν → Entries κ ν
  | some v => entries.put k v
  | none => entries.erase k

/-- Changes one after the other. -/
def changeAll (entries : Entries κ ν) (changes : Entries κ (Option ν)) : Entries κ ν :=
  changes.foldl (fun entries c => entries.change c.1 c.2) entries

@[simp] theorem changeAll_nil (entries : Entries κ ν) : entries.changeAll [] = entries := rfl

@[simp] theorem changeAll_cons (entries : Entries κ ν) (c : κ × Option ν)
    (changes : Entries κ (Option ν)) :
    entries.changeAll (c :: changes) = (entries.change c.1 c.2).changeAll changes := rfl

@[simp] theorem changeAll_append (entries : Entries κ ν) (changes more : Entries κ (Option ν)) :
    entries.changeAll (changes ++ more) = (entries.changeAll changes).changeAll more :=
  List.foldl_append

/-- What changes leave of an entry: the value that they have for its key, if they name it. -/
def kept (changes : Entries κ (Option ν)) (entry : κ × ν) : Option (κ × ν) :=
  match changes.get? entry.1 with
  | none => some entry
  | some value => value.map fun v => (entry.1, v)

/-- What a change adds behind the entries: its value, if its key is not there. -/
def added (entries : Entries κ ν) (c : κ × Option ν) : Option (κ × ν) :=
  if entries.has c.1 then none else c.2.map fun v => (c.1, v)

omit [BEq κ] in
theorem mem_keys_of_mem {entries : Entries κ ν} {entry : κ × ν} (h : entry ∈ entries) :
    entry.1 ∈ entries.keys :=
  List.mem_map.2 ⟨entry, h, rfl⟩

section

variable [LawfulBEq κ] {k k' : κ} {v : ν} {value : Option ν} {entries : Entries κ ν}
  {changes : Entries κ (Option ν)}

/-! ### One change -/

theorem mem_iff_get? (hn : entries.keys.Nodup) : (k, v) ∈ entries ↔ entries.get? k = some v :=
  ⟨fun h => get?_of_mem (apart_iff_nodup.2 hn) h, mem_of_get?⟩

theorem get?_erase (hn : entries.keys.Nodup) :
    (entries.erase k).get? k' = if k == k' then none else entries.get? k' := by
  induction entries with
  | nil => simp [erase]
  | cons pair rest ih =>
    obtain ⟨k₀, v₀⟩ := pair
    obtain ⟨hfirst, hrest⟩ := List.nodup_cons.1 hn
    by_cases h₀ : k₀ = k
    · subst h₀
      by_cases hk : k₀ = k'
      · subst hk
        simp [erase, get?_eq_none_of_notMem hfirst]
      · simp [erase, get?_cons, hk]
    · by_cases hk : k₀ = k'
      · subst hk
        simp [erase, get?_cons, h₀, Ne.symm h₀]
      · simp [erase, get?_cons, h₀, hk, ih hrest]

theorem get?_change (hn : entries.keys.Nodup) :
    (entries.change k value).get? k' = if k == k' then value else entries.get? k' := by
  cases value with
  | none => exact get?_erase hn
  | some v =>
    by_cases hk : k = k'
    · subst hk
      simp [change, get?_put_self]
    · simp [change, get?_put_of_ne hk, hk]

theorem nodup_keys_change (hn : entries.keys.Nodup) : (entries.change k value).keys.Nodup := by
  cases value with
  | none => exact nodup_keys_erase hn
  | some v => exact nodup_keys_put hn

theorem nodup_keys_changeAll (hn : entries.keys.Nodup) :
    (entries.changeAll changes).keys.Nodup := by
  induction changes generalizing entries with
  | nil => exact hn
  | cons c rest ih => exact ih (nodup_keys_change hn)

/-! ### Changes under distinct keys -/

theorem kept_cons_self (hrest : k ∉ changes.keys) (value : Option ν) (v : ν) :
    kept ((k, value) :: changes) (k, v) = value.bind fun v => kept changes (k, v) := by
  cases value <;> simp [kept, get?_cons, get?_eq_none_of_notMem hrest]

theorem kept_cons_of_ne (hne : k ≠ k') (value : Option ν) (changes : Entries κ (Option ν)) (v : ν) :
    kept ((k, value) :: changes) (k', v) = kept changes (k', v) := by
  simp [kept, get?_cons, hne]

theorem filterMap_kept_of_notMem (h : k ∉ entries.keys) (value : Option ν)
    (changes : Entries κ (Option ν)) :
    entries.filterMap (kept ((k, value) :: changes)) = entries.filterMap (kept changes) := by
  refine List.filterMap_congr fun entry he => kept_cons_of_ne ?_ _ _ entry.2
  rintro rfl
  exact h (mem_keys_of_mem he)

/-- Later changes under other keys come to the same as if the first one were among them, but for
what the first one adds. -/
theorem filterMap_kept_change (hn : entries.keys.Nodup) (hrest : k ∉ changes.keys) :
    (entries.change k value).filterMap (kept changes) =
      entries.filterMap (kept ((k, value) :: changes)) ++
        (added entries (k, value)).toList := by
  induction entries with
  | nil => cases value <;> simp [change, erase, added, has, kept, get?_eq_none_of_notMem hrest]
  | cons pair rest ih =>
    obtain ⟨k₀, v₀⟩ := pair
    obtain ⟨hfirst, htail⟩ := List.nodup_cons.1 hn
    by_cases h₀ : k₀ = k
    · subst h₀
      have hself := kept_cons_self hrest value v₀
      have hothers := filterMap_kept_of_notMem hfirst value changes
      cases value <;>
        simp_all [change, erase, put, added, has, get?_cons, List.filterMap_cons]
    · have hskip := kept_cons_of_ne (Ne.symm h₀) value changes v₀
      have hhas : has k ((k₀, v₀) :: rest) = has k rest := by simp [has, get?_cons, h₀]
      have hadded : added ((k₀, v₀) :: rest) (k, value) = added rest (k, value) := by
        simp only [added, hhas]
      have hchange : change ((k₀, v₀) :: rest) k value = (k₀, v₀) :: change rest k value := by
        cases value <;> simp [change, erase, put, h₀]
      rw [hchange, List.filterMap_cons, List.filterMap_cons, hskip, ih htail, hadded]
      cases kept changes (k₀, v₀) <;> rfl

theorem has_change_of_ne (hn : entries.keys.Nodup) (hne : k ≠ k') :
    (entries.change k value).has k' = entries.has k' := by
  simp [has, get?_change hn, hne]

/-- Changes under distinct keys replace values in their places, drop the entries whose keys they
remove, and add what was not there in their own order. -/
theorem changeAll_eq (hn : entries.keys.Nodup) (hc : changes.keys.Nodup) :
    entries.changeAll changes =
      entries.filterMap (kept changes) ++ changes.filterMap (added entries) := by
  induction changes generalizing entries with
  | nil =>
    have hkept : kept ([] : Entries κ (Option ν)) = some := rfl
    simp [hkept]
  | cons c rest ih =>
    obtain ⟨k, value⟩ := c
    obtain ⟨hfirst, hrest⟩ := List.nodup_cons.1 hc
    have hothers : rest.filterMap (added (entries.change k value)) =
        rest.filterMap (added entries) := by
      refine List.filterMap_congr fun c hmem => ?_
      have hkey : c.1 ∈ keys rest := mem_keys_of_mem hmem
      have hne : k ≠ c.1 := fun heq => hfirst (heq ▸ hkey)
      simp [added, has_change_of_ne hn hne]
    rw [changeAll_cons, ih (nodup_keys_change hn) hrest, hothers,
      filterMap_kept_change hn hfirst, List.append_assoc, List.filterMap_cons]
    cases added entries (k, value) <;> rfl

end

/-! ### Changes in a row -/

/-- A row of changes leaves a value under a key. -/
def Leaves (log : Entries κ (Option ν)) (k : κ) : Prop :=
  ∃ v, last? k log = some (some v)

/-- The place in a row of changes at which a key came in to stay: a value is entered there under the
key, which was not there before, and the key is never removed after that. -/
structure EntersAt (log : Entries κ (Option ν)) (k : κ) (i : Nat) : Prop where
  entered : ∃ v, log[i]? = some (k, some v)
  absent : ¬Leaves (log.take i) k
  stays : ∀ j, i < j → log[j]? ≠ some (k, none)

section

variable {k k' : κ} {v : ν} {value : Option ν} {log : Entries κ (Option ν)} {i : Nat}

theorem last?_concat :
    last? k (log ++ [(k', value)]) = if k' == k then some value else last? k log := by
  simp [last?, get?_cons]

theorem leaves_concat_of_ne [LawfulBEq κ] (h : k' ≠ k) :
    Leaves (log ++ [(k', value)]) k ↔ Leaves log k := by
  simp [Leaves, last?_concat, h]

theorem EntersAt.lt_length (h : EntersAt log k i) : i < log.length := by
  obtain ⟨v, hv⟩ := h.entered
  exact (List.getElem?_eq_some_iff.1 hv).1

theorem EntersAt.of_concat {c : κ × Option ν} (h : EntersAt (log ++ [c]) k i)
    (hi : i < log.length) : EntersAt log k i where
  entered := by
    obtain ⟨v, hv⟩ := h.entered
    exact ⟨v, by rwa [List.getElem?_append_left hi] at hv⟩
  absent := by
    have habsent := h.absent
    rwa [List.take_append_of_le_length (Nat.le_of_lt hi)] at habsent
  stays j hij hj := by
    have hlt : j < log.length := (List.getElem?_eq_some_iff.1 hj).1
    exact h.stays j hij (by rwa [List.getElem?_append_left hlt])

theorem EntersAt.concat {c : κ × Option ν} (h : EntersAt log k i) (hc : c ≠ (k, none)) :
    EntersAt (log ++ [c]) k i where
  entered := by
    obtain ⟨v, hv⟩ := h.entered
    exact ⟨v, by rwa [List.getElem?_append_left h.lt_length]⟩
  absent := by
    have habsent := h.absent
    rwa [List.take_append_of_le_length (Nat.le_of_lt h.lt_length)]
  stays j hij hj := by
    rcases Nat.lt_or_ge j log.length with hlt | hge
    · rw [List.getElem?_append_left hlt] at hj
      exact h.stays j hij hj
    · rw [List.getElem?_append_right hge] at hj
      exact hc (List.mem_singleton.1 (List.mem_of_getElem? hj)).symm

theorem entersAt_length (h : ¬Leaves log k) : EntersAt (log ++ [(k, some v)]) k log.length where
  entered := ⟨v, by simp⟩
  absent := by simpa using h
  stays j hij := by
    rw [List.getElem?_eq_none (by simpa using Nat.succ_le_of_lt hij)]
    nofun

theorem EntersAt.lt_of_leaves {c : κ × Option ν} (h : EntersAt (log ++ [c]) k i)
    (hbefore : Leaves log k) : i < log.length := by
  by_contra hi
  refine h.absent ?_
  have hlt := h.lt_length
  have heq : i = log.length := by
    simp only [List.length_append, List.length_singleton] at hlt
    omega
  rwa [heq, List.take_left]

variable [LawfulBEq κ]

theorem EntersAt.leaves (h : EntersAt log k i) : Leaves log k := by
  induction log using List.reverseRecOn generalizing i with
  | nil => exact absurd h.lt_length (by simp)
  | append_singleton log c ih =>
    obtain ⟨k', value⟩ := c
    rcases Nat.lt_or_ge i log.length with hi | hi
    · by_cases hk : k' = k
      · subst hk
        cases value with
        | none => exact absurd (by simp) (h.stays log.length hi)
        | some v => exact ⟨v, by simp [last?_concat]⟩
      · exact (leaves_concat_of_ne hk).2 (ih (h.of_concat hi))
    · obtain ⟨v, hv⟩ := h.entered
      rw [List.getElem?_append_right hi] at hv
      have hmem := List.mem_singleton.1 (List.mem_of_getElem? hv)
      cases hmem
      exact ⟨v, by simp [last?_concat]⟩

theorem nodup_keys_log (log : Entries κ (Option ν)) : (changeAll [] log).keys.Nodup :=
  nodup_keys_changeAll .nil

/-- After changes in a row each key holds what was said of it last. -/
theorem get?_changeAll : (changeAll [] log).get? k = (last? k log).join := by
  induction log using List.reverseRecOn with
  | nil => rfl
  | append_singleton log c ih =>
    obtain ⟨k', value⟩ := c
    rw [changeAll_append, changeAll_cons, changeAll_nil, get?_change (nodup_keys_log log),
      last?_concat, ih]
    split <;> rfl

theorem mem_changeAll_iff : (k, v) ∈ changeAll [] log ↔ last? k log = some (some v) := by
  rw [mem_iff_get? (nodup_keys_log log), get?_changeAll, Option.join_eq_some_iff]

theorem mem_keys_changeAll_iff : k ∈ (changeAll [] log).keys ↔ Leaves log k := by
  rw [← has_iff, has, get?_changeAll, Option.isSome_iff_exists]
  simp only [Option.join_eq_some_iff, Leaves]

/-- A key that is left came in to stay somewhere. -/
theorem exists_entersAt (h : Leaves log k) : ∃ i, EntersAt log k i := by
  induction log using List.reverseRecOn with
  | nil =>
    obtain ⟨v, hv⟩ := h
    cases hv
  | append_singleton log c ih =>
    obtain ⟨k', value⟩ := c
    by_cases hk : k' = k
    · subst hk
      obtain ⟨v, hv⟩ := h
      obtain rfl : value = some v := by simpa [last?_concat] using hv
      by_cases hbefore : Leaves log k'
      · obtain ⟨i, hi⟩ := ih hbefore
        exact ⟨i, hi.concat (by simp)⟩
      · exact ⟨log.length, entersAt_length hbefore⟩
    · obtain ⟨i, hi⟩ := ih ((leaves_concat_of_ne hk).1 h)
      exact ⟨i, hi.concat (by simp [hk])⟩

/-- Keys stand in the order in which they came in to stay. -/
theorem pairwise_entersAt (log : Entries κ (Option ν)) :
    (changeAll [] log).keys.Pairwise fun k l =>
      ∀ i j, EntersAt log k i → EntersAt log l j → i < j := by
  induction log using List.reverseRecOn with
  | nil => exact .nil
  | append_singleton log c ih =>
    obtain ⟨k', value⟩ := c
    -- Among keys that were left before, the last change moves none.
    have hold : (changeAll [] log).keys.Pairwise fun k l =>
        ∀ i j, EntersAt (log ++ [(k', value)]) k i → EntersAt (log ++ [(k', value)]) l j →
          i < j := by
      refine ih.imp_of_mem fun hk hl h i j hi hj => ?_
      have hik := hi.lt_of_leaves (mem_keys_changeAll_iff.1 hk)
      have hjl := hj.lt_of_leaves (mem_keys_changeAll_iff.1 hl)
      exact h i j (hi.of_concat hik) (hj.of_concat hjl)
    rw [changeAll_append, changeAll_cons, changeAll_nil]
    cases value with
    | none => exact hold.sublist (erase_sublist.map Prod.fst)
    | some v =>
      rw [change, keys_put]
      split
      · exact hold
      · rename_i hnew
        refine List.pairwise_append.2 ⟨hold, List.pairwise_singleton _ _, ?_⟩
        intro k hk l hl i j hi hj
        obtain rfl := List.mem_singleton.1 hl
        have hik := hi.lt_of_leaves (mem_keys_changeAll_iff.1 hk)
        -- The new key was not left before, so it comes in with the last change.
        by_contra hji
        have hjl : j < log.length := by omega
        exact hnew (has_iff.2 (mem_keys_changeAll_iff.2 (hj.of_concat hjl).leaves))

end

end DotGraph.Entries
