import DotGraph.Proofs.EntryLists

/-!
Insertion-ordered maps put over one another.  Under keys that are equal to themselves alone, what is
entered last under a key is what the map holds, and new keys go behind the others, each once.
-/

namespace DotGraph.Entries

variable {κ ν : Type} [BEq κ] {k k' : κ} {v : ν} {entries more : Entries κ ν}

/-- A key that is equal to itself alone. -/
def IsExact (k : κ) : Prop :=
  ∀ k', ((k == k') = true ↔ k = k') ∧ ((k' == k) = true ↔ k' = k)

theorem IsExact.beq_self (h : IsExact k) : (k == k) = true :=
  (h k).1.2 rfl

theorem IsExact.beq_comm (h : IsExact k) (k' : κ) : (k == k') = (k' == k) := by
  rw [Bool.eq_iff_iff, (h k').1, (h k').2]
  exact eq_comm

/-- What a row of pairs says last under a key. -/
def last? (k : κ) (pairs : Entries κ ν) : Option ν :=
  get? k pairs.reverse

/-- The pairs of a row, each key once: it stands where it came first, with what came for it last. -/
def settled (pairs : Entries κ ν) : Entries κ ν :=
  pairs.keys.eraseDups.filterMap fun k => (pairs.last? k).map fun v => (k, v)

theorem get?_append (k : κ) (entries more : Entries κ ν) :
    get? k (entries ++ more) = (entries.get? k).or (more.get? k) := by
  induction entries with
  | nil => simp
  | cons pair rest ih =>
    obtain ⟨k', v'⟩ := pair
    by_cases hk : (k' == k) = true <;> simp [get?_cons, hk, ih]

theorem last?_cons (k : κ) (pair : κ × ν) (pairs : Entries κ ν) :
    last? k (pair :: pairs) = (pairs.last? k).or (get? k [pair]) := by
  rw [last?, List.reverse_cons, get?_append]
  rfl

theorem get?_put (h : IsExact k) :
    (entries.put k v).get? k' = if k == k' then some v else entries.get? k' :=
  get?_put_of_congr (fun k₀ _ h₀ => by rw [(h k₀).2.1 h₀]) (fun _ k' hk => by rw [(h k').1.1 hk])

theorem has_put (h : IsExact k) : (entries.put k v).has k' = (k == k' || entries.has k') := by
  rw [has, get?_put h]
  by_cases hk : (k == k') = true <;> simp [hk, has]

/-- A map put over another holds what is said last under a key, or else what the other holds. -/
theorem get?_merge (h : ∀ k ∈ more.keys, IsExact k) (k : κ) :
    (entries.merge more).get? k = (more.last? k).or (entries.get? k) := by
  induction more generalizing entries with
  | nil => rfl
  | cons pair rest ih =>
    obtain ⟨hfirst, hrest⟩ := List.forall_mem_cons.1 h
    rw [merge_cons, ih hrest, get?_put hfirst, last?_cons, Option.or_assoc, get?_cons]
    split <;> rfl

/-- The keys of a map stay in their places, and those that are put over it go behind them. -/
theorem keys_merge (h : ∀ k ∈ more.keys, IsExact k) :
    (entries.merge more).keys =
      entries.keys ++ (more.keys.filter fun k => !entries.has k).eraseDups := by
  induction more generalizing entries with
  | nil => simp
  | cons pair rest ih =>
    obtain ⟨hfirst, hrest⟩ := List.forall_mem_cons.1 h
    rw [merge_cons, ih hrest, keys_put, keys_cons, List.filter_cons]
    have hfilter : (keys rest).filter (fun k => !(entries.put pair.1 pair.2).has k) =
        ((keys rest).filter fun k => !entries.has k).filter fun k => !k == pair.1 := by
      rw [List.filter_filter]
      refine List.filter_congr fun k _ => ?_
      rw [has_put hfirst, hfirst.beq_comm, Bool.not_or]
    by_cases hnew : entries.has pair.1 = true
    · have hsame : (keys rest).filter (fun k => !(entries.put pair.1 pair.2).has k) =
          (keys rest).filter fun k => !entries.has k := by
        refine List.filter_congr fun k _ => ?_
        rw [has_eq_any, keys_put, if_pos hnew, ← has_eq_any]
      simp [hnew, hsame]
    · rw [hfilter]
      simp [hnew, List.eraseDups_cons]

theorem filterMap_get?_keys (ha : entries.Apart) (h : ∀ k ∈ entries.keys, IsExact k) :
    entries.keys.filterMap (fun k => (entries.get? k).map fun v => (k, v)) = entries := by
  induction entries with
  | nil => rfl
  | cons pair rest ih =>
    obtain ⟨k, v⟩ := pair
    obtain ⟨hfirst, hrest⟩ := List.pairwise_cons.1 ha
    obtain ⟨hk, hkeys⟩ := List.forall_mem_cons.1 h
    have hlater : (keys rest).filterMap (fun k' =>
        (get? k' ((k, v) :: rest)).map fun v' => (k', v')) = rest := by
      refine Eq.trans (List.filterMap_congr fun k' hk' => ?_) (ih hrest hkeys)
      rw [get?_cons, hfirst k' hk']
      rfl
    rw [keys_cons, List.filterMap_cons, get?_cons, if_pos hk.beq_self, hlater]
    rfl

theorem mem_keys_of_mem_merge (h : k ∈ (entries.merge more).keys) :
    k ∈ entries.keys ∨ k ∈ more.keys := by
  induction more generalizing entries with
  | nil => exact .inl h
  | cons pair rest ih =>
    rcases ih h with h | h
    · rw [keys_put] at h
      split at h
      · exact .inl h
      · rcases List.mem_append.1 h with h | h
        · exact .inl h
        · exact .inr (by simp [List.mem_singleton.1 h])
    · exact .inr (List.mem_cons_of_mem _ h)

theorem mem_keys_put_of_mem (h : k' ∈ entries.keys) : k' ∈ (entries.put k v).keys := by
  rw [keys_put]
  split
  · exact h
  · exact List.mem_append_left _ h

theorem mem_keys_merge_of_mem (h : k ∈ entries.keys) : k ∈ (entries.merge more).keys := by
  induction more generalizing entries with
  | nil => exact h
  | cons pair rest ih => exact ih (mem_keys_put_of_mem h)

theorem exists_mem_keys_merge (h : k ∈ more.keys) :
    ∃ k' ∈ (entries.merge more).keys, k' = k ∨ (k' == k) = true := by
  induction more generalizing entries with
  | nil => cases h
  | cons pair rest ih =>
    rw [merge_cons]
    rcases List.mem_cons.1 h with rfl | h
    · by_cases hthere : entries.has pair.1 = true
      · rw [has_eq_any] at hthere
        obtain ⟨k', hk', hequal⟩ := List.any_eq_true.1 hthere
        exact ⟨k', mem_keys_merge_of_mem (mem_keys_put_of_mem hk'), .inr hequal⟩
      · have hput : pair.1 ∈ (entries.put pair.1 pair.2).keys := by
          simp [keys_put, hthere]
        exact ⟨pair.1, mem_keys_merge_of_mem hput, .inl rfl⟩
    · exact ih h

/-- Pairs entered one after the other come to the pairs settled. -/
theorem ofList_eq_settled {pairs : List (κ × ν)} (h : ∀ k ∈ keys pairs, IsExact k) :
    ofList pairs = settled pairs := by
  have hkeys : (ofList pairs).keys = (keys pairs).eraseDups := by
    rw [ofList, keys_merge h]
    simp [has]
  have hget : ∀ k, (ofList pairs).get? k = last? k pairs := by
    intro k
    rw [ofList, get?_merge h]
    simp
  have hexact : ∀ k ∈ (ofList pairs).keys, IsExact k := fun k hk =>
    h k ((mem_keys_of_mem_merge hk).resolve_left (by simp))
  have hapart : (ofList pairs).Apart := Apart.merge .nil
  calc ofList pairs
      = (ofList pairs).keys.filterMap fun k => ((ofList pairs).get? k).map fun v => (k, v) :=
        (filterMap_get?_keys hapart hexact).symm
    _ = settled pairs := by simp only [hkeys, hget, settled]

end DotGraph.Entries
