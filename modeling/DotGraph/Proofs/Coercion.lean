import DotGraph.Network.Import
import DotGraph.Network.Export
import DotGraph.Proofs.EntryLists

/-!
Values through a table.  A value that an attribute accepts is stored, and shown as data again it is
what was given, but for words of a vocabulary, which give way to their texts.
-/

namespace DotGraph

namespace Datum

/-- A word of a vocabulary gives way to the text under which it is written. -/
def plain : Datum → Datum
  | token t => text t.value
  | d => d

end Datum

namespace Vocabulary

theorem value_of_token? {v : Vocabulary} {s : String} {t : Token} (h : v.token? s = some t) :
    t.value = s := by
  simpa using List.find?_some h

end Vocabulary

namespace AttrDomain

theorem coerce_absent_ne_ok (d : AttrDomain) (name : Datum) (value : AttrValue) :
    d.coerce name .absent ≠ .ok value := by
  cases d <;> simp [coerce]

theorem plain_of_coerce {d : AttrDomain} {name given : Datum} {value : AttrValue}
    (h : d.coerce name given = .ok value) : value.plain.toDatum = given.plain := by
  unfold coerce at h
  split at h
  · cases h; rfl
  · cases h; rfl
  · cases h; rfl
  · cases h; rfl
  · cases h
  · split at h
    · cases h; rfl
    · cases h
  · split at h
    · rename_i ht
      cases h
      exact congrArg Datum.text (Vocabulary.value_of_token? ht)
    · cases h
  · cases h

end AttrDomain

namespace NetData

/-- The same data under the same keys, in plain values. -/
def plain (data : NetData) : NetData :=
  data.map fun entry => (entry.1, entry.2.plain)

theorem keys_plain (data : NetData) : (plain data).keys = data.keys := by
  simp [plain, Entries.keys]

end NetData

/-- Data that can be set with a schema: every key is declared, and its value is one that the
attribute accepts, which a value that is absent never is. -/
def Schema.Accepts (schema : Schema) (data : NetData) : Prop :=
  ∀ entry ∈ data, ∃ spec value, schema.get? entry.1 = some spec ∧ spec.coerce entry.2 = .ok value

instance (schema : Schema) (data : NetData) : Decidable (schema.Accepts data) :=
  decidable_of_iff
    ((data.all fun entry =>
      match schema.get? entry.1 with
      | some spec => (spec.coerce entry.2).toBool
      | none => false) = true) (by
    rw [List.all_eq_true]
    refine forall₂_congr fun entry _ => ?_
    cases schema.get? entry.1 with
    | none => simp
    | some spec => cases hc : spec.coerce entry.2 <;> simp [hc, Except.toBool])

namespace AttrTable

variable {t : AttrTable} {schema : Schema}

theorem declared_eq {data : NetData} (h : schema.Accepts data) :
    Network.declared schema data = data := by
  refine List.filter_eq_self.2 fun entry he => ?_
  obtain ⟨spec, value, hspec, -⟩ := h entry he
  simp [Entries.has, hspec]

theorem set_eq {name : String} {given : Datum} {spec : AttrSpec} {value : AttrValue}
    (hspec : t.schema.get? name = some spec) (hv : spec.coerce given = .ok value) :
    t.set name given = .ok { t with entries := t.entries.put name value } := by
  unfold set
  rw [hspec]
  cases given with
  | absent => exact absurd hv (AttrDomain.coerce_absent_ne_ok _ _ _)
  | _ => simp only [hv]

theorem exists_set {name : String} {given : Datum} {spec : AttrSpec} {value : AttrValue}
    (hspec : t.schema.get? name = some spec) (hv : spec.coerce given = .ok value)
    (hn : name ∉ t.entries.keys) :
    t.set name given = .ok { t with entries := t.entries ++ [(name, value)] } := by
  rw [set_eq hspec hv, Entries.put_of_get?_eq_none (Entries.get?_eq_none_of_notMem hn)]

theorem exists_update {data : NetData} (h : t.schema.Accepts data)
    (hn : (t.entries.keys ++ data.keys).Nodup) :
    ∃ t', t.update data = .ok t' ∧ t'.netData = t.netData ++ NetData.plain data := by
  induction data generalizing t with
  | nil => exact ⟨t, rfl, by simp [NetData.plain]⟩
  | cons entry rest ih =>
    obtain ⟨name, given⟩ := entry
    obtain ⟨spec, value, hspec, hv⟩ := h (name, given) (by simp)
    have hnot : name ∉ t.entries.keys := by
      intro hm
      exact (List.nodup_append.1 hn).2.2 name hm name (by simp) rfl
    have hset := exists_set hspec hv hnot
    obtain ⟨t', ht', hdata⟩ := ih (t := { t with entries := t.entries ++ [(name, value)] })
      (fun entry he => h entry (by simp [he])) (by simpa using hn)
    refine ⟨t', by rw [update, hset]; exact ht', ?_⟩
    have hplain : value.plain.toDatum = given.plain := AttrDomain.plain_of_coerce hv
    rw [hdata]
    simp [netData, AttrTable.plain, NetData.plain, hplain]

end AttrTable

end DotGraph
