import DotGraph.Proofs.Uniformity
import DotGraph.Proofs.EntryLists

/-!
Attribute tables of a store.  Each has the schema of its place, and holds declared keys only, each
once and with a value of those its attribute takes.
-/

namespace DotGraph

theorem Vocabulary.eq_of_value {v : Vocabulary} {t t' : Token} (h : t ∈ v.tokens)
    (h' : t' ∈ v.tokens) (he : t.value = t'.value) : t = t' := by
  obtain ⟨word, hw, rfl⟩ := List.mem_map.1 h
  obtain ⟨word', hw', rfl⟩ := List.mem_map.1 h'
  rw [List.inj_on_of_nodup_map v.distinct hw hw' he]

namespace AttrDomain

/-- The stored values that an attribute takes. -/
def Takes : AttrDomain → AttrValue → Prop
  | strings, .text _ => True
  | numbers, .integer _ => True
  | numbers, .float _ => True
  | flags, .flag _ => True
  | choices v, .token t => t ∈ v.tokens
  | _, _ => False

theorem mem_tokens_of_token? {v : Vocabulary} {s : String} {t : Token} (h : v.token? s = some t) :
    t ∈ v.tokens :=
  List.mem_of_find?_eq_some h

theorem takes_of_coerce {d : AttrDomain} {name given : Datum} {value : AttrValue}
    (h : d.coerce name given = .ok value) : d.Takes value := by
  unfold coerce at h
  split at h
  · cases h; trivial
  · cases h; trivial
  · cases h; trivial
  · cases h; trivial
  · cases h
  · split at h
    · rename_i ht
      cases h
      exact ht
    · cases h
  · split at h
    · rename_i ht
      cases h
      exact mem_tokens_of_token? ht
    · cases h
  · cases h

end AttrDomain

namespace AttrTable

/-- A table with a given schema that holds only what the schema declares. -/
structure Sound (schema : Schema) (t : AttrTable) : Prop where
  schema_eq : t.schema = schema
  declared : ∀ entry ∈ t.entries, ∃ spec, schema.get? entry.1 = some spec ∧
    spec.domain.Takes entry.2
  distinct : t.entries.keys.Nodup

theorem sound_empty (schema : Schema) (owner : String) : (empty schema owner).Sound schema where
  schema_eq := rfl
  declared := by simp [empty]
  distinct := .nil

variable {schema : Schema} {t t' : AttrTable}

theorem Sound.set {name : String} {given : Datum} (h : t.Sound schema)
    (hs : t.set name given = .ok t') : t'.Sound schema := by
  obtain ⟨rfl, hd, hn⟩ := h
  unfold AttrTable.set at hs
  split at hs
  · cases hs
  · rename_i spec hspec
    split at hs
    · cases hs
      exact ⟨rfl, fun entry he => hd entry (Entries.erase_sublist.subset he),
        Entries.nodup_keys_erase hn⟩
    · split at hs
      · cases hs
      · rename_i value hv
        cases hs
        refine ⟨rfl, fun entry he => ?_, Entries.nodup_keys_put hn⟩
        rcases Entries.mem_put he with rfl | he
        · exact ⟨spec, hspec, AttrDomain.takes_of_coerce hv⟩
        · exact hd entry he

theorem Sound.assign {key given : Datum} (h : t.Sound schema) (ha : t.assign key given = .ok t') :
    t'.Sound schema := by
  unfold AttrTable.assign at ha
  cases hk : name? key with
  | error e =>
    rw [hk] at ha
    cases ha
  | ok name =>
    rw [hk] at ha
    cases name with
    | none => cases ha
    | some name => exact h.set ha

theorem Sound.assignAll {attrs : Entries Datum Datum} (h : t.Sound schema)
    (ha : t.assignAll attrs = .ok t') : t'.Sound schema := by
  induction attrs generalizing t with
  | nil =>
    cases ha
    exact h
  | cons entry rest ih =>
    obtain ⟨key, given⟩ := entry
    simp only [AttrTable.assignAll] at ha
    cases hstep : t.assign key given with
    | error e =>
      rw [hstep] at ha
      cases ha
    | ok t₁ =>
      rw [hstep] at ha
      exact ih (h.assign hstep) ha

theorem Sound.update {attrs : Entries String Datum} (h : t.Sound schema)
    (hu : t.update attrs = .ok t') : t'.Sound schema :=
  h.assignAll (assignAll_underNames t attrs ▸ hu)

end AttrTable

/-- The schemas with which tables are made. -/
inductive Schema.IsStandard : Schema → Prop
  | rootGraph : IsStandard Schema.rootGraph
  | subgraph : IsStandard Schema.subgraph
  | defaults (kind : DefaultKind) : IsStandard (Schema.defaults kind)

/-- A table that holds only what its own schema declares. -/
structure AttrTable.Lawful (u : AttrTable) : Prop where
  standard : Schema.IsStandard u.schema
  sound : u.Sound u.schema

namespace AttrTable

variable {u u' : AttrTable}

theorem lawful_empty {schema : Schema} (h : schema.IsStandard) (owner : String) :
    (empty schema owner).Lawful :=
  ⟨h, sound_empty schema owner⟩

theorem Lawful.assignAll {given : Entries Datum Datum} (h : u.Lawful)
    (ha : u.assignAll given = .ok u') : u'.Lawful := by
  have hs := h.sound.assignAll ha
  exact ⟨hs.schema_eq ▸ h.standard, hs.schema_eq ▸ hs⟩

theorem Lawful.sound_of_eq {schema : Schema} (h : u.Lawful) (hs : u.schema = schema) :
    u.Sound schema :=
  hs ▸ h.sound

theorem Sound.lawful {schema : Schema} (h : u.Sound schema) (hs : schema.IsStandard) :
    u.Lawful := by
  obtain rfl := h.schema_eq
  exact ⟨hs, h⟩

end AttrTable

/-- The schema of a body's table. -/
def BodyRef.schema : BodyRef → Schema
  | root _ => Schema.rootGraph
  | subgraph _ => Schema.subgraph

namespace Store

/-- Every table holds only what it declares.  Bodies and defaults have tables of their own kinds;
another statement may have the table of anything. -/
structure Tabled (σ : Store) : Prop where
  tables : ∀ t u, σ.table? t = some u → u.Lawful
  bodies : ∀ b body, σ.body? b = some body →
    ∃ u, σ.table? body.table = some u ∧ u.Sound b.schema
  statements : ∀ i s, σ.statement? i = some s → ∃ u, σ.table? s.table = some u ∧
    ∀ kind standalone, s.clause = .defaults kind standalone → u.Sound (Schema.defaults kind)

variable {σ σ' : Store}

theorem IsFresh.lawful {u : AttrTable} (h : IsFresh u) : u.Lawful := by
  cases h with
  | root => exact AttrTable.lawful_empty .rootGraph _
  | subgraph => exact AttrTable.lawful_empty .subgraph _
  | statement clause =>
    cases clause with
    | node id => exact AttrTable.lawful_empty (.defaults .node) _
    | edge e => exact AttrTable.lawful_empty (.defaults .edge) _
    | defaults kind standalone => exact AttrTable.lawful_empty (.defaults kind) _
    | noEdge given => exact AttrTable.lawful_empty (.defaults .edge) _

/-! ### Tables after a change -/

@[simp] theorem table?_pushRoot (g : Root) (t : TableId) :
    (σ.pushRoot g).table? t = σ.table? t := rfl

@[simp] theorem table?_pushSubgraph (g : Subgraph) (t : TableId) :
    (σ.pushSubgraph g).table? t = σ.table? t := rfl

@[simp] theorem table?_pushStatement (s : Statement) (t : TableId) :
    (σ.pushStatement s).table? t = σ.table? t := rfl

@[simp] theorem table?_attach (b : BodyRef) (m : Member) (t : TableId) :
    (σ.attach b m).table? t = σ.table? t := by
  cases b <;> cases m <;> rfl

theorem tableId?_ofBody (b : BodyRef) :
    σ.tableId? (.ofBody b) = (σ.body? b).map Body.table := by
  cases b <;> simp [tableId?, Object.ofBody, body?, Function.comp_def]

theorem tableId?_attach (b : BodyRef) (m : Member) (o : Object) :
    (σ.attach b m).tableId? o = σ.tableId? o := by
  have hbody : ∀ c, (σ.attach b m).tableId? (.ofBody c) = σ.tableId? (.ofBody c) := by
    intro c
    rw [tableId?_ofBody, tableId?_ofBody, body?_attach, Option.map_map]
    congr 1
    funext body
    by_cases h : b = c <;> simp [h]
  cases o with
  | root r => exact hbody (.root r)
  | subgraph s => exact hbody (.subgraph s)
  | edge e => rfl
  | statement i =>
    simp only [tableId?, statement?_attach, Option.map_map]
    congr 1
    funext s
    by_cases h : m = .statement i <;> simp [h]

theorem held?_attach (b : BodyRef) (m : Member) (o : Object) :
    (σ.attach b m).held? o = σ.held? o := by
  simp [held?, tableId?_attach]

/-- A table that is there stays there, and gets accepted entries if it changes. -/
theorem Change.exists_table? (h : Change σ σ') {t : TableId} {u : AttrTable}
    (ht : σ.table? t = some u) :
    ∃ given u', u.assignAll given = .ok u' ∧ σ'.table? t = some u' := by
  have kept : σ'.table? t = some u → ∃ given u', u.assignAll given = .ok u' ∧
      σ'.table? t = some u' := fun ht' => ⟨[], u, rfl, ht'⟩
  cases h with
  | table fresh =>
    refine kept ?_
    rw [table?_pushTable, if_neg (ne_size_of_table? ht), ht]
  | root name strict directed found => exact kept ht
  | subgraph name found chosen => exact kept ht
  | statement clause found own => exact kept ht
  | edge => exact kept ht
  | @attrs t₀ v v' given found entered =>
    by_cases he : t₀ = t
    · subst he
      obtain rfl : v = u := Option.some.inj (found.symm.trans ht)
      exact ⟨given, v', entered, by simp [table?_setTable, ht]⟩
    · refine kept ?_
      simp [table?_setTable, ht, he]
  | attach allowed =>
    refine kept ?_
    rwa [table?_attach]
  | note creations => exact kept ht

theorem Change.exists_sound (h : Change σ σ') {t : TableId} {schema : Schema}
    (ht : ∃ u, σ.table? t = some u ∧ u.Sound schema) :
    ∃ u, σ'.table? t = some u ∧ u.Sound schema := by
  obtain ⟨u, hu, hs⟩ := ht
  obtain ⟨given, u', ha, hu'⟩ := h.exists_table? hu
  exact ⟨u', hu', hs.assignAll ha⟩

theorem Change.lawful_table (h : Change σ σ') (ht : ∀ t u, σ.table? t = some u → u.Lawful)
    (t : TableId) (u : AttrTable) (hu : σ'.table? t = some u) : u.Lawful := by
  cases h with
  | table fresh =>
    rw [table?_pushTable] at hu
    split at hu
    · cases hu
      exact fresh.lawful
    · exact ht t u hu
  | root name strict directed found => exact ht t u hu
  | subgraph name found chosen => exact ht t u hu
  | statement clause found own => exact ht t u hu
  | edge => exact ht t u hu
  | attrs found entered =>
    rw [table?_setTable] at hu
    obtain ⟨v, hv, rfl⟩ := Option.map_eq_some_iff.1 hu
    split
    · exact (ht _ _ found).assignAll entered
    · exact ht t v hv
  | attach allowed => exact ht t u (by rwa [table?_attach] at hu)
  | note creations => exact ht t u hu

theorem Change.tableId?_eq (h : Change σ σ') {o : Object} {t : TableId}
    (ho : σ.tableId? o = some t) : σ'.tableId? o = some t := by
  cases h with
  | table fresh => cases o <;> exact ho
  | root name strict directed found =>
    cases o with
    | root r =>
      obtain ⟨g, hg, rfl⟩ := Option.map_eq_some_iff.1 ho
      have hne : r.index ≠ σ.roots.size := Nat.ne_of_lt (Array.getElem?_eq_some_iff.1 hg).1
      simp [tableId?, root?_pushRoot, hne, hg]
    | _ => exact ho
  | subgraph name found chosen =>
    cases o with
    | subgraph s =>
      obtain ⟨g, hg, rfl⟩ := Option.map_eq_some_iff.1 ho
      have hne : s.index ≠ σ.subgraphs.size := Nat.ne_of_lt (Array.getElem?_eq_some_iff.1 hg).1
      simp [tableId?, subgraph?_pushSubgraph, hne, hg]
    | _ => exact ho
  | statement clause found own =>
    cases o with
    | statement i =>
      obtain ⟨s, hs, rfl⟩ := Option.map_eq_some_iff.1 ho
      have hne : i.index ≠ σ.statements.size := Nat.ne_of_lt (Array.getElem?_eq_some_iff.1 hs).1
      simp [tableId?, statement?_pushStatement, hne, hs]
    | _ => exact ho
  | edge => cases o <;> exact ho
  | attrs found entered => rwa [tableId?_setTable]
  | attach allowed => rwa [tableId?_attach]
  | note creations => cases o <;> exact ho

theorem tableId?_of_changes (h : Relation.ReflTransGen Change σ σ') {o : Object} {t : TableId}
    (ho : σ.tableId? o = some t) : σ'.tableId? o = some t := by
  induction h with
  | refl => exact ho
  | tail _ hc ih => exact hc.tableId?_eq ih

/-- A body that is there after a change was there with the same table, or starts with its table. -/
theorem Change.body_table (h : Change σ σ') {b : BodyRef} {body : Body}
    (hb : σ'.body? b = some body) :
    (∃ body₀, σ.body? b = some body₀ ∧ body.table = body₀.table) ∨
      ∃ u, σ.table? body.table = some u ∧ u.Sound b.schema := by
  have kept : σ.body? b = some body → ∃ body₀, σ.body? b = some body₀ ∧
      body.table = body₀.table := fun hb => ⟨body, hb, rfl⟩
  cases h with
  | table fresh => exact .inl (kept (by simpa using hb))
  | root name strict directed found =>
    rw [body?_pushRoot] at hb
    split at hb
    · rename_i he
      subst he
      cases hb
      exact .inr ⟨_, found, AttrTable.sound_empty _ _⟩
    · exact .inl (kept hb)
  | subgraph name found chosen =>
    rw [body?_pushSubgraph] at hb
    split at hb
    · rename_i he
      subst he
      cases hb
      exact .inr ⟨_, found, AttrTable.sound_empty _ _⟩
    · exact .inl (kept hb)
  | statement clause found own => exact .inl (kept (by simpa using hb))
  | edge => exact .inl (kept hb)
  | attrs found entered => exact .inl (kept (by simpa using hb))
  | attach allowed =>
    rw [body?_attach] at hb
    obtain ⟨body₀, hb₀, rfl⟩ := Option.map_eq_some_iff.1 hb
    refine .inl ⟨body₀, hb₀, ?_⟩
    split <;> rfl
  | note creations => exact .inl (kept hb)

theorem Change.statement_table (h : Change σ σ') {i : StatementId} {s : Statement}
    (hs : σ'.statement? i = some s) :
    (∃ s₀, σ.statement? i = some s₀ ∧ s.clause = s₀.clause ∧ s.table = s₀.table) ∨
      ∃ u, σ.table? s.table = some u ∧ ∀ kind standalone, s.clause = .defaults kind standalone →
        u = .ofDefaults kind := by
  have kept : σ.statement? i = some s → ∃ s₀, σ.statement? i = some s₀ ∧
      s.clause = s₀.clause ∧ s.table = s₀.table := fun hs => ⟨s, hs, rfl, rfl⟩
  cases h with
  | table fresh => exact .inl (kept hs)
  | root name strict directed found => exact .inl (kept hs)
  | subgraph name found chosen => exact .inl (kept hs)
  | statement clause found own =>
    rw [statement?_pushStatement] at hs
    split at hs
    · cases hs
      exact .inr ⟨_, found, own⟩
    · exact .inl (kept hs)
  | edge => exact .inl (kept hs)
  | attrs found entered => exact .inl (kept hs)
  | attach allowed =>
    rw [statement?_attach] at hs
    obtain ⟨s₀, hs₀, rfl⟩ := Option.map_eq_some_iff.1 hs
    refine .inl ⟨s₀, hs₀, ?_⟩
    split <;> exact ⟨rfl, rfl⟩
  | note creations => exact .inl (kept hs)

theorem Change.tabled (h : Change σ σ') (ht : σ.Tabled) : σ'.Tabled where
  tables := h.lawful_table ht.tables
  bodies b body hb := by
    refine h.exists_sound ?_
    rcases h.body_table hb with ⟨body₀, hb₀, he⟩ | hfound
    · exact he ▸ ht.bodies b body₀ hb₀
    · exact hfound
  statements i s hs := by
    rcases h.statement_table hs with ⟨s₀, hs₀, hclause, he⟩ | ⟨u, hu, hown⟩
    · obtain ⟨u, hu, hsound⟩ := ht.statements i s₀ hs₀
      obtain ⟨given, u', ha, hu'⟩ := h.exists_table? hu
      exact ⟨u', he ▸ hu', fun kind standalone hc =>
        (hsound kind standalone (hclause ▸ hc)).assignAll ha⟩
    · obtain ⟨given, u', ha, hu'⟩ := h.exists_table? hu
      refine ⟨u', hu', fun kind standalone hc => ?_⟩
      obtain rfl := hown kind standalone hc
      exact (AttrTable.sound_empty _ _).assignAll ha

theorem tabled_empty : empty.Tabled where
  tables t u hu := by simp [table?, empty] at hu
  bodies b body hb := by simp [body?_empty] at hb
  statements i s hs := by simp [statement?, empty] at hs

theorem Reachable.tabled (h : σ.Reachable) : σ.Tabled :=
  h.induction tabled_empty fun ht hc => hc.tabled ht

/-! ### What bodies and statements say -/

theorem Tabled.sound_body (h : σ.Tabled) {b : BodyRef} {body : Body} (hb : σ.body? b = some body) :
    (σ.attrsAt body.table).Sound b.schema := by
  obtain ⟨u, hu, hs⟩ := h.bodies b body hb
  rwa [attrsAt_eq hu]

theorem Tabled.lawful_statement (h : σ.Tabled) {i : StatementId} {s : Statement}
    (hs : σ.statement? i = some s) : (σ.attrsAt s.table).Lawful := by
  obtain ⟨u, hu, -⟩ := h.statements i s hs
  rw [attrsAt_eq hu]
  exact h.tables _ u hu

theorem Tabled.sound_defaults (h : σ.Tabled) {i : StatementId} {s : Statement}
    (hs : σ.statement? i = some s) {kind : DefaultKind} {standalone : Datum}
    (hc : s.clause = .defaults kind standalone) :
    (σ.attrsAt s.table).Sound (Schema.defaults kind) := by
  obtain ⟨u, hu, hsound⟩ := h.statements i s hs
  rw [attrsAt_eq hu]
  exact hsound kind standalone hc

end Store

end DotGraph
