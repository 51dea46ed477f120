import DotGraph.Attribute.Layout
import DotGraph.Proofs.ShownData
import DotGraph.Proofs.TableEquality

/-!
Stable values.  What an attribute has made of a value it accepts again as it is, and in its plain
form too: the attribute tells whether a text stands for a word.  So a table can be made anew from
its items, as they are stored or as they are exported.
-/

namespace DotGraph

namespace Entries

variable {κ ν : Type} [BEq κ] {entries : Entries κ ν}

theorem Apart.ofList_eq (ha : entries.Apart) : ofList entries = entries :=
  ha.merge_eq_append (by simp)

theorem changeAll_some (entries more : Entries κ ν) :
    entries.changeAll (more.map fun entry => (entry.1, some entry.2)) = entries.merge more :=
  List.foldl_map

end Entries

namespace AttrTable

variable {t : AttrTable}

/-- The items of a table, each value in the given form. -/
def itemsIn (form : AttrValue → Datum) (t : AttrTable) : Entries String Datum :=
  t.entries.map fun entry => (entry.1, form entry.2)

theorem keys_itemsIn (form : AttrValue → Datum) (t : AttrTable) :
    (t.itemsIn form).keys = t.entries.keys := by
  simp [itemsIn, Entries.keys, Function.comp_def]

/-- The items of a table as they are stored. -/
def items (t : AttrTable) : Entries String Datum :=
  t.itemsIn AttrValue.toDatum

theorem netData_eq (t : AttrTable) : t.netData = t.itemsIn fun value => value.plain.toDatum := by
  simp [netData, plain, itemsIn]

/-- The tables that there are: what calls make of fresh ones, and those of bodies and statements. -/
inductive Arises : AttrTable → Prop
  | calls (r : TableRun) : Arises r.table
  | store {σ : Store} {o : Object} {t : AttrTable} (reachable : σ.Reachable)
    (found : σ.attrs? o = some t) : Arises t

theorem sound_table (r : TableRun) : r.table.Sound r.schema where
  schema_eq := congrArg schema (after_eq r.fresh r.calls)
  declared := by
    rintro ⟨name, value⟩ hmem
    rw [TableRun.entries_table, Entries.mem_changeAll_iff] at hmem
    exact takes_of_mem_log (List.mem_reverse.1 (Entries.mem_of_get? hmem))
  distinct := r.nodup_keys_table

theorem Arises.sound (h : t.Arises) : t.Sound t.schema := by
  cases h with
  | calls r =>
    have hsound := sound_table r
    exact hsound.schema_eq ▸ hsound
  | store reachable found =>
    obtain ⟨⟨i, _⟩, hheld, rfl⟩ := Option.map_eq_some_iff.1 found
    obtain ⟨-, htable⟩ := Store.held?_eq_some_iff.1 hheld
    exact (reachable.tabled.tables i _ htable).sound

/-! ### A table from its items -/

theorem laidOut_congr {u : AttrTable} (h : u.entries = t.entries) (level separator unit : Datum) :
    u.laidOut level separator unit = t.laidOut level separator unit := by
  obtain ⟨_, _, entries⟩ := u
  obtain ⟨_, _, _⟩ := t
  obtain rfl : entries = _ := h
  rfl

/-- A table is restored by items if updating a fresh table of its schema makes the same entries in
the same order, and so the same text in every layout, whether the items are given as a mapping or
under names. -/
def RestoredBy (t : AttrTable) (items : Entries String Datum) : Prop :=
  ∀ owner, ∃ u,
    (TableCall.update (some (underNames items)) []).perform.run.run (empty t.schema owner) =
      (.ok (), u) ∧
    (TableCall.update none items).perform.run.run (empty t.schema owner) = (.ok (), u) ∧
    u.entries = t.entries ∧
    ∀ level separator unit, u.laidOut level separator unit = t.laidOut level separator unit

variable {items : Entries String Datum}

theorem apart_underNames (hn : items.keys.Nodup) : (underNames items).Apart := by
  rw [Entries.Apart, keys_underNames, List.pairwise_map]
  refine hn.imp fun {name name'} hne => ?_
  rw [Datum.text_same, beq_eq_false_iff_ne]
  exact hne

theorem merged_underNames (hn : items.keys.Nodup) :
    merged (some (underNames items)) [] = underNames items ∧
      merged none items = underNames items :=
  have hlist := (apart_underNames hn).ofList_eq
  ⟨hlist, hlist⟩

/-- Items restore a table if every attribute makes of its item the value that the table holds. -/
theorem Sound.restoredBy (h : t.Sound t.schema) {form : AttrValue → Datum}
    (hform : ∀ (d : AttrDomain) name value, d.Takes value →
      d.coerce name (form value) = .ok value) : t.RestoredBy (t.itemsIn form) := by
  intro owner
  obtain ⟨hmapping, hnamed⟩ := merged_underNames ((t.keys_itemsIn form).symm ▸ h.distinct)
  have hchanges : (underNames (t.itemsIn form)).map (empty t.schema owner).schema.change? =
      (t.entries.map fun entry => (entry.1, some entry.2)).map some := by
    simp only [underNames, itemsIn, List.map_map]
    refine List.map_congr_left fun entry hentry => ?_
    obtain ⟨spec, hspec, htakes⟩ := h.declared entry hentry
    exact Schema.change?_eq_some_iff.2 ⟨rfl, spec, hspec, hform _ _ _ htakes⟩
  have hassign := assignAll_of_changes hchanges
  have hentries : ((empty t.schema owner).changed
      (t.entries.map fun entry => (entry.1, some entry.2))).entries = t.entries :=
    (Entries.changeAll_some [] t.entries).trans (Entries.ofList_eq h.distinct)
  refine ⟨_, ?_, ?_, hentries, laidOut_congr hentries⟩
  · refine (TableCall.update (some _) []).enters_perform.run_of_ok ?_
    rw [TableCall.entries, hmapping, hassign]
  · refine (TableCall.update none _).enters_perform.run_of_ok ?_
    rw [TableCall.entries, hnamed, hassign]

/-- What an attribute of any kind has made of a value, whatever it was given for it, it accepts
again, as it is and in its plain form, and makes the same of it.  So every table is restored by its
items, and by its items in plain form. -/
theorem coerced_values_are_stable :
    (∀ (d : AttrDomain) (name given : Datum) (value : AttrValue), d.coerce name given = .ok value →
      d.coerce name value.toDatum = .ok value ∧ d.coerce name value.plain.toDatum = .ok value) ∧
      ∀ t : AttrTable, t.Arises → t.RestoredBy t.items ∧ t.RestoredBy t.netData := by
  refine ⟨fun d name given value h => ?_, fun t h => ⟨?_, ?_⟩⟩
  · have htakes := AttrDomain.takes_of_coerce h
    exact ⟨AttrDomain.coerce_toDatum htakes name, AttrDomain.coerce_plain htakes name⟩
  · exact h.sound.restoredBy fun d name value htakes => AttrDomain.coerce_toDatum htakes name
  · rw [netData_eq]
    exact h.sound.restoredBy fun d name value htakes => AttrDomain.coerce_plain htakes name

/-- An edge's table.  A style is set by its text, dropped and set again behind a text that reads
like one; a weight that is no number is refused. -/
def redrawnEdge : TableRun :=
  ⟨Schema.edge, "edge",
    [.update (some [(.text "style", .text "dashed"), (.text "weight", .integer 2)]) [],
      .set (.text "label") (.text "dotted"), .unset (.text "style"),
      .set (.text "weight") (.text "two"), .set (.text "style") (.text "dotted")]⟩

/-- The plain items no longer tell the style from the label, but the table is made again. -/
theorem coerced_values_are_stable_redrawnEdge :
    redrawnEdge.table.netData =
        [("weight", .integer 2), ("label", .text "dotted"), ("style", .text "dotted")] ∧
      ∃ u, (TableCall.update none redrawnEdge.table.netData).perform.run.run
          (empty redrawnEdge.table.schema "copy") = (.ok (), u) ∧
        u.entries = [("weight", .integer 2), ("label", .text "dotted"),
          ("style", .token ⟨"EdgeStyle", "DOTTED", "dotted"⟩)] := by
  have hentries : redrawnEdge.table.entries = [("weight", .integer 2), ("label", .text "dotted"),
      ("style", .token ⟨"EdgeStyle", "DOTTED", "dotted"⟩)] := by
    decide +kernel
  obtain ⟨u, -, hnamed, hu, -⟩ :=
    (coerced_values_are_stable.2 redrawnEdge.table (.calls redrawnEdge)).2 "copy"
  refine ⟨?_, u, hnamed, hu.trans hentries⟩
  rw [netData_eq, itemsIn, hentries]
  rfl

end AttrTable

end DotGraph
