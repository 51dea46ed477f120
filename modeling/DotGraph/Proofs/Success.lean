import DotGraph.Proofs.Coercion
import DotGraph.Proofs.ImportedGraphs
import DotGraph.Proofs.ImportedStatements
import DotGraph.Proofs.Importing
import DotGraph.Proofs.TableEdits
import DotGraph.Proofs.Ownership
import DotGraph.Proofs.TextCharacters

/-!
Steps that come through.  In a store where the bodies are there, a statement with a good name and
with attributes that its schema takes is appended to any of them; so is a subgraph to a root graph,
with all that its callback appends.
-/

namespace DotGraph

open Relation

variable {ch : Char}

/-! ### Attributes -/

/-- A text without the character, or a value that holds no text. -/
def Datum.Lacks (ch : Char) : Datum → Prop
  | text s => ch ∉ s.toList
  | _ => True

theorem AttrDomain.lacks_of_coerce {d : AttrDomain} {name given : Datum} {value : AttrValue}
    (h : d.coerce name given = .ok value) (hl : given.Lacks ch) : value.Lacks ch := by
  unfold coerce at h
  split at h
  · cases h
    exact hl
  · cases h
    trivial
  · cases h
    trivial
  · cases h
    trivial
  · cases h
  · split at h
    · cases h
      trivial
    · cases h
  · split at h
    · cases h
      trivial
    · cases h
  · cases h

/-- Attributes that a schema takes, none of them with the character in a text. -/
def Schema.Takes (schema : Schema) (ch : Char) (attrs : Entries String Datum) : Prop :=
  schema.Accepts attrs ∧ ∀ entry ∈ attrs, entry.2.Lacks ch

namespace AttrTable

variable {t : AttrTable}

theorem Lacks.put (h : t.Lacks ch) {name : String} {value : AttrValue} (hv : value.Lacks ch) :
    ({ t with entries := t.entries.put name value } : AttrTable).Lacks ch := by
  intro entry he
  rcases Entries.mem_put he with rfl | he
  · exact hv
  · exact h entry he

theorem exists_update_lacks {attrs : Entries String Datum} (ha : t.schema.Takes ch attrs)
    (h : t.Lacks ch) : ∃ t', t.update attrs = .ok t' ∧ t'.Lacks ch := by
  induction attrs generalizing t with
  | nil => exact ⟨t, rfl, h⟩
  | cons entry rest ih =>
    obtain ⟨name, given⟩ := entry
    obtain ⟨haccepts, hlacks⟩ := ha
    obtain ⟨spec, value, hspec, hv⟩ := haccepts (name, given) (by simp)
    have hvalue : value.Lacks ch := AttrDomain.lacks_of_coerce hv (hlacks (name, given) (by simp))
    have hset := set_eq hspec hv
    obtain ⟨t', ht', hl⟩ := ih (t := { t with entries := t.entries.put name value })
      ⟨fun entry he => haccepts entry (by simp [he]), fun entry he => hlacks entry (by simp [he])⟩
      (h.put hvalue)
    exact ⟨t', by rw [update, hset]; exact ht', hl⟩

theorem lacks_empty (schema : Schema) (owner : String) : (empty schema owner).Lacks ch := by
  simp [Lacks, empty]

end AttrTable

namespace Store

variable {σ σ' : Store}

/-! ### Texts in the tables after a change -/

theorem Lacks.setTable (h : σ.Lacks ch) (t : TableId) {u : AttrTable} (hu : u.Lacks ch) :
    (σ.setTable t u).Lacks ch := by
  intro t' u' ht
  rw [table?_setTable] at ht
  obtain ⟨v, hv, rfl⟩ := Option.map_eq_some_iff.1 ht
  split
  · exact hu
  · exact h t' v hv

theorem Lacks.pushTable (h : σ.Lacks ch) {u : AttrTable} (hu : u.Lacks ch) :
    (σ.pushTable u).Lacks ch := by
  intro t' u' ht
  rw [table?_pushTable] at ht
  split at ht
  · cases ht
    exact hu
  · exact h t' u' ht

theorem Lacks.attach (h : σ.Lacks ch) (b : BodyRef) (m : Member) : (σ.attach b m).Lacks ch := by
  intro t u ht
  rw [table?_attach] at ht
  exact h t u ht

theorem lacks_clauseAttrs (clause : Clause) : (Build.clauseAttrs clause).Lacks ch := by
  cases clause <;> exact AttrTable.lacks_empty _ _

theorem Lacks.withNewStatement (h : σ.Lacks ch) (b : BodyRef) (clause : Clause) {u : AttrTable}
    (hu : u.Lacks ch) : (σ.withNewStatement b clause u).Lacks ch := by
  have hmade : (σ.makeStatement clause).Lacks ch := h.pushTable (lacks_clauseAttrs clause)
  exact (hmade.setTable _ hu).attach b _

theorem lacks_empty : empty.Lacks ch := by
  intro t u ht
  simp [table?, empty] at ht

theorem Tabled.of_changes (h : σ.Tabled) (hc : ReflTransGen Change σ σ') : σ'.Tabled := by
  induction hc with
  | refl => exact h
  | tail _ hc ih => exact hc.tabled ih

/-! ### Stores that are being filled -/

/-- A store in which the bodies are there and of the operator, and the subgraphs are there and have
no owner yet.  None of its tables holds a text with the character. -/
structure Ready (operator : EdgeOperator) (ch : Char) (bs : List BodyRef) (ss : List SubgraphId)
    (σ : Store) : Prop where
  tabled : σ.Tabled
  lacks : σ.Lacks ch
  hasOperator : ∀ b ∈ bs, σ.HasOperator b operator
  free : ∀ s ∈ ss, σ.HasOperator (.subgraph s) operator ∧ σ.parent? (.subgraph s) = none

variable {operator : EdgeOperator} {bs : List BodyRef} {ss : List SubgraphId}

theorem ready_empty : empty.Ready operator ch [] [] where
  tabled := tabled_empty
  lacks := lacks_empty
  hasOperator := by simp
  free := by simp

theorem Ready.mono {bs' : List BodyRef} (h : σ.Ready operator ch bs ss) (hb : bs' ⊆ bs) :
    σ.Ready operator ch bs' ss :=
  ⟨h.tabled, h.lacks, fun b hm => h.hasOperator b (hb hm), h.free⟩

/-- Whatever is done to a store, only its texts and its owners are to be looked at again. -/
theorem Ready.of_changes (h : σ.Ready operator ch bs ss) (hc : ReflTransGen Change σ σ')
    (hl : σ'.Lacks ch) (hp : ∀ s ∈ ss, σ'.parent? (.subgraph s) = none) :
    σ'.Ready operator ch bs ss where
  tabled := h.tabled.of_changes hc
  lacks := hl
  hasOperator b hb := (h.hasOperator b hb).of_changes hc
  free s hs := ⟨(h.free s hs).1.of_changes hc, hp s hs⟩

theorem Ready.makeSubgraph (h : σ.Ready operator ch bs ss) {b : BodyRef} (hb : b ∈ bs)
    (nm : Option Identifier) :
    (σ.makeSubgraph nm operator).Ready operator ch
      (.subgraph ⟨σ.subgraphs.size⟩ :: bs) (⟨σ.subgraphs.size⟩ :: ss) := by
  have hchanges : ReflTransGen Change σ (σ.makeSubgraph nm operator) := by
    obtain ⟨body, hbody, ho⟩ := Option.map_eq_some_iff.1 (h.hasOperator b hb)
    refine .head (.table .subgraph) (.single (.subgraph nm (σ.table?_pushTable_new _) ?_))
    exact .inr ⟨b, body, by simpa using hbody, ho⟩
  have hnew : (σ.makeSubgraph nm operator).HasOperator (.subgraph ⟨σ.subgraphs.size⟩)
      operator := by
    simp [HasOperator, Store.makeSubgraph, body?_pushSubgraph, pushTable]
  refine ⟨h.tabled.of_changes hchanges, h.lacks.pushTable (AttrTable.lacks_empty _ _), ?_, ?_⟩
  · intro b hb
    rcases List.mem_cons.1 hb with rfl | hb
    · exact hnew
    · exact (h.hasOperator b hb).of_changes hchanges
  · intro s hs
    rw [Store.makeSubgraph, parent?_pushSubgraph _ rfl, parent?_pushTable]
    rcases List.mem_cons.1 hs with rfl | hs
    · exact ⟨hnew, by simp [parent?, subgraph?]⟩
    · exact ⟨(h.free s hs).1.of_changes hchanges, (h.free s hs).2⟩

theorem parent?_withNewStatement (b : BodyRef) (clause : Clause) (u : AttrTable) (s : SubgraphId) :
    (σ.withNewStatement b clause u).parent? (.subgraph s) = σ.parent? (.subgraph s) := by
  have hholds : (σ.withLooseStatement clause u).Holds (.statement ⟨σ.statements.size⟩) :=
    ⟨clause, clause?_withLooseStatement⟩
  rw [withNewStatement, parent?_attach hholds, if_neg (by simp), withLooseStatement,
    parent?_setTable, makeStatement, parent?_pushStatement _ rfl, parent?_pushTable]

end Store

namespace Build

variable {α β : Type} {P P' : Store → Prop} {Q : α → Store → Prop} {R : β → Store → Prop}

/-- A step that can be called for, and that comes from every store of one kind to an answer and a
store of another kind. -/
structure Succeeds (P : Store → Prop) (x : Build α) (Q : α → Store → Prop) : Prop where
  called : Called x
  yields : ∀ σ, P σ → ∃ a σ', x.Yields σ a σ' ∧ Q a σ'

theorem succeeds_pure {a : α} (h : ∀ σ, P σ → Q a σ) : Succeeds P (pure a) Q where
  called := (still_pure a).called
  yields σ hσ := ⟨a, σ, yields_pure a σ, h σ hσ⟩

theorem Succeeds.bind {x : Build α} {f : α → Build β} (hx : Succeeds P x Q)
    (hf : ∀ a, Succeeds (Q a) (f a) R) : Succeeds P (x >>= f) R where
  called := hx.called.bind fun a => (hf a).called
  yields σ hσ := by
    obtain ⟨a, σ₁, hrun, h₁⟩ := hx.yields σ hσ
    obtain ⟨b, σ', hrest, h'⟩ := (hf a).yields σ₁ h₁
    exact ⟨b, σ', hrun.bind hrest, h'⟩

theorem Succeeds.weaken {x : Build α} {Q' : α → Store → Prop} (hx : Succeeds P x Q)
    (h : ∀ {a} σ, Q a σ → Q' a σ) : Succeeds P x Q' where
  called := hx.called
  yields σ hσ := by
    obtain ⟨a, σ', hrun, hQ⟩ := hx.yields σ hσ
    exact ⟨a, σ', hrun, h σ' hQ⟩

theorem Succeeds.discard {x : Build α} (hx : Succeeds P x fun _ => P') :
    Succeeds P (x >>= fun _ => (pure () : Build Unit)) fun _ => P' :=
  hx.bind fun _ => succeeds_pure fun _ h => h

theorem Succeeds.forM {f : α → Build Unit} {as : List α}
    (hf : ∀ a ∈ as, Succeeds P (f a) fun _ => P) : Succeeds P (as.forM f) fun _ => P := by
  induction as with
  | nil => exact succeeds_pure fun _ h => h
  | cons a rest ih =>
    exact (hf a (by simp)).bind fun _ => ih fun a ha => hf a (by simp [ha])

/-! ### Callbacks as lists of calls -/

theorem yields_runAll (calls : List Call) (σ : Store) :
    (Call.runAll calls).Yields σ () (σ.after calls) := by
  induction calls generalizing σ with
  | nil => exact yields_pure () σ
  | cons call rest ih =>
    rw [Store.after_cons]
    exact Yields.bind (run_attempt call.run σ) (ih _)

/-- What a callback does in a store can be called for one by one, and then it ends alike. -/
theorem exists_calls {x : Build Unit} (hx : Called x) (σ : Store) :
    ∃ calls raised, x.run.run σ =
      (Call.runAll calls >>= fun _ => raise raised : Build Unit).run.run σ := by
  obtain ⟨calls, hcalls⟩ := hx σ
  have hrun (raised : Option BuildError) :
      (Call.runAll calls >>= fun _ => raise raised : Build Unit).run.run σ =
        (raise raised).run.run (x.after σ) := by
    rw [(yields_runAll calls σ).run_eq, hcalls]
  rcases hr : x.run.run σ with ⟨e | u, σ'⟩
  · refine ⟨calls, some e, ?_⟩
    rw [hrun, Build.after, hr]
    rfl
  · refine ⟨calls, none, ?_⟩
    rw [hrun, Build.after, hr]
    rfl

theorem called_insert (b : BodyRef) (what : Insertion) (attrs : Entries String Datum) :
    Called (what.run b attrs) :=
  called_of_ask (.insert b what attrs) .statement rfl

theorem called_subgraph (b : BodyRef) (name : Datum) (appended : Bool)
    {build : SubgraphId → Build Unit} (h : ∀ s, Called (build s)) :
    Called (subgraph b name appended build) := by
  intro σ
  rcases ho : (openSubgraph b name).run.run σ with ⟨e | s, σ₁⟩
  · refine ⟨[.subgraph b name appended [] none], ?_⟩
    rw [Store.after_cons, Store.after_nil, Call.run, after_bind_of_still fun _ _ => rfl,
      subgraph, subgraph, after_bind, after_bind, ho]
  · obtain ⟨calls, raised, hsame⟩ := exists_calls (h s) σ₁
    refine ⟨[.subgraph b name appended calls raised], ?_⟩
    rw [Store.after_cons, Store.after_nil, Call.run, after_bind_of_still fun _ _ => rfl,
      subgraph, subgraph, after_bind, after_bind, ho]
    show (build s >>= _).after σ₁ = ((_ : Build Unit) >>= _).after σ₁
    rw [after_bind, after_bind, hsame]

/-! ### Statements -/

section

variable {operator : EdgeOperator} {bs : List BodyRef} {ss : List SubgraphId} {b : BodyRef}
  {attrs : Entries String Datum}

theorem Succeeds.of_yields {x : Build α} (hx : Called x)
    (h : ∀ σ, σ.Ready operator ch bs ss → ∃ a σ', x.Yields σ a σ' ∧ σ'.Lacks ch ∧
      ∀ s ∈ ss, σ'.parent? (.subgraph s) = none) :
    Succeeds (Store.Ready operator ch bs ss) x fun _ => Store.Ready operator ch bs ss where
  called := hx
  yields σ hσ := by
    obtain ⟨a, σ', hrun, hl, hp⟩ := h σ hσ
    obtain ⟨calls, hcalls⟩ := hx σ
    have hchanges : ReflTransGen Store.Change σ σ' := by
      rw [← hrun.after_eq, hcalls]
      exact Call.changing_runAll calls σ
    exact ⟨a, σ', hrun, hσ.of_changes hchanges hl hp⟩

theorem exists_yields_append {σ : Store} (hσ : σ.Ready operator ch bs ss) (hb : b ∈ bs)
    {clause : Clause} (hs : σ.ClauseSuits operator clause)
    (hback : clause.links = [] ∨ ∃ r, b = .root r)
    (ha : (clauseAttrs clause).schema.Takes ch attrs) :
    ∃ i σ', (append b clause attrs).Yields σ i σ' ∧ σ'.Lacks ch ∧
      ∀ s ∈ ss, σ'.parent? (.subgraph s) = none := by
  obtain ⟨t, ht, hl⟩ := AttrTable.exists_update_lacks ha (Store.lacks_clauseAttrs clause)
  have hrun := Store.yields_append (hσ.hasOperator b hb) clause hs hback ht
  refine ⟨_, _, hrun, hσ.lacks.withNewStatement b clause hl, fun s hm => ?_⟩
  rw [Store.parent?_withNewStatement, (hσ.free s hm).2]

theorem succeeds_node (hb : b ∈ bs) {name : String} (hname : isIdentifier name = true)
    (ha : Schema.node.Takes ch attrs) :
    Succeeds (Store.Ready operator ch bs ss) (node b (.text name) .absent attrs)
      fun _ => Store.Ready operator ch bs ss := by
  refine .of_yields (called_insert b (.node (.text name) .absent) attrs) fun σ hσ => ?_
  let clause : Clause := .node ⟨⟨name, hname⟩, none⟩
  have hs : σ.ClauseSuits operator clause := trivial
  obtain ⟨i, σ', hrun, h⟩ := exists_yields_append hσ hb hs (.inl rfl) ha
  exact ⟨i, σ', (yields_nodeIdOf ⟨name, hname⟩ σ).bind hrun, h⟩

theorem succeeds_defaults (hb : b ∈ bs) (kind : DefaultKind)
    (ha : (Schema.defaults kind).Takes ch attrs) :
    Succeeds (Store.Ready operator ch bs ss) (defaults b kind attrs)
      fun _ => Store.Ready operator ch bs ss := by
  refine .of_yields (called_insert b (.defaults kind) attrs) fun σ hσ => ?_
  have hs : σ.ClauseSuits operator (.defaults kind (.flag true)) := rfl
  exact exists_yields_append hσ hb hs (.inl rfl) ha

/-- What an end of an edge stands for: a text that is an identifier names a node. -/
def endVertex? : Argument → Option Vertex
  | .datum (.text s) => (Identifier.ofText? s).map fun name => .node ⟨name, none⟩
  | .datum (.nodeId id) => some (.node id)
  | .object (.subgraph s) => some (.subgraph s)
  | _ => none

theorem yields_vertexLike_of_endVertex? {given : Argument} {v : Vertex}
    (h : endVertex? given = some v) (σ : Store) :
    (vertexLike given).Yields σ (.ofVertex v) σ := by
  unfold endVertex? at h
  split at h
  · obtain ⟨name, hname, rfl⟩ := Option.map_eq_some_iff.1 h
    obtain rfl := Identifier.text_of_ofText? hname
    exact yields_vertexLike name σ
  · cases h
    exact yields_pure _ σ
  · cases h
    exact yields_pure _ σ
  · cases h

theorem succeeds_edge (hb : b ∈ bs) {tail head : Argument} {v w : Vertex}
    (hv : endVertex? tail = some v) (hw : endVertex? head = some w)
    (hends : ∀ s ∈ v.links ++ w.links, .subgraph s ∈ bs)
    (hback : v.links ++ w.links = [] ∨ ∃ r, b = .root r) (ha : Schema.edge.Takes ch attrs) :
    Succeeds (Store.Ready operator ch bs ss) (edge b tail head attrs)
      fun _ => Store.Ready operator ch bs ss := by
  refine .of_yields (called_insert b (.edge tail head) attrs) fun σ hσ => ?_
  let e : Edge := ⟨σ.edgeCount, v, w, operator⟩
  let σ₁ : Store := { σ with edgeCount := σ.edgeCount + 1 }
  have hsuits : ∀ s ∈ v.links ++ w.links, σ.HasOperator (.subgraph s) operator :=
    fun s hs => hσ.hasOperator _ (hends s hs)
  have h₁ : σ₁.Ready operator ch bs ss := hσ.of_changes (.single .edge) hσ.lacks
    fun s hs => (hσ.free s hs).2
  have hclause : σ₁.ClauseSuits operator (.edge e) := ⟨rfl, hsuits⟩
  obtain ⟨i, σ', hrun, h⟩ := exists_yields_append h₁ hb hclause hback ha
  refine ⟨i, σ', ?_, h⟩
  refine (yields_vertexLike_of_endVertex? hv σ).bind
    ((yields_vertexLike_of_endVertex? hw σ).bind ?_)
  exact (yields_operatorOf (hσ.hasOperator b hb)).bind ((yields_newEdge hsuits).bind hrun)

theorem succeeds_setAttrs (hb : b ∈ bs) (ha : b.schema.Takes ch attrs) :
    Succeeds (Store.Ready operator ch bs ss) (setAttrs (.ofBody b) attrs)
      fun _ => Store.Ready operator ch bs ss := by
  refine .of_yields (called_setAttrs _ attrs) fun σ hσ => ?_
  obtain ⟨body, hbody, -⟩ := Option.map_eq_some_iff.1 (hσ.hasOperator b hb)
  obtain ⟨u, hu, hsound⟩ := hσ.tabled.bodies b body hbody
  have hheld : σ.held? (.ofBody b) = some (body.table, u) :=
    Store.held?_eq_some_iff.2 ⟨by rw [Store.tableId?_ofBody, hbody]; rfl, hu⟩
  obtain ⟨u', hu', hl⟩ := AttrTable.exists_update_lacks (hsound.schema_eq ▸ ha) (hσ.lacks _ _ hu)
  refine ⟨(), _, yields_setAttrs hheld hu', hσ.lacks.setTable _ hl, fun s hs => ?_⟩
  rw [Store.parent?_setTable, (hσ.free s hs).2]

end

/-! ### Bodies -/

section

variable {bs : List BodyRef} {ss : List SubgraphId}

theorem succeeds_newRoot {name : Datum} {nm : Option Identifier} (hname : graphName name = .ok nm)
    (strict directed : Bool) :
    Succeeds (Store.Ready (.ofDirected directed) ch [] [])
      (newRoot name (.flag strict) (.ofDirected directed))
      fun r => Store.Ready (.ofDirected directed) ch [.root r] [] where
  called := called_newRoot name strict directed
  yields σ hσ := by
    have hrun : (newRoot name (.flag strict) (.ofDirected directed)).Yields σ ⟨σ.roots.size⟩ _ :=
      yields_newRoot (.ofDirected directed) hname σ
    refine ⟨_, _, hrun, ?_, ?_, ?_, by simp⟩
    · refine hσ.tabled.of_changes ?_
      rw [← hrun.after_eq]
      exact changing_newRoot name strict directed σ
    · exact hσ.lacks.pushTable (AttrTable.lacks_empty _ _)
    · intro b hb
      obtain rfl := List.mem_singleton.1 hb
      simp [Store.HasOperator, Store.makeRoot, Store.body?_pushRoot, Store.pushTable]

theorem yields_openSubgraph {operator : EdgeOperator} {b : BodyRef} {σ : Store}
    (hb : σ.HasOperator b operator) {name : Datum} {nm : Option Identifier}
    (hname : graphName name = .ok nm) :
    (openSubgraph b name).Yields σ ⟨σ.subgraphs.size⟩
      (σ.makeSubgraph nm operator) :=
  (yields_operatorOf hb).bind (yields_newSubgraph operator hname σ)

theorem exists_yields_closeSubgraph {operator : EdgeOperator} {σ : Store} {r : RootId}
    {s : SubgraphId} (h : σ.Ready operator ch bs (s :: ss)) (hr : .root r ∈ bs) (hs : s ∉ ss)
    (appended : Bool) :
    ∃ σ', (closeSubgraph (.root r) s appended).Yields σ () σ' ∧ σ'.Ready operator ch bs ss := by
  obtain ⟨hsub, hfree⟩ := h.free s (by simp)
  have hrest : σ.Ready operator ch bs ss :=
    ⟨h.tabled, h.lacks, h.hasOperator, fun s' hs' => h.free s' (by simp [hs'])⟩
  obtain ⟨note, hnote, hclose⟩ := closeSubgraph_eq (.root r) s appended
  have hnoted {σ : Store} (hσ : σ.Ready operator ch bs ss) :
      (note σ).Ready operator ch bs ss := by
    obtain ⟨creations, heq⟩ := hnote σ
    rw [heq]
    exact hσ.of_changes (.single (.note creations)) hσ.lacks fun s hs => (hσ.free s hs).2
  rw [hclose]
  cases appended with
  | false => exact ⟨_, yields_modify note σ, hnoted hrest⟩
  | true =>
    have hcheck : σ.checkMember (.root r) (.subgraph s) = .ok () :=
      (Store.checkMember_root_ok_iff r _).2 ⟨hfree, operator, h.hasOperator _ hr, hsub⟩
    have hready : (σ.attach (.root r) (.subgraph s)).Ready operator ch bs ss := by
      refine hrest.of_changes (.single (.attach hcheck)) (hrest.lacks.attach _ _) fun s' hs' => ?_
      have hne : Member.subgraph s ≠ .subgraph s' := by
        rintro he
        cases he
        exact hs hs'
      have hholds : σ.Holds (.subgraph s) := ⟨operator, hsub⟩
      rw [Store.parent?_attach hholds, if_neg hne, (hrest.free s' hs').2]
    exact ⟨_, (yields_attach hcheck).bind (yields_modify note _), hnoted hready⟩

theorem succeeds_subgraph {operator : EdgeOperator} {r : RootId} (hr : .root r ∈ bs)
    {name : Datum} {nm : Option Identifier} (hname : graphName name = .ok nm)
    (appended : Bool) {build : SubgraphId → Build Unit}
    (hbuild : ∀ s, Succeeds (Store.Ready operator ch (.subgraph s :: bs) (s :: ss)) (build s)
      fun _ => Store.Ready operator ch (.subgraph s :: bs) (s :: ss)) :
    Succeeds (Store.Ready operator ch bs ss) (subgraph (.root r) name appended build)
      fun s => Store.Ready operator ch (.subgraph s :: bs) ss where
  called := called_subgraph (.root r) name appended fun s => (hbuild s).called
  yields σ hσ := by
    let s : SubgraphId := ⟨σ.subgraphs.size⟩
    have hopen := yields_openSubgraph (hσ.hasOperator _ hr) hname
    obtain ⟨u, σ₂, hfill, h₂⟩ := (hbuild s).yields _ (hσ.makeSubgraph hr nm)
    have hs : s ∉ ss := by
      intro hm
      obtain ⟨body, hbody, -⟩ := Option.map_eq_some_iff.1 (hσ.free s hm).1
      simp [s, Store.body?, Store.subgraph?] at hbody
    obtain ⟨σ', hclose, h'⟩ :=
      exists_yields_closeSubgraph h₂ (List.mem_cons_of_mem _ hr) hs appended
    refine ⟨s, σ', ?_, h'⟩
    exact hopen.bind (hfill.bind (hclose.bind (yields_pure s σ')))

end

end Build

end DotGraph
