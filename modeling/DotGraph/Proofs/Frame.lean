import DotGraph.Json.Equality
import DotGraph.Proofs.OperatorAgreement
import DotGraph.Proofs.Parts
import DotGraph.Proofs.Refusal

/-!
What an operation leaves alone.  It writes its target, what it makes itself, and who owns a
statement; where the target is a table, it is that of everything that holds it.  A root graph that
does not come by the target is therefore exported as before.
-/

namespace DotGraph

namespace Store

/-! ### One body, one table -/

/-- All that is there stays as it was, except for who owns it, but for the statement list of one
body and the entries of one table. -/
structure SameBut (body : Option BodyRef) (table : Option TableId) (σ σ' : Store) : Prop where
  roots : ∀ r g, body ≠ some (.root r) → σ.root? r = some g → σ'.root? r = some g
  subgraphs : ∀ s g, body ≠ some (.subgraph s) → σ.subgraph? s = some g →
    ∃ owner, σ'.subgraph? s = some { g with parent := owner }
  statements : ∀ i s, σ.statement? i = some s →
    ∃ owner, σ'.statement? i = some { s with parent := owner }
  tables : ∀ t u, table ≠ some t → σ.table? t = some u → σ'.table? t = some u
  size : σ.subgraphs.size ≤ σ'.subgraphs.size

variable {σ σ' : Store} {target : Option BodyRef} {table : Option TableId}

theorem SameBut.body?_eq (h : SameBut target table σ σ') {b : BodyRef} {body : Body}
    (ht : target ≠ some b) (hb : σ.body? b = some body) : σ'.body? b = some body := by
  obtain r | s := b
  · obtain ⟨g, hg, rfl⟩ := Option.map_eq_some_iff.1 hb
    simp [Store.body?, h.roots r g ht hg]
  · obtain ⟨g, hg, rfl⟩ := Option.map_eq_some_iff.1 hb
    obtain ⟨owner, hs⟩ := h.subgraphs s g ht hg
    simp [Store.body?, hs]

theorem SameBut.attrsAt_eq (h : SameBut target table σ σ') {t : TableId} {u : AttrTable}
    (ht : table ≠ some t) (hu : σ.table? t = some u) : σ'.attrsAt t = σ.attrsAt t := by
  rw [Store.attrsAt_eq (h.tables t u ht hu), Store.attrsAt_eq hu]

theorem sameBut_refl (target : Option BodyRef) (table : Option TableId) (σ : Store) :
    SameBut target table σ σ where
  roots _ _ _ h := h
  subgraphs _ g _ h := ⟨g.parent, h⟩
  statements _ s h := ⟨s.parent, h⟩
  tables _ _ _ h := h
  size := Nat.le_refl _

theorem SameBut.trans {σ'' : Store} (h : SameBut target table σ σ')
    (h' : SameBut target table σ' σ'') : SameBut target table σ σ'' where
  roots r g ht hg := h'.roots r g ht (h.roots r g ht hg)
  subgraphs s g ht hg := by
    obtain ⟨owner, hs⟩ := h.subgraphs s g ht hg
    obtain ⟨owner', hs'⟩ := h'.subgraphs s _ ht hs
    exact ⟨owner', hs'⟩
  statements i s hs := by
    obtain ⟨owner, hi⟩ := h.statements i s hs
    obtain ⟨owner', hi'⟩ := h'.statements i _ hi
    exact ⟨owner', hi'⟩
  tables t u ht hu := h'.tables t u ht (h.tables t u ht hu)
  size := Nat.le_trans h.size h'.size

theorem sameBut_pushTable (target : Option BodyRef) (σ : Store) (u : AttrTable) :
    SameBut target table σ (σ.pushTable u) where
  roots _ _ _ h := h
  subgraphs _ g _ h := ⟨g.parent, h⟩
  statements _ s h := ⟨s.parent, h⟩
  tables t v _ ht := by rw [table?_pushTable, if_neg (ne_size_of_table? ht), ht]
  size := Nat.le_refl _

theorem sameBut_pushRoot (target : Option BodyRef) (σ : Store) (g : Root) :
    SameBut target table σ (σ.pushRoot g) where
  roots r g' _ hr := by
    have hne : r.index ≠ σ.roots.size := by
      intro he
      simp [root?, he] at hr
    rw [root?_pushRoot, if_neg hne, hr]
  subgraphs _ g' _ h := ⟨g'.parent, h⟩
  statements _ s h := ⟨s.parent, h⟩
  tables _ _ _ h := h
  size := Nat.le_refl _

theorem sameBut_pushSubgraph (target : Option BodyRef) (σ : Store) (g : Subgraph) :
    SameBut target table σ (σ.pushSubgraph g) where
  roots _ _ _ h := h
  subgraphs s g' _ hs := by
    have hne : s.index ≠ σ.subgraphs.size := by
      intro he
      simp [subgraph?, he] at hs
    exact ⟨g'.parent, by rw [subgraph?_pushSubgraph, if_neg hne, hs]⟩
  statements _ s h := ⟨s.parent, h⟩
  tables _ _ _ h := h
  size := by simp [pushSubgraph]

theorem sameBut_pushStatement (target : Option BodyRef) (σ : Store) (s : Statement) :
    SameBut target table σ (σ.pushStatement s) where
  roots _ _ _ h := h
  subgraphs _ g _ h := ⟨g.parent, h⟩
  statements i s' hi := by
    have hne : i.index ≠ σ.statements.size := by
      intro he
      simp [statement?, he] at hi
    exact ⟨s'.parent, by rw [statement?_pushStatement, if_neg hne, hi]⟩
  tables _ _ _ h := h
  size := Nat.le_refl _

theorem sameBut_edgeCount (target : Option BodyRef) (σ : Store) (count : Nat) :
    SameBut target table σ { σ with edgeCount := count } where
  roots _ _ _ h := h
  subgraphs _ g _ h := ⟨g.parent, h⟩
  statements _ s h := ⟨s.parent, h⟩
  tables _ _ _ h := h
  size := Nat.le_refl _

theorem sameBut_creations (target : Option BodyRef) (σ : Store) (creations : List Creation) :
    SameBut target table σ { σ with creations } where
  roots _ _ _ h := h
  subgraphs _ g _ h := ⟨g.parent, h⟩
  statements _ s h := ⟨s.parent, h⟩
  tables _ _ _ h := h
  size := Nat.le_refl _

theorem sameBut_setTable (σ : Store) (t : TableId) (u : AttrTable) :
    SameBut target (some t) σ (σ.setTable t u) where
  roots _ _ _ h := h
  subgraphs _ g _ h := ⟨g.parent, h⟩
  statements _ s h := ⟨s.parent, h⟩
  tables t' v ht hv := by
    have hne : t ≠ t' := fun he => ht (congrArg some he)
    simp [table?_setTable, hv, hne]
  size := Nat.le_refl _

theorem SameBut.setTable_new (h : SameBut target table σ σ') {t : TableId}
    (ht : σ.table? t = none) (u : AttrTable) : SameBut target table σ (σ'.setTable t u) where
  roots := h.roots
  subgraphs := h.subgraphs
  statements := h.statements
  tables t' v ht' hv := by
    have hne : t ≠ t' := by
      rintro rfl
      simp [ht] at hv
    simp [table?_setTable, h.tables t' v ht' hv, hne]
  size := h.size

theorem size_subgraphs_attach (σ : Store) (b : BodyRef) (m : Member) :
    (σ.attach b m).subgraphs.size = σ.subgraphs.size := by
  cases b <;> cases m <;> simp [attach, modifyBody, setParent, modifyStatement]

/-- The statement that is appended may be written elsewhere: all that it gets is an owner. -/
theorem sameBut_attach (σ : Store) (b : BodyRef) (m : Member) :
    SameBut (some b) table σ (σ.attach b m) where
  roots r g ht hg := by
    have hne : b ≠ .root r := fun he => ht (congrArg some he)
    simp [root?_attach, hg, hne]
  subgraphs s g ht hg := by
    have hne : b ≠ .subgraph s := fun he => ht (congrArg some he)
    simp only [attach, subgraph?_modifyBody, subgraph?_setParent, hg, Option.map_some, if_neg hne]
    split
    · exact ⟨some b, rfl⟩
    · exact ⟨g.parent, rfl⟩
  statements i s hs := by
    simp only [statement?_attach, hs, Option.map_some]
    split
    · exact ⟨some b, rfl⟩
    · exact ⟨s.parent, rfl⟩
  tables t u _ ht := by rwa [table?_attach]
  size := Nat.le_of_eq (σ.size_subgraphs_attach b m).symm

theorem sameBut_makeStatement (target : Option BodyRef) (σ : Store) (clause : Clause) :
    SameBut target table σ (σ.makeStatement clause) :=
  (σ.sameBut_pushTable target _).trans (sameBut_pushStatement target _ _)

end Store

/-! ### One step -/

namespace Build

open Store

variable {α β : Type} {target : Option BodyRef}

/-- Of what is there, a step writes one statement list and owners only, refused or not. -/
def WritesOnly (target : Option BodyRef) (x : Build α) : Prop :=
  ∀ σ, SameBut target none σ (x.after σ)

theorem Still.writesOnly {x : Build α} (hx : Still x) (target : Option BodyRef) :
    WritesOnly target x :=
  fun σ => (hx σ).symm ▸ sameBut_refl target none σ

theorem writesOnly_get {f : Store → Build α} (h : ∀ σ, SameBut target none σ ((f σ).after σ)) :
    WritesOnly target (get >>= f) :=
  fun σ => h σ

theorem writesOnly_modify {f : Store → Store} (h : ∀ σ, SameBut target none σ (f σ)) :
    WritesOnly target (modify f) := h

theorem WritesOnly.bind {x : Build α} {f : α → Build β} (hx : WritesOnly target x)
    (hf : ∀ a, WritesOnly target (f a)) : WritesOnly target (x >>= f) := by
  intro σ
  have h := hx σ
  rw [after_bind]
  unfold Build.after at h
  split
  · rename_i a σ' hr
    rw [hr] at h
    exact h.trans (hf a σ')
  · rename_i e σ' hr
    rw [hr] at h
    exact h

theorem WritesOnly.map {x : Build α} (hx : WritesOnly target x) (f : α → β) :
    WritesOnly target (x >>= fun a => pure (f a)) :=
  hx.bind fun a => (still_pure (f a)).writesOnly target

/-! ### Making things -/

theorem writesOnly_newTable (target : Option BodyRef) (u : AttrTable) :
    WritesOnly target (newTable u) :=
  fun σ => σ.sameBut_pushTable target u

theorem writesOnly_newRoot (target : Option BodyRef) (name strict : Datum)
    (operator : EdgeOperator) : WritesOnly target (newRoot name strict operator) :=
  ((still_liftNaming _).writesOnly target).bind fun _ =>
    (writesOnly_newTable target _).bind fun _ =>
      writesOnly_get fun σ => σ.sameBut_pushRoot target _

theorem writesOnly_newSubgraph (target : Option BodyRef) (name : Datum)
    (operator : EdgeOperator) : WritesOnly target (newSubgraph name operator) :=
  ((still_liftNaming _).writesOnly target).bind fun _ =>
    (writesOnly_newTable target _).bind fun _ =>
      writesOnly_get fun σ => σ.sameBut_pushSubgraph target _

theorem writesOnly_newStatement (target : Option BodyRef) (clause : Clause)
    (given : Option Object) : WritesOnly target (newStatement clause given) := by
  intro σ
  rw [Build.after, run_newStatement]
  cases givenTable? σ given clause with
  | some t => exact σ.sameBut_pushStatement target _
  | none => exact σ.sameBut_makeStatement target clause

theorem writesOnly_newEdge (target : Option BodyRef) (tail head : Argument)
    (operator : EdgeOperator) : WritesOnly target (newEdge tail head operator) :=
  ((still_edgeEnd operator tail).writesOnly target).bind fun _ =>
    ((still_edgeEnd operator head).writesOnly target).bind fun _ =>
      writesOnly_get fun σ => σ.sameBut_edgeCount target _

/-! ### Operations on a body -/

theorem writesOnly_attach (b : BodyRef) (m : Member) : WritesOnly (some b) (attach b m) := by
  refine writesOnly_get fun σ => ?_
  cases σ.checkMember b m with
  | error e => exact sameBut_refl _ _ σ
  | ok u => exact σ.sameBut_attach b m

theorem writesOnly_add (b : BodyRef) (given : Argument) : WritesOnly (some b) (add b given) := by
  unfold add
  split
  · split
    · exact (writesOnly_attach b _).map _
    · exact (still_get fun _ => still_throw _).writesOnly _
  · exact (still_throw _).writesOnly _

/-- The table that is written is one that has just been made. -/
theorem writesOnly_append (b : BodyRef) (clause : Clause) (attrs : Entries String Datum) :
    WritesOnly (some b) (append b clause attrs) := by
  intro σ
  have hmade : SameBut (some b) none σ (σ.makeStatement clause) :=
    σ.sameBut_makeStatement (some b) clause
  have hfresh : σ.table? ⟨σ.tables.size⟩ = none := by simp [Store.table?]
  have hset : SameBut (some b) none σ
      ((setAttrs (.statement ⟨σ.statements.size⟩) attrs).after (σ.makeStatement clause)) := by
    rcases after_setAttrs (.statement ⟨σ.statements.size⟩) attrs (σ.makeStatement clause) with
      he | ⟨t, v, u', hheld, he⟩
    · rw [he]
      exact hmade
    · cases hheld.symm.trans (σ.held?_makeStatement clause)
      rw [he]
      exact hmade.setTable_new hfresh u'
  unfold append
  rw [(yields_newStatement clause σ).after_bind, after_bind]
  unfold Build.after at hset
  split
  · rename_i u σ₂ hr
    rw [hr] at hset
    exact hset.trans ((writesOnly_attach b _).map _ σ₂)
  · rename_i e σ₂ hr
    rw [hr] at hset
    exact hset

theorem writesOnly_insertion (b : BodyRef) (attrs : Entries String Datum) (what : Insertion) :
    WritesOnly (some b) (what.run b attrs) := by
  cases what with
  | node name port =>
    exact ((still_nodeIdOf name port).writesOnly _).bind fun _ => writesOnly_append b _ attrs
  | edge tail head =>
    exact ((still_vertexLike tail).writesOnly _).bind fun _ =>
      ((still_vertexLike head).writesOnly _).bind fun _ =>
        ((still_operatorOf b).writesOnly _).bind fun _ =>
          (writesOnly_newEdge _ _ _ _).bind fun _ => writesOnly_append b _ attrs
  | defaults kind => exact writesOnly_append b _ attrs

theorem writesOnly_closeSubgraph (b : BodyRef) (s : SubgraphId) (appended : Bool) :
    WritesOnly (some b) (closeSubgraph b s appended) := by
  obtain ⟨note, hnote, hclose⟩ := closeSubgraph_eq b s appended
  have hnoted : WritesOnly (some b) (modify note) := by
    refine writesOnly_modify fun σ => ?_
    obtain ⟨creations, heq⟩ := hnote σ
    rw [heq]
    exact σ.sameBut_creations _ creations
  rw [hclose]
  cases appended with
  | true => exact (writesOnly_attach b _).bind fun _ => hnoted
  | false => exact hnoted

theorem writesOnly_subgraph (b : BodyRef) (name : Datum) (appended : Bool) :
    WritesOnly (some b) (subgraph b name appended fun _ => pure ()) :=
  (((still_operatorOf b).writesOnly _).bind fun _ => writesOnly_newSubgraph _ name _).bind
    fun s => ((still_pure ()).writesOnly _).bind fun _ =>
      (writesOnly_closeSubgraph b s appended).map _

theorem sameBut_after_editTable {edit : TableEdit Unit} {given : Entries Datum Datum}
    (h : edit.Enters given) (o : Object) (σ : Store) :
    SameBut target (σ.tableId? o) σ ((editTable o edit).after σ) := by
  rcases after_editTable h o σ with he | ⟨t, u, u', hheld, he⟩
  · rw [he]
    exact sameBut_refl _ _ σ
  · rw [he, (held?_eq_some_iff.1 hheld).1]
    exact σ.sameBut_setTable t u'

end Build

/-! ### Operations -/

namespace Operation

/-- The body or statement that an operation is asked of; what only makes something is asked of
none. -/
def target? : Operation → Option Object
  | insert b _ _ => some (.ofBody b)
  | subgraph b _ _ => some (.ofBody b)
  | add b _ => some (.ofBody b)
  | set o _ => some o
  | edit o _ => some o
  | _ => none

/-- The body that may get a statement. -/
def extended? : Operation → Option BodyRef
  | insert b _ _ => some b
  | subgraph b _ _ => some b
  | add b _ => some b
  | _ => none

/-- The table that may get other entries. -/
def edited? (σ : Store) : Operation → Option TableId
  | set o _ => σ.tableId? o
  | edit o _ => σ.tableId? o
  | _ => none

theorem target?_of_extended? {op : Operation} {b : BodyRef} (h : op.extended? = some b) :
    op.target? = some (.ofBody b) := by
  cases op <;> cases h <;> rfl

/-- Of what is there, an operation writes no more than the one statement list and the one table. -/
theorem sameBut_after (op : Operation) (σ : Store) :
    Store.SameBut op.extended? (op.edited? σ) σ (op.run.after σ) := by
  cases op with
  | newRoot name strict directed => exact (Build.writesOnly_newRoot none _ _ _).map _ σ
  | newSubgraph name directed => exact (Build.writesOnly_newSubgraph none _ _).map _ σ
  | newStatement clause given => exact (Build.writesOnly_newStatement none _ _).map _ σ
  | newEdge tail head directed => exact (Build.writesOnly_newEdge none _ _ _).map _ σ
  | insert b what attrs => exact (Build.writesOnly_insertion b attrs what).map _ σ
  | subgraph b name appended => exact (Build.writesOnly_subgraph b name appended).map _ σ
  | add b given => exact Build.writesOnly_add b given σ
  | set o attrs =>
    rw [Operation.run, Build.after_bind_of_still fun _ _ => rfl]
    exact Build.sameBut_after_editTable (TableEdit.enters_enter _) o σ
  | edit o call =>
    rw [Operation.run, Build.after_bind_of_still fun _ _ => rfl]
    exact Build.sameBut_after_editTable call.enters_perform o σ

end Operation

namespace Store

variable {σ σ' : Store} {target : Option BodyRef} {table : Option TableId} {r : RootId}

/-! ### Exports -/

/-- No part of a root graph is the body, and none holds the table. -/
structure Outside (σ : Store) (r : RootId) (target : Option BodyRef) (table : Option TableId) :
    Prop where
  body : ∀ b, target = some b → ¬ σ.PartOf r (.ofBody b)
  table : ∀ t, table = some t → ∀ o, σ.PartOf r o → σ.tableId? o ≠ some t

variable (hsame : SameBut target table σ σ') (hout : σ.Outside r target table)

include hsame hout

theorem SameBut.itemWith?_eq (hu : σ.Uniform) (ht : σ.Tabled)
    (inner : SubgraphId → Option Outline) {b : BodyRef} {m : Member}
    (hb : σ.Below (.root r) b) (hm : m ∈ σ.members b) :
    σ'.itemWith? inner m = σ.itemWith? inner m := by
  cases m with
  | subgraph s => rfl
  | statement i =>
    obtain ⟨clause, hc⟩ := hu.holds hm
    obtain ⟨s, hs, -⟩ := Option.map_eq_some_iff.1 hc
    obtain ⟨owner, hs'⟩ := hsame.statements i s hs
    obtain ⟨u, hu, -⟩ := ht.statements i s hs
    have hne : table ≠ some s.table := by
      intro he
      exact hout.table _ he _ (.member hb hm) (by simp [Object.ofMember, tableId?, hs])
    simp [itemWith?, hs, hs', hsame.attrsAt_eq hne hu]

/-- Every body that is written unfolds as before, to every depth. -/
theorem SameBut.outlineTo?_eq (hu : σ.Uniform) (ht : σ.Tabled) {g : Root}
    (hg : σ.root? r = some g) (depth : Nat) {b : BodyRef} (hb : σ.Below (.root r) b) :
    σ'.outlineTo? depth b = σ.outlineTo? depth b := by
  induction depth generalizing b with
  | zero => rfl
  | succ depth ih =>
    have hroot : σ.HasOperator (.root r) g.body.operator := by simp [HasOperator, body?, hg]
    obtain ⟨body, hbody, -⟩ := Option.map_eq_some_iff.1 (hu.hasOperator_of_below hb hroot)
    have hbody' := hsame.body?_eq (fun he => hout.body _ he (.body hb)) hbody
    obtain ⟨u, hheld, -⟩ := ht.bodies b body hbody
    have hne : table ≠ some body.table := by
      intro he
      exact hout.table _ he _ (.body hb) (by simp [tableId?_ofBody, hbody])
    have hheader : σ'.headerOf b body = σ.headerOf b body := by
      simp [headerOf, hsame.attrsAt_eq hne hheld]
    have hlevel : ∀ inner, σ'.bodyWith? inner b = σ.bodyWith? inner b := by
      intro inner
      have hitems : body.members.mapM (σ'.itemWith? inner) =
          body.members.mapM (σ.itemWith? inner) := by
        refine mapM_congr_left fun m hm => hsame.itemWith?_eq hout hu ht inner hb ?_
        rwa [members_eq_of_body? hbody]
      simp [bodyWith?, hbody, hbody', hitems, hheader]
    rw [outlineTo?, outlineTo?, hlevel]
    exact bodyWith?_congr fun s hs => ih (hb.linked hs)

/-- The new store may allow for more depth than the old one; no outline needs it. -/
theorem SameBut.outline?_eq (hu : σ.Uniform) (ha : σ.Acyclic) (ht : σ.Tabled) {g : Root}
    (hg : σ.root? r = some g) : σ'.outline? (.root r) = σ.outline? (.root r) := by
  have hframe := hsame.outlineTo?_eq hout hu ht hg σ'.depthBound .refl
  obtain ⟨more, hmore⟩ := Nat.exists_eq_add_of_le hsame.size
  have hbound : σ.outlineTo? σ'.depthBound (.root r) = σ.outline? (.root r) := by
    rw [depthBound, hmore, outline?, depthBound, outlineTo?, outlineTo?]
    refine bodyWith?_congr fun s hs => ?_
    have hroot : σ.HasOperator (.root r) g.body.operator := by simp [HasOperator, body?, hg]
    obtain ⟨o, ho⟩ := exists_outlineTo?_size hu ha (hu.hasOperator_of_linked hroot hs)
    exact (ho more).trans (ho 0).symm
  exact hframe.trans hbound

theorem SameBut.rootOutline?_eq (hu : σ.Uniform) (ha : σ.Acyclic) (ht : σ.Tabled) {g : Root}
    (hg : σ.root? r = some g) : σ'.rootOutline? r = σ.rootOutline? r := by
  have hg' := hsame.roots r g (fun he => hout.body _ he (.body .refl)) hg
  simp [rootOutline?, hg, hg', hsame.outline?_eq hout hu ha ht hg]

theorem SameBut.dot?_eq (hu : σ.Uniform) (ha : σ.Acyclic) (ht : σ.Tabled) {g : Root}
    (hg : σ.root? r = some g) (c : RenderConfig) : σ'.dot? r c = σ.dot? r c := by
  have hg' := hsame.roots r g (fun he => hout.body _ he (.body .refl)) hg
  simp [dot?, keyword?, hg, hg', hsame.rootOutline?_eq hout hu ha ht hg]

omit hsame hout

/-- Whatever a caller does, refused or not, to something that is no part of a root graph and edits
no table that a part of it holds: the text of the graph under every configuration, its JSON view and
its network are there and stay the same. -/
theorem Reachable.exports_frame (h : σ.Reachable) {g : Root} (hg : σ.root? r = some g)
    {op : Operation} (hout : ∀ o, op.target? = some o → ¬ σ.PartOf r o)
    (hunheld : ∀ t, op.edited? σ = some t → ∀ o, σ.PartOf r o → σ.tableId? o ≠ some t) :
    (∀ c, ∃ text, σ.dot? r c = some text ∧ (op.run.after σ).dot? r c = some text) ∧
      (∃ view, σ.json? r = some view ∧ (op.run.after σ).json? r = some view) ∧
      ∃ n, σ.network? (.root r) = some n ∧ (op.run.after σ).network? (.root r) = some n := by
  have hsame := op.sameBut_after σ
  have houtside : σ.Outside r op.extended? (op.edited? σ) :=
    ⟨fun b hb => hout _ (Operation.target?_of_extended? hb), hunheld⟩
  refine ⟨fun c => ?_, ?_, ?_⟩
  · obtain ⟨text, htext⟩ := h.exists_dot? hg c
    exact ⟨text, htext, (hsame.dot?_eq houtside h.uniform h.acyclic h.tabled hg c).trans htext⟩
  · obtain ⟨view, hview⟩ := h.exists_json? hg
    refine ⟨view, hview, ?_⟩
    rw [← hview, json?, json?, hsame.rootOutline?_eq houtside h.uniform h.acyclic h.tabled hg]
  · obtain ⟨n, hn⟩ := h.exists_network? hg
    refine ⟨n, hn, ?_⟩
    rw [← hn, network?, network?, hsame.outline?_eq houtside h.uniform h.acyclic h.tabled hg]

/-- Two graphs, and an edge of the first out of a subgraph that floats. -/
def sharedEndRun : List Call :=
  [.ask (.newRoot .absent false true), .ask (.newRoot .absent false true),
    .ask (.newSubgraph .absent true),
    .ask (.newStatement (.edge ⟨0, .subgraph ⟨0⟩, .node ⟨⟨"sink", by decide⟩, none⟩,
      .directed⟩) none)]

/-- The second graph takes the subgraph that the first one writes. -/
theorem exports_frame_sharedEnd :
    let σ := empty.after (sharedEndRun ++ [.ask (.add (.root ⟨0⟩) (.object (.statement ⟨0⟩)))])
    let σ' := (Operation.add (.root ⟨1⟩) (.object (.subgraph ⟨0⟩))).run.after σ
    σ.PartOf ⟨0⟩ (.subgraph ⟨0⟩) ∧ σ.parent? (.subgraph ⟨0⟩) = none ∧
      σ'.parent? (.subgraph ⟨0⟩) = some (.root ⟨1⟩) ∧
      ∃ text, σ.dot? ⟨0⟩ .default = some text ∧ σ'.dot? ⟨0⟩ .default = some text := by
  have hadd : (empty.after sharedEndRun).checkMember (.root ⟨0⟩) (.statement ⟨0⟩) = .ok () :=
    checkMember_root_edge (e := ⟨0, .subgraph ⟨0⟩, .node ⟨⟨"sink", by decide⟩, none⟩, .directed⟩)
      (by decide +kernel) (by decide +kernel) (by decide +kernel) (by decide +kernel)
  intro σ σ'
  have hσ : σ = (empty.after sharedEndRun).attach (.root ⟨0⟩) (.statement ⟨0⟩) := by
    simp only [σ]
    rw [after_append, after_add_statement hadd]
  have hpart : σ.PartOf ⟨0⟩ (.subgraph ⟨0⟩) := by
    have hlink : ⟨0⟩ ∈ σ.links (.root ⟨0⟩) := by
      rw [hσ]
      decide +kernel
    exact .body (b := .subgraph ⟨0⟩) (Below.linked .refl hlink)
  have hfree : σ.parent? (.subgraph ⟨0⟩) = none := by
    rw [hσ]
    decide +kernel
  have htake : σ.checkMember (.root ⟨1⟩) (.subgraph ⟨0⟩) = .ok () := by
    rw [hσ]
    exact checkMember_root_subgraph .directed (by decide +kernel) (by decide +kernel)
      (by decide +kernel)
  have hσ' : σ' = σ.attach (.root ⟨1⟩) (.subgraph ⟨0⟩) :=
    (Build.yields_add htake).after_eq
  have howner : σ'.parent? (.subgraph ⟨0⟩) = some (.root ⟨1⟩) := by
    rw [hσ', hσ]
    decide +kernel
  obtain ⟨g, hg⟩ : ∃ g, σ.root? ⟨0⟩ = some g := by
    rw [hσ]
    exact Option.isSome_iff_exists.1 (by decide +kernel)
  have hout : ∀ o, (Operation.add (.root ⟨1⟩) (.object (.subgraph ⟨0⟩))).target? = some o →
      ¬ σ.PartOf ⟨0⟩ o := by
    rintro o ho hpart
    obtain rfl := Option.some.inj ho
    cases eq_of_partOf_root hpart
  have hunheld : ∀ t, (Operation.add (.root ⟨1⟩) (.object (.subgraph ⟨0⟩))).edited? σ = some t →
      ∀ o, σ.PartOf ⟨0⟩ o → σ.tableId? o ≠ some t := by
    intro t ht
    cases ht
  have hreach : σ.Reachable := ⟨_, rfl⟩
  exact ⟨hpart, hfree, howner, (hreach.exports_frame hg hout hunheld).1 .default⟩

/-- A graph with a node, and a statement about another node that is no part of it but has its
table. -/
def sharedTableRun : List Call :=
  [.ask (.newRoot .absent false true), .ask (.insert (.root ⟨0⟩) (.node (.text "a") .absent) []),
    .ask (.newStatement (.node ⟨⟨"b", by decide⟩, none⟩) (some (.statement ⟨0⟩)))]

/-- What is set of the statement shows in all that the graph is exported to. -/
theorem exports_change_sharedTable :
    let σ := empty.after sharedTableRun
    let σ' := (Operation.set (.statement ⟨1⟩) [("color", .text "red")]).run.after σ
    ¬ σ.PartOf ⟨0⟩ (.statement ⟨1⟩) ∧
      σ.dot? ⟨0⟩ .default = some "digraph \x7b\n  a\n\x7d\n" ∧
      σ'.dot? ⟨0⟩ .default = some "digraph \x7b\n  a[color=\"red\"]\n\x7d\n" ∧
      σ.json? ⟨0⟩ ≠ σ'.json? ⟨0⟩ ∧ σ.network? (.root ⟨0⟩) ≠ σ'.network? (.root ⟨0⟩) := by
  intro σ σ'
  have hmembers : σ.members (.root ⟨0⟩) = [.statement ⟨0⟩] := by decide +kernel
  have hlinks : σ.links (.root ⟨0⟩) = [] := by decide +kernel
  refine ⟨fun hpart => ?_, by decide +kernel, by decide +kernel, by decide +kernel,
    by decide +kernel⟩
  generalize ho : Object.statement ⟨1⟩ = o at hpart
  cases hpart with
  | @body b hb => cases b <;> cases ho
  | @member b m hb hm =>
    obtain rfl : b = .root ⟨0⟩ := by
      rcases hb.cases_head with he | ⟨c, ⟨s, -, hs⟩, -⟩
      · exact he.symm
      · obtain ⟨s', -, hl⟩ := hs.leads
        simp [Linked, hlinks] at hl
    rw [hmembers] at hm
    obtain rfl := List.mem_singleton.1 hm
    cases ho

end Store

end DotGraph
