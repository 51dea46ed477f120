import DotGraph.Proofs.Unfolding
import DotGraph.Session.Query

/-!
Exports of what was built.  The text, the JSON view and the network of a root graph are there in
every store that a run of calls comes to.
-/

namespace DotGraph.Store

variable {σ : Store}

theorem Reachable.exists_rootOutline? (h : σ.Reachable) {r : RootId} {g : Root}
    (hg : σ.root? r = some g) :
    ∃ o, σ.outline? (.root r) = some o ∧ σ.rootOutline? r = some ⟨o, g.strict⟩ := by
  have hb : σ.HasOperator (.root r) g.body.operator := by simp [HasOperator, body?, hg]
  obtain ⟨o, ho⟩ := exists_outline? h.uniform h.acyclic hb
  exact ⟨o, ho, by simp [rootOutline?, hg, ho]⟩

theorem Reachable.exists_dot? (h : σ.Reachable) {r : RootId} {g : Root} (hg : σ.root? r = some g)
    (c : RenderConfig) : ∃ text, σ.dot? r c = some text := by
  obtain ⟨o, -, hroot⟩ := h.exists_rootOutline? hg
  obtain ⟨word, hword⟩ := (h.typed hg).exists_keyword
  exact ⟨Dot.root c word ⟨o, g.strict⟩, by simp [dot?, keyword?, hg, hword, hroot]⟩

theorem Reachable.exists_json? (h : σ.Reachable) {r : RootId} {g : Root}
    (hg : σ.root? r = some g) : ∃ view, σ.json? r = some view := by
  obtain ⟨o, -, hroot⟩ := h.exists_rootOutline? hg
  obtain ⟨strict, -, hs, -⟩ := h.typed hg
  exact ⟨_, by simp [json?, hroot, RootOutline.toJson?, hs, Datum.toJson?]; rfl⟩

theorem Reachable.exists_network? (h : σ.Reachable) {r : RootId} {g : Root}
    (hg : σ.root? r = some g) : ∃ n, σ.network? (.root r) = some n := by
  obtain ⟨o, ho, -⟩ := h.exists_rootOutline? hg
  exact ⟨o.network, by simp [network?, ho]⟩

/-! ### Writing a statement -/

variable (style : Query.Style) (kind : String)

theorem checkNeed_ne_notAStatement (need : Dot.Need) :
    Query.checkNeed style need ≠ .error (.notAStatement kind) := by
  intro h
  cases need with
  | indentation level =>
    cases hc : Text.copies style.config.indent level with
    | ok n => simp [Query.checkNeed, hc, Query.liftProduct] at h
    | error e => simp [Query.checkNeed, hc, Query.liftProduct] at h
  | operator o =>
    simp only [Query.checkNeed] at h
    split at h <;> cases h

theorem checkNeeds_ne_notAStatement (needs : List Dot.Need) :
    Query.checkNeeds style needs ≠ .error (.notAStatement kind) := by
  induction needs with
  | nil => intro h; cases h
  | cons need needs ih =>
    intro h
    have hcons : Query.checkNeeds style (need :: needs) =
        Query.checkNeed style need >>= fun _ => Query.checkNeeds style needs := rfl
    rw [hcons] at h
    cases hn : Query.checkNeed style need with
    | ok u =>
      rw [hn] at h
      exact ih h
    | error e =>
      rw [hn] at h
      cases h
      exact checkNeed_ne_notAStatement style kind need hn

theorem writeObject_statement {m : Member} {x : Item} (hx : σ.item? m = some x)
    (c : RenderConfig) (level : Int) (inline : Bool) :
    Query.writeObject σ ⟨c, .ok level, inline⟩ .statement (.ofMember m) =
      (Query.checkNeeds ⟨c, .ok level, inline⟩ (Dot.itemNeeds level x)).map
        fun _ => Dot.item c level x := by
  have hw : Query.writeItem σ ⟨c, .ok level, inline⟩ m =
      (Query.checkNeeds ⟨c, .ok level, inline⟩ (Dot.itemNeeds level x)).map
        fun _ => Dot.item c level x := by
    simp only [Query.writeItem, hx]
    show (Query.checkNeeds _ (Dot.itemNeeds level x) >>= fun _ => pure (Dot.item c level x)) = _
    cases Query.checkNeeds ⟨c, .ok level, inline⟩ (Dot.itemNeeds level x) <;> rfl
  rw [← hw]
  cases m with
  | subgraph s => rfl
  | statement i =>
    simp only [Query.writeObject, Object.ofMember, Query.writeStatement]
    split
    · rename_i hc
      obtain ⟨s, hs, hn⟩ := Option.map_eq_some_iff.1 hc
      simp [item?, itemWith?, hs, hn, clauseWith?] at hx
    · rfl

/-! ### Everything at once -/

/-- Whatever calls were made, the text of every root graph is written under every configuration,
and its JSON view and its network are there.  Going down along links comes to an end and needs no
bound, and no statement of any body is one that the writer does not know. -/
theorem Reachable.exports_exist (h : σ.Reachable) {r : RootId} {g : Root}
    (hg : σ.root? r = some g) (c : RenderConfig) :
    (∃ text, Query.writeRoot σ c r = .ok text) ∧
      (∃ view, σ.json? r = some view) ∧
      (∃ n, σ.network? (.root r) = some n) ∧
      (WellFounded fun b' b => σ.Leads b b') ∧
      (∀ b, σ.outline? b = σ.bodyWith? (fun s => σ.outline? (.subgraph s)) b) ∧
      ∀ b, ∀ m ∈ σ.members b, (∃ x, σ.item? m = some x) ∧ ∀ level inline kind,
        Query.writeObject σ ⟨c, .ok level, inline⟩ .statement (.ofMember m) ≠
          .error (.notAStatement kind) := by
  obtain ⟨o, ho, hroot⟩ := h.exists_rootOutline? hg
  obtain ⟨word, hword⟩ := (h.typed hg).exists_keyword
  have hk : σ.keyword? r = some word := by simp [keyword?, hg, hword]
  refine ⟨?_, ?_, ?_, h.acyclic.wellFounded, outline?_eq h.uniform h.acyclic, ?_⟩
  · exact ⟨_, by simp [Query.writeRoot, dot?, hk, hroot, Query.unfolded]; rfl⟩
  · obtain ⟨strict, -, hs, -⟩ := h.typed hg
    exact ⟨_, by simp [json?, hroot, RootOutline.toJson?, hs, Datum.toJson?]; rfl⟩
  · exact ⟨o.network, by simp [network?, ho]⟩
  · intro b m hm
    obtain ⟨x, hx⟩ := exists_item? h.uniform h.acyclic hm
    refine ⟨⟨x, hx⟩, fun level inline kind hw => ?_⟩
    rw [writeObject_statement hx] at hw
    cases hn : Query.checkNeeds ⟨c, .ok level, inline⟩ (Dot.itemNeeds level x) with
    | ok u => simp [hn, Except.map] at hw
    | error e =>
      rw [hn] at hw
      cases hw
      exact checkNeeds_ne_notAStatement _ kind _ hn

/-- A callback on a subgraph that breaks off inside a callback on a graph. -/
def brokenOffRun : List Call :=
  [.graph (.text "g") true true
    [.ask (.insert (.root ⟨0⟩) (.node (.text "a") .absent) [("shape", .text "box")]),
      .subgraph (.root ⟨0⟩) (.text "inner") true
        [.ask (.insert (.subgraph ⟨0⟩) (.node (.text "strict") .absent) []),
          .ask (.newEdge (.datum (.nodeId ⟨⟨"a", by decide⟩, none⟩)) (.object (.subgraph ⟨0⟩))
            true)]
        (some (.structural .notStandalone))]
    none]

theorem exports_exist_brokenOff :
    ∃ g, (empty.after brokenOffRun).root? ⟨0⟩ = some g ∧
      (∃ text, Query.writeRoot (empty.after brokenOffRun) .default ⟨0⟩ = .ok text) ∧
      (∃ view, (empty.after brokenOffRun).json? ⟨0⟩ = some view) ∧
      ∃ n, (empty.after brokenOffRun).network? (.root ⟨0⟩) = some n := by
  have hr : (empty.after brokenOffRun).Reachable := ⟨brokenOffRun, rfl⟩
  obtain ⟨g, hg⟩ : ∃ g, (empty.after brokenOffRun).root? ⟨0⟩ = some g :=
    Option.isSome_iff_exists.1 (by decide +kernel)
  obtain ⟨text, view, network, -⟩ := hr.exports_exist hg .default
  exact ⟨g, hg, text, view, network⟩

end DotGraph.Store
