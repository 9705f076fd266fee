import Runbook.Document.Compile
import Runbook.Proofs.Graph.Rename

/-!
# Redrawn workflows

What a document does not depend on. A workflow is redrawn when its ids are renamed,
its edges are written down anew, and whatever no document shows is changed:
`Workflow.Redrawn` says what stays. Links are carried to links
(`Workflow.Redrawn.renames`), so nodes keep their places in the sequence; nodes that
go together have the same section; and the header shows the name and the description
only. Main statement: `compile_of_redrawn`.
-/

namespace Runbook

variable {f : String → String}

/-- A node under a renaming. Its place on the canvas and its linked item may change, and
all data of a node that has no section, which triggers and loops have not. -/
structure Node.Redrawn (f : String → String) (n n' : Node) : Prop where
  id : n'.id = f n.id
  kind : n'.kind = n.kind
  shown : n.kind ≠ .trigger → n.kind ≠ .loop → n'.label = n.label ∧
    n'.payload.description = n.payload.description ∧ n'.payload.detail = n.payload.detail

/-- The ids that a workflow names, of nodes or at the ends of edges. -/
def Workflow.names (w : Workflow) : Set String :=
  {id | id ∈ w.nodeIds ∨ ∃ e ∈ w.edges, id = e.source ∨ id = e.target}

/-- A workflow under a renaming that keeps the ids in it apart, those at loose ends of
edges too. Its nodes stay in order. Its edges are written down anew: those between nodes
are the same up to order and repetition, and nothing is asked of those with a loose end.
The rest of what edges say may change, and so may all of the workflow that no header
shows. -/
structure Workflow.Redrawn (f : String → String) (w w' : Workflow) : Prop where
  injOn : Set.InjOn f w.names
  name : w'.name = w.name
  description : w'.description = w.description
  nodes : List.Forall₂ (Node.Redrawn f) w.nodes w'.nodes
  kept : ∀ e ∈ Graph.links w.nodeIds w.edges, ∃ e' ∈ w'.edges, e.Renamed f e'
  added : ∀ e' ∈ Graph.links w'.nodeIds w'.edges, ∃ e ∈ w.edges, e.Renamed f e'

/-- What a compilation gives, under a renaming of ids: the same document, and the renamed
lists of ids. -/
structure Document.Compiled.Renamed (f : String → String) (c c' : Document.Compiled) : Prop where
  target : c'.target = c.target
  document : c'.document = c.document
  digest : c'.digest = c.digest
  order : c'.order = c.order.map f
  excluded : c'.excluded = c.excluded.map f

/-! ## The graph of a redrawn workflow -/

namespace Workflow.Redrawn

variable {w w' : Workflow}

theorem known_eq (h : w.Redrawn f w') : Graph.known w'.nodes = (Graph.known w.nodes).map f :=
  Graph.map_id_of_forall₂ (fun _ _ hn => hn.id) <|
    Graph.forall₂_firsts (fun _ _ hn => hn.id)
      (h.injOn.mono fun _ hid => .inl (Graph.mem_firsts_ids_iff.mp hid)) h.nodes

/-- Links are carried to links. A loose end stays loose, for the renaming does not take it
to the id of a node. -/
theorem renames (h : w.Redrawn f w') :
    Graph.Renames f (Graph.known w.nodes) (Graph.links (Graph.known w.nodes) w.edges)
      (Graph.links (Graph.known w'.nodes) w'.edges) where
  injOn := h.injOn.mono fun _ hid => .inl (Graph.mem_firsts_ids_iff.mp hid)
  ends _ he := ⟨Graph.links_source he, Graph.links_target he⟩
  image := by
    intro e he
    obtain ⟨hmem, hsource, htarget⟩ := Graph.mem_links_iff.mp he
    obtain ⟨e', he', hends⟩ := h.kept e <| Graph.mem_links_iff.mpr
      ⟨hmem, Graph.mem_firsts_ids_iff.mp hsource, Graph.mem_firsts_ids_iff.mp htarget⟩
    refine ⟨e', Graph.mem_links_iff.mpr ⟨he', ?_, ?_⟩, hends⟩
    · rw [h.known_eq, hends.source]
      exact List.mem_map_of_mem hsource
    · rw [h.known_eq, hends.target]
      exact List.mem_map_of_mem htarget
  preimage := by
    intro e' he'
    obtain ⟨hmem, hsource, htarget⟩ := Graph.mem_links_iff.mp he'
    obtain ⟨e, he, hends⟩ := h.added e' <| Graph.mem_links_iff.mpr
      ⟨hmem, Graph.mem_firsts_ids_iff.mp hsource, Graph.mem_firsts_ids_iff.mp htarget⟩
    have hknown : ∀ id ∈ w.names, f id ∈ Graph.known w'.nodes → id ∈ Graph.known w.nodes := by
      intro id hid hin
      rw [h.known_eq] at hin
      obtain ⟨other, hother, heq⟩ := List.mem_map.mp hin
      rwa [← h.injOn (.inl (Graph.mem_firsts_ids_iff.mp hother)) hid heq]
    rw [hends.source] at hsource
    rw [hends.target] at htarget
    exact ⟨e, Graph.mem_links_iff.mpr ⟨he, hknown _ (.inr ⟨e, he, .inl rfl⟩) hsource,
      hknown _ (.inr ⟨e, he, .inr rfl⟩) htarget⟩, hends⟩

theorem forall₂_linearize (h : w.Redrawn f w') :
    List.Forall₂ (Node.Redrawn f) w.linearize.order w'.linearize.order ∧
    List.Forall₂ (Node.Redrawn f) w.linearize.excluded w'.linearize.excluded :=
  Graph.forall₂_arrange (fun _ _ hn => hn.id) h.nodes h.renames

end Workflow.Redrawn

namespace Document

/-! ## The document of a redrawn workflow -/

/-- Triggers and loops are silent. -/
theorem section?_eq_none {n : Node} (h : n.kind = .trigger ∨ n.kind = .loop) : section? n = none := by
  unfold Node.kind at h
  rw [section?]
  cases hdetail : n.payload.detail <;> simp [hdetail, Detail.kind] at h ⊢

theorem section?_of_redrawn {n n' : Node} (h : n.Redrawn f n') : section? n' = section? n := by
  by_cases hsilent : n.kind = .trigger ∨ n.kind = .loop
  · rw [section?_eq_none hsilent, section?_eq_none (h.kind ▸ hsilent)]
  · obtain ⟨htrigger, hloop⟩ := not_or.mp hsilent
    obtain ⟨hlabel, hdescription, hdetail⟩ := h.shown htrigger hloop
    rw [section?, section?, hlabel, hdescription, hdetail]

theorem sections_of_redrawn {order order' : List Node}
    (h : List.Forall₂ (Node.Redrawn f) order order') : sections order' = sections order := by
  induction h with
  | nil => rfl
  | cons hn _ ih =>
      rw [sections, sections, List.filterMap_cons, List.filterMap_cons, section?_of_redrawn hn]
      simp only [sections] at ih
      rw [ih]

theorem header_of_redrawn {w w' : Workflow} (h : w.Redrawn f w') (target : Target) :
    header w' target = header w target := by
  -- by its body: the equations of `header` are slow to make for its long texts
  delta header
  rw [h.name, h.description]

theorem render_of_redrawn {w w' : Workflow} (h : w.Redrawn f w') (target : Target) :
    render w' target w'.linearize.order = render w target w.linearize.order := by
  rw [render, render, header_of_redrawn h, sections_of_redrawn h.forall₂_linearize.1]

/-! ## Compilation -/

section Compile

variable {ε : Type} {w w' : Workflow} {target : Target} {preferences : Except ε Preferences}
  {excluded : List String} {fault : ε}

/-- There are warnings, if only none, unless they need preferences that cannot be read. -/
theorem exists_cycleWarnings_iff :
    (∃ warnings, cycleWarnings excluded preferences = .ok warnings) ↔
      excluded = [] ∨ ∃ p, preferences = .ok p := by
  cases excluded <;> cases preferences <;> simp [cycleWarnings, Except.map]

theorem cycleWarnings_eq_error_iff :
    cycleWarnings excluded preferences = .error fault ↔
      excluded ≠ [] ∧ preferences = .error fault := by
  cases excluded <;> cases preferences <;> simp [cycleWarnings, Except.map]

/-- What a compilation gives for a target that is asked for. Only the warnings look at the
preferences. -/
theorem compile_some_eq (w : Workflow) (target : Target) (preferences : Except ε Preferences) :
    compile w (some target) preferences = (do
      let warnings ← cycleWarnings w.linearize.excludedIds preferences
      return ⟨target, w.linearize.ids, w.linearize.excludedIds, warnings,
        render w target w.linearize.order⟩) := rfl

theorem compile_some_eq_ok_iff {c : Compiled} :
    compile w (some target) preferences = .ok c ↔
      ∃ warnings, cycleWarnings w.linearize.excludedIds preferences = .ok warnings ∧
        c = ⟨target, w.linearize.ids, w.linearize.excludedIds, warnings,
          render w target w.linearize.order⟩ := by
  rw [compile_some_eq]
  cases cycleWarnings w.linearize.excludedIds preferences with
  | error fault => simp [bind, Except.bind]
  | ok warnings => simp [bind, Except.bind, pure, Except.pure, eq_comm]

theorem compile_some_eq_error_iff :
    compile w (some target) preferences = .error fault ↔
      w.linearize.excludedIds ≠ [] ∧ preferences = .error fault := by
  rw [compile_some_eq, ← cycleWarnings_eq_error_iff]
  cases cycleWarnings w.linearize.excludedIds preferences with
  | error fault => simp [bind, Except.bind]
  | ok warnings => simp [bind, Except.bind, pure, Except.pure]

end Compile

/-- **Compilation depends on the drawing in names only**: for a target that is asked for,
a redrawn workflow compiles to the same document, over the renamed ids, or fails as the
workflow does, which it can only where the preferences cannot be read. -/
theorem compile_of_redrawn {ε : Type} {w w' : Workflow} (h : w.Redrawn f w') (target : Target)
    (preferences : Except ε Preferences) :
    (∀ c, compile w (some target) preferences = .ok c →
      ∃ c', compile w' (some target) preferences = .ok c' ∧ c.Renamed f c') ∧
    (∀ fault, compile w (some target) preferences = .error fault →
      compile w' (some target) preferences = .error fault) ∧
    (∀ p, preferences = .ok p → ∃ c, compile w (some target) preferences = .ok c) := by
  have hids : w'.linearize.ids = w.linearize.ids.map f :=
    Graph.map_id_of_forall₂ (fun _ _ hn => hn.id) h.forall₂_linearize.1
  have hexcluded : w'.linearize.excludedIds = w.linearize.excludedIds.map f :=
    Graph.map_id_of_forall₂ (fun _ _ hn => hn.id) h.forall₂_linearize.2
  have hempty : w'.linearize.excludedIds = [] ↔ w.linearize.excludedIds = [] := by
    rw [hexcluded, List.map_eq_nil_iff]
  refine ⟨fun c hc => ?_, fun fault hfault => ?_, fun p hp => ?_⟩
  · obtain ⟨warnings, hwarnings, rfl⟩ := compile_some_eq_ok_iff.mp hc
    have hcan := exists_cycleWarnings_iff.mp ⟨warnings, hwarnings⟩
    rw [← hempty] at hcan
    obtain ⟨warnings', hwarnings'⟩ := exists_cycleWarnings_iff.mpr hcan
    have hdocument := render_of_redrawn h target
    exact ⟨_, compile_some_eq_ok_iff.mpr ⟨warnings', hwarnings', rfl⟩,
      ⟨rfl, hdocument, congrArg fingerprint hdocument, hids, hexcluded⟩⟩
  · rw [compile_some_eq_error_iff] at hfault ⊢
    exact ⟨mt hempty.mp hfault.1, hfault.2⟩
  · obtain ⟨warnings, hwarnings⟩ := exists_cycleWarnings_iff.mpr (.inr ⟨p, hp⟩)
    exact ⟨_, compile_some_eq_ok_iff.mpr ⟨warnings, hwarnings, rfl⟩⟩

/-- A workflow with a loop that leads back to itself, and a loose end. -/
def sketch : Workflow where
  id := "wf_1"
  name := "Review"
  description := some "Reviews a change."
  icon := none
  nodes := [
    ⟨"start", .origin, "Start", none, none, none, .trigger .manual []⟩,
    ⟨"ask", .origin, "Ask", none, none, none, .prompt (some "Read the change.")⟩,
    ⟨"again", .origin, "Again", none, none, none, .loop ⟨2, by decide⟩⟩,
    ⟨"end", .origin, "End", none, none, none, .output⟩]
  edges := [
    ⟨"e1", "start", "ask", none, none, none, false, Edge.defaultShape⟩,
    ⟨"e2", "ask", "end", none, none, none, false, Edge.defaultShape⟩,
    ⟨"e3", "again", "again", none, none, none, false, Edge.defaultShape⟩,
    ⟨"e4", "end", "gone", none, none, none, false, Edge.defaultShape⟩]
  createdAt := 0
  updatedAt := 0
  version := Workflow.defaultVersion
  author := none
  exportTarget := none
  exportPath := none

/-- The same workflow with other ids, its edges in another order, one of them twice, and
another loose end. -/
def redraft : Workflow where
  id := "wf_2"
  name := "Review"
  description := some "Reviews a change."
  icon := some "eye"
  nodes := [
    ⟨"new-start", .origin, "Go", some "Begins.", none, none, .trigger .command []⟩,
    ⟨"new-ask", .origin, "Ask", none, some "item", none, .prompt (some "Read the change.")⟩,
    ⟨"new-again", .origin, "Again", none, none, none, .loop ⟨3, by decide⟩⟩,
    ⟨"new-end", .origin, "End", none, none, none, .output⟩]
  edges := [
    ⟨"f1", "new-again", "new-again", none, none, some "back", true, "straight"⟩,
    ⟨"f2", "new-ask", "new-end", some "true", some "in", none, false, Edge.defaultShape⟩,
    ⟨"f3", "lost", "new-start", none, none, none, false, Edge.defaultShape⟩,
    ⟨"f4", "new-start", "new-ask", none, none, none, false, Edge.defaultShape⟩,
    ⟨"f5", "new-ask", "new-end", none, none, none, false, Edge.defaultShape⟩]
  createdAt := 5
  updatedAt := 6
  version := "2.0.0"
  author := some "someone"
  exportTarget := some .subagent
  exportPath := some "out.md"

theorem redrawn_redraft : sketch.Redrawn ("new-" ++ ·) redraft where
  injOn := fun _ _ _ _ heq => (String.append_right_inj "new-").mp heq
  name := rfl
  description := rfl
  nodes :=
    .cons ⟨by decide +kernel, rfl, fun h => absurd rfl h⟩ <|
    .cons ⟨by decide +kernel, rfl, fun _ _ => ⟨rfl, rfl, rfl⟩⟩ <|
    .cons ⟨by decide +kernel, rfl, fun _ h => absurd rfl h⟩ <|
    .cons ⟨by decide +kernel, rfl, fun _ _ => ⟨rfl, rfl, rfl⟩⟩ .nil
  kept := by decide +kernel
  added := by decide +kernel

theorem compile_redraft :
    ∃ c c', compile sketch (some .command) (.ok ⟨.command, true⟩ : Except Unit Preferences) = .ok c ∧
      compile redraft (some .command) (.ok ⟨.command, true⟩ : Except Unit Preferences) = .ok c' ∧
      c.Renamed ("new-" ++ ·) c' := by
  obtain ⟨hrenamed, -, hgives⟩ := compile_of_redrawn redrawn_redraft .command
    (.ok ⟨.command, true⟩ : Except Unit Preferences)
  obtain ⟨c, hc⟩ := hgives _ rfl
  obtain ⟨c', hc', hsame⟩ := hrenamed c hc
  exact ⟨c, c', hc, hc', hsame⟩

end Document
end Runbook
