import Runbook.Proofs.Document.Redrawn
import Runbook.Proofs.Graph.Part
import Runbook.Workflow.Edit

/-!
# Removed sinks

A node from which no edge leads to a node can be removed without a trace in the rest of
the document. What stays is a part of the graph (`part_of_sink`), for no link leaves the
node; and edges that are left hanging, or removed with it, are no links either
(`linearize_removeEdgesFor`). So the others keep their places in the sequence, and their
sections theirs in the document. Main statement: `remove_sink`.
-/

namespace Runbook

variable {w : Workflow} {s : String}

/-- No edge leads from an id to a node. -/
def Workflow.IsSink (w : Workflow) (s : String) : Prop :=
  ∀ e ∈ w.edges, e.source = s → e.target ∉ w.nodeIds

instance (w : Workflow) (s : String) : Decidable (w.IsSink s) :=
  inferInstanceAs (Decidable (∀ e ∈ w.edges, _))

namespace Graph

/-- Only links count for a sequence. -/
theorem arrange_congr {nodes : List Node} {edges edges' : List Edge}
    (h : Graph.links (known nodes) edges' = Graph.links (known nodes) edges) :
    arrange nodes edges' = arrange nodes edges := by
  simp only [known] at h
  simp only [arrange, h]

/-- Without a sink the other ids are a part of the graph. -/
theorem part_of_sink (h : w.IsSink s) :
    Part w.edges (known w.nodes) ((known w.nodes).filter (· ≠ s)) where
  subset _ hid := (List.mem_filter.mp hid).1
  source_mem := by
    intro e he _
    obtain ⟨hmem, hsource, htarget⟩ := mem_links_iff.mp he
    have hne : e.source ≠ s := fun heq => h e hmem heq (mem_firsts_ids_iff.mp htarget)
    exact List.mem_filter.mpr ⟨hsource, by simpa using hne⟩

end Graph

/-- The edges of an id that no node has may be removed. -/
theorem Workflow.linearize_removeEdgesFor (hs : s ∉ w.nodeIds) (now : Int) :
    (w.removeEdgesFor now s).linearize = w.linearize := by
  have hout : s ∉ Graph.known w.nodes := mt Graph.mem_firsts_ids_iff.mp hs
  refine Graph.arrange_congr ?_
  rw [removeEdgesFor, touch, Graph.links, Graph.links, List.filter_filter]
  refine List.filter_congr fun e _ => ?_
  rw [Bool.eq_iff_iff, Bool.and_eq_true, Bool.and_eq_true, decide_eq_true_iff, and_iff_left_iff_imp,
    List.contains_iff_mem, List.contains_iff_mem]
  rintro ⟨hsource, htarget⟩
  exact ⟨fun heq => hout (heq ▸ hsource), fun heq => hout (heq ▸ htarget)⟩

namespace Document

theorem sections_append (before after : List Node) :
    sections (before ++ after) = sections before ++ sections after := List.filterMap_append

/-- Where no id comes twice, at most one node goes with an id. -/
theorem exists_split_of_nodup {order : List Node} (h : (order.map (·.id)).Nodup) (s : String) :
    ∃ before after, order = before ++ (order.find? (·.id == s)).toList ++ after ∧
      order.filter (·.id ≠ s) = before ++ after := by
  cases hfind : order.find? (·.id == s) with
  | none =>
      refine ⟨order, [], by simp, ?_⟩
      rw [List.append_nil, List.filter_eq_self]
      exact fun n hn => by simpa using List.find?_eq_none.mp hfind n hn
  | some n =>
      obtain ⟨hn, before, after, rfl, hbefore⟩ := List.find?_eq_some_iff_append.mp hfind
      have hid : n.id = s := by simpa using hn
      have hkept : before.filter (·.id ≠ s) = before :=
        List.filter_eq_self.mpr fun m hm => by simpa using hbefore m hm
      have hrest : after.filter (·.id ≠ s) = after := by
        rw [List.map_append, List.nodup_append] at h
        refine List.filter_eq_self.mpr fun m hm => ?_
        have hne : m.id ≠ n.id := fun heq =>
          (List.nodup_cons.mp h.2.1).1 (List.mem_map.mpr ⟨m, hm, heq⟩)
        simpa [hid] using hne
      refine ⟨before, after, by simp, ?_⟩
      rw [List.filter_append, hkept, List.filter_cons_of_neg (by simpa using hid), hrest]

theorem sections_toList (n? : Option Node) : sections n?.toList = (n?.bind section?).toList := by
  cases n? with
  | none => rfl
  | some n => cases hsection : section? n <;> simp [sections, hsection]

/-- Without an id the sections lose at most the one of its node. -/
theorem exists_sections_of_nodup {order : List Node} (h : (order.map (·.id)).Nodup) (s : String) :
    ∃ before after,
      sections order = before ++ ((order.find? (·.id == s)).bind section?).toList ++ after ∧
      sections (order.filter (·.id ≠ s)) = before ++ after := by
  obtain ⟨before, after, hwhole, hrest⟩ := exists_split_of_nodup h s
  refine ⟨sections before, sections after, ?_, ?_⟩
  · have hsections := congrArg sections hwhole
    rwa [sections_append, sections_append, sections_toList] at hsections
  · rw [hrest, sections_append]

/-- **A sink can be removed without a trace in the rest**: whether or not its edges are
removed after it, the sequence and what is kept out of it lose the sink and nothing else,
and so the document loses at most the one section that the sink has. -/
theorem remove_sink (h : w.IsSink s) (now later : Int) :
    ∀ w' ∈ [w.removeNode now s, (w.removeNode now s).removeEdgesFor later s],
      w'.linearize.order = w.linearize.order.filter (·.id ≠ s) ∧
      w'.linearize.excluded = w.linearize.excluded.filter (·.id ≠ s) ∧
      ∃ before after,
        sections w.linearize.order =
          before ++ ((w.linearize.order.find? (·.id == s)).bind section?).toList ++ after ∧
        sections w'.linearize.order = before ++ after := by
  have hout : s ∉ (w.removeNode now s).nodeIds := by
    intro hmem
    obtain ⟨n, hn, hid⟩ := List.mem_map.mp hmem
    simpa [hid] using (List.mem_filter.mp hn).2
  have hsame : ∀ w' ∈ [w.removeNode now s, (w.removeNode now s).removeEdgesFor later s],
      w'.linearize = (w.removeNode now s).linearize := by
    intro w' hw
    rcases List.mem_cons.mp hw with rfl | hw
    · rfl
    · rw [List.mem_singleton.mp hw, Workflow.linearize_removeEdgesFor hout]
  obtain ⟨horder, hexcluded⟩ := Graph.arrange_filter (Graph.part_of_sink h)
  intro w' hw
  rw [hsame w' hw]
  refine ⟨horder, hexcluded, ?_⟩
  obtain ⟨before, after, hwhole, hrest⟩ :=
    exists_sections_of_nodup (Graph.sequenced_arrange w.nodes w.edges).nodup s
  exact ⟨before, after, hwhole, (congrArg sections horder).trans hrest⟩

/-- The end of the sketch goes, and its section with it. The edge into it and its loose end
may stay. -/
theorem remove_sink_of_sketch :
    sketch.IsSink "end" ∧
    ∀ w' ∈ [sketch.removeNode 5 "end", (sketch.removeNode 5 "end").removeEdgesFor 6 "end"],
      w'.linearize.ids = ["start", "ask"] ∧ w'.linearize.excludedIds = ["again"] ∧
      sections sketch.linearize.order = ["## Prompt\nRead the change.", "## Output\nReturn the result."] ∧
      sections w'.linearize.order = ["## Prompt\nRead the change."] := by
  have hsink : sketch.IsSink "end" := by decide +kernel
  refine ⟨hsink, fun w' hw => ?_⟩
  obtain ⟨horder, hexcluded, -⟩ := remove_sink hsink 5 6 w' hw
  rw [Graph.Linearization.ids, Graph.Linearization.excludedIds, horder, hexcluded]
  decide +kernel

end Document
end Runbook
