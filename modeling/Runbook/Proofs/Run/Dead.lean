import Runbook.Proofs.Run.Branches

/-!
# Dead nodes are cut off

The tracker calls a node dead if every edge into it is, which is a rule on one node and is asked once
of each, along the sequence. The nodes that it finds are those to which no path of the workflow leads
any more. This holds for every record, not only for those that calls can reach, since the sequence has
the sources of a node before it. `open_ofWorkflow_iff` tells open paths in terms of the workflow's own
nodes and edges. Main statement: `dead_iff_cut_off`.
-/

namespace Runbook.Run

open Relation

variable {w : Workflow} {r : Record} {e : Edge} {id : String}

/-- The edge leaves a decision that is completed, by a handle other than the selected one. -/
def Untaken (w : Workflow) (r : Record) (e : Edge) : Prop :=
  (∃ n, w.node? e.source = some n ∧ n.kind = .decision) ∧
    (r.slot e.source).status = .completed ∧ e.sourceHandle ≠ (r.slot e.source).selectedHandle

/-- An edge leads from one node to another, and the record does not rule it out. -/
def LeadsOn (w : Workflow) (r : Record) (source target : String) : Prop :=
  ∃ e ∈ w.edges, e.source = source ∧ e.target = target ∧
    source ∈ w.nodeIds ∧ target ∈ w.nodeIds ∧ ¬ Untaken w r e

/-- A node that no edge between nodes enters. -/
def IsEntry (w : Workflow) (id : String) : Prop :=
  id ∈ w.nodeIds ∧ ∀ source, ¬ Graph.Joins w.nodes w.edges source id

namespace Plan

theorem kind?_ofWorkflow_iff {kind : NodeKind} :
    (ofWorkflow w).kind? id = some kind ↔ ∃ n, w.node? id = some n ∧ n.kind = kind := by
  have hnode : (ofWorkflow w).node? id = w.node? id := Graph.find?_firsts w.nodes id
  rw [kind?, hnode, Option.map_eq_some_iff]

theorem closed_ofWorkflow_iff : (ofWorkflow w).Closed r e ↔ Untaken w r e := by
  rw [Closed, Untaken, kind?_ofWorkflow_iff]

theorem mem_links_ofWorkflow_iff :
    e ∈ (ofWorkflow w).links ↔ e ∈ w.edges ∧ e.source ∈ w.nodeIds ∧ e.target ∈ w.nodeIds := by
  have hlinks : (ofWorkflow w).links = Graph.links (Graph.known w.nodes) w.edges := rfl
  rw [hlinks, Graph.mem_links_iff, Graph.known, Graph.mem_firsts_ids_iff, Graph.mem_firsts_ids_iff]
  rfl

theorem mem_ids_ofWorkflow_iff : id ∈ (ofWorkflow w).ids ↔ id ∈ w.nodeIds :=
  Graph.mem_firsts_ids_iff

theorem incoming_ofWorkflow_eq_nil_iff :
    (ofWorkflow w).incoming id = [] ↔ ∀ source, ¬ Graph.Joins w.nodes w.edges source id := by
  rw [List.eq_nil_iff_forall_not_mem]
  constructor
  · rintro hnone source ⟨e, he, rfl, rfl, hsource, htarget⟩
    exact hnone e (mem_incoming_iff.mpr ⟨mem_links_ofWorkflow_iff.mpr ⟨he, hsource, htarget⟩, rfl⟩)
  · intro hnone e he
    obtain ⟨hlink, rfl⟩ := mem_incoming_iff.mp he
    obtain ⟨hedge, hsource, htarget⟩ := mem_links_ofWorkflow_iff.mp hlink
    exact hnone e.source ⟨e, hedge, rfl, rfl, hsource, htarget⟩

/-- **Open paths are paths of the workflow** from its entries, along edges that the record does not
rule out. -/
theorem open_ofWorkflow_iff : (ofWorkflow w).Open r id ↔
    ∃ entry, IsEntry w entry ∧ ReflTransGen (LeadsOn w r) entry id := by
  constructor
  · intro h
    induction h with
    | @root id hid hnone =>
        exact ⟨id, ⟨mem_ids_ofWorkflow_iff.mp hid, incoming_ofWorkflow_eq_nil_iff.mp hnone⟩, .refl⟩
    | @follow e he _ hclosed ih =>
        obtain ⟨entry, hentry, hpath⟩ := ih
        obtain ⟨hedge, hsource, htarget⟩ := mem_links_ofWorkflow_iff.mp he
        exact ⟨entry, hentry, hpath.tail
          ⟨e, hedge, rfl, rfl, hsource, htarget, mt closed_ofWorkflow_iff.mpr hclosed⟩⟩
  · rintro ⟨entry, ⟨hid, hnone⟩, hpath⟩
    induction hpath with
    | refl =>
        exact .root (mem_ids_ofWorkflow_iff.mpr hid) (incoming_ofWorkflow_eq_nil_iff.mpr hnone)
    | tail _ hstep ih =>
        obtain ⟨e, he, rfl, rfl, hsource, htarget, htaken⟩ := hstep
        exact .follow (mem_links_ofWorkflow_iff.mpr ⟨he, hsource, htarget⟩) ih
          (mt closed_ofWorkflow_iff.mp htaken)

/-- **Dead is cut off**: whatever a record says of the nodes, those that the tracker finds dead are
the nodes of the sequence to which no path leads from an entry along edges that the record does not
rule out. They are found in sequence, and once each. -/
theorem dead_iff_cut_off (w : Workflow) (r : Record) :
    let dead := (ofWorkflow w).deadNodes r
    dead.Sublist w.linearize.ids ∧ dead.Nodup ∧
      ∀ id, id ∈ dead ↔ id ∈ w.linearize.ids ∧
        ¬ ∃ entry, IsEntry w entry ∧ ReflTransGen (LeadsOn w r) entry id := by
  intro dead
  have hsound := sound_ofWorkflow w
  have hsublist : dead.Sublist w.linearize.ids := Graph.scan_sublist _ _
  refine ⟨hsublist, hsound.sequenced.nodup.sublist hsublist, fun id => ?_⟩
  rw [← open_ofWorkflow_iff]
  constructor
  · intro hdead
    have hid := hsublist.subset hdead
    exact ⟨hid, (mem_deadNodes_iff hsound r id hid).mp hdead⟩
  · rintro ⟨hid, hcut⟩
    exact (mem_deadNodes_iff hsound r id hid).mpr hcut

end Plan

end Runbook.Run
