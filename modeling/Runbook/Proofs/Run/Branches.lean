import Runbook.Proofs.Graph.Cycle
import Runbook.Proofs.Run.Slots

/-!
# Open branches

Which nodes a run can still reach. `Plan.Open` says so by paths: from a node that
waits for nothing, along edges that no completed decision has closed. The
tracker finds the same by one pass along the sequence (`mem_deadNodes_iff`), and
what it offers is `Plan.Free` (`mem_eligible_iff`). Completing more nodes closes
edges and opens none (`Open.anti`).
-/

namespace Runbook.Run

namespace Plan

/-- What a plan made from a workflow keeps to: its edges join its nodes, and its
sequence is one of its graph. -/
structure Sound (p : Plan) : Prop where
  ids_nodup : p.ids.Nodup
  source_mem : ∀ e ∈ p.links, e.source ∈ p.ids
  target_mem : ∀ e ∈ p.links, e.target ∈ p.ids
  sequenced : Graph.Sequenced p.ids p.links p.order

theorem sound_ofWorkflow (w : Workflow) : (ofWorkflow w).Sound where
  ids_nodup := Graph.firsts_nodup w.nodes
  source_mem := fun _ => Graph.links_source
  target_mem := fun _ => Graph.links_target
  sequenced := Graph.sequenced_arrange w.nodes w.edges

theorem mem_incoming_iff {p : Plan} {id : String} {e : Edge} :
    e ∈ p.incoming id ↔ e ∈ p.links ∧ e.target = id := by
  simp [incoming]

theorem Sound.source_mem_order {p : Plan} (h : p.Sound) {id : String} (hid : id ∈ p.order)
    {e : Edge} (he : e ∈ p.incoming id) : e.source ∈ p.order := by
  obtain ⟨hlink, htarget⟩ := mem_incoming_iff.mp he
  exact h.sequenced.forward.source_mem hlink (htarget ▸ hid)

/-- Induction along the sequence of a plan. -/
theorem Sound.induction {p : Plan} (h : p.Sound) {P : String → Prop}
    (step : ∀ id ∈ p.order, (∀ e ∈ p.incoming id, P e.source) → P id) :
    ∀ id ∈ p.order, P id :=
  h.sequenced.forward.induction fun id hid ih =>
    step id hid fun e he => ih e (mem_incoming_iff.mp he).1 (mem_incoming_iff.mp he).2

/-! ## Open paths -/

/-- The edge leaves a completed decision by a handle that was not selected. -/
def Closed (p : Plan) (r : Record) (e : Edge) : Prop :=
  p.kind? e.source = some .decision ∧ (r.slot e.source).status = .completed ∧
    e.sourceHandle ≠ (r.slot e.source).selectedHandle

/-- A path leads to the id from one without incoming edges, along edges of which
none is closed. -/
inductive Open (p : Plan) (r : Record) : String → Prop
  | root {id : String} : id ∈ p.ids → p.incoming id = [] → Open p r id
  | follow {e : Edge} : e ∈ p.links → Open p r e.source → ¬ p.Closed r e → Open p r e.target

variable {p : Plan} {r r' : Record} {id : String}

theorem open_iff : p.Open r id ↔
    (id ∈ p.ids ∧ p.incoming id = []) ∨
      ∃ e ∈ p.incoming id, p.Open r e.source ∧ ¬ p.Closed r e := by
  constructor
  · intro h
    cases h with
    | root hid hnone => exact .inl ⟨hid, hnone⟩
    | @follow e he hsource hclosed =>
        exact .inr ⟨e, mem_incoming_iff.mpr ⟨he, rfl⟩, hsource, hclosed⟩
  · rintro (⟨hid, hnone⟩ | ⟨e, he, hsource, hclosed⟩)
    · exact .root hid hnone
    · obtain ⟨hlink, rfl⟩ := mem_incoming_iff.mp he
      exact .follow hlink hsource hclosed

theorem isDeadEdge_iff {dead : List String} {e : Edge} :
    p.isDeadEdge r dead e = true ↔ e.source ∈ dead ∨ p.Closed r e := by
  simp [isDeadEdge, Closed, and_assoc]

/-- The test by which the tracker finds dead nodes along the sequence. -/
def allDead (p : Plan) (r : Record) (dead : List String) (id : String) : Bool :=
  !(p.incoming id).isEmpty && (p.incoming id).all (p.isDeadEdge r dead)

theorem deadNodes_eq_scan (p : Plan) (r : Record) :
    p.deadNodes r = Graph.scan (p.allDead r) p.order := rfl

theorem allDead_congr {dead dead' : List String}
    (h : ∀ e ∈ p.links, e.target = id → (e.source ∈ dead ↔ e.source ∈ dead')) :
    p.allDead r dead id = p.allDead r dead' id := by
  have hedge : ∀ e ∈ p.incoming id, p.isDeadEdge r dead e = p.isDeadEdge r dead' e := by
    intro e he
    obtain ⟨hlink, htarget⟩ := mem_incoming_iff.mp he
    rw [Bool.eq_iff_iff, isDeadEdge_iff, isDeadEdge_iff, h e hlink htarget]
  have hall : (p.incoming id).all (p.isDeadEdge r dead) =
      (p.incoming id).all (p.isDeadEdge r dead') := by
    rw [Bool.eq_iff_iff, List.all_eq_true, List.all_eq_true]
    exact forall₂_congr fun e he => by rw [hedge e he]
  rw [allDead, allDead, hall]

/-- **Dead is not open**: what one pass along the sequence finds dead are the
nodes of the sequence that no open path reaches. -/
theorem mem_deadNodes_iff (h : p.Sound) (r : Record) :
    ∀ id ∈ p.order, (id ∈ p.deadNodes r ↔ ¬ p.Open r id) := by
  refine h.induction fun id hid ih => ?_
  rw [deadNodes_eq_scan, Graph.mem_scan_iff h.sequenced.nodup h.sequenced.forward
    (fun _ _ _ => allDead_congr) id hid, ← deadNodes_eq_scan, open_iff]
  have hedge : ∀ e ∈ p.incoming id,
      (p.isDeadEdge r (p.deadNodes r) e = true ↔ ¬ (p.Open r e.source ∧ ¬ p.Closed r e)) := by
    intro e he
    rw [isDeadEdge_iff, ih e he, not_and_not_right, imp_iff_not_or]
  have hmem := h.sequenced.subset id hid
  -- a node without incoming edges is open, and never dead
  by_cases hnone : p.incoming id = []
  · simp [allDead, hnone, hmem]
  · simp only [allDead, hnone, and_false, false_or, Bool.and_eq_true, Bool.not_eq_true',
      List.isEmpty_eq_false_iff, ne_eq, not_false_eq_true, true_and, List.all_eq_true, not_exists,
      not_and]
    exact forall₂_congr fun e he => by rw [hedge e he, not_and]

/-! ## Nodes that may begin -/

/-- A node that may begin when nothing runs: it is pending, an open path leads to
it, and it waits for no node that is still open. -/
structure Free (p : Plan) (r : Record) (id : String) : Prop where
  mem : id ∈ p.order
  pending : (r.slot id).status = .pending
  opened : p.Open r id
  settled : ∀ e ∈ p.incoming id, ¬ p.Closed r e → p.Open r e.source →
    (r.slot e.source).status = .completed

theorem mem_live_iff (h : p.Sound) (hid : id ∈ p.order) {e : Edge} :
    e ∈ (p.incoming id).filter (fun e => !p.isDeadEdge r (p.deadNodes r) e) ↔
      e ∈ p.incoming id ∧ ¬ p.Closed r e ∧ p.Open r e.source := by
  rw [List.mem_filter]
  refine and_congr_right fun he => ?_
  rw [Bool.not_eq_true', ← Bool.not_eq_true, isDeadEdge_iff,
    mem_deadNodes_iff h r e.source (h.source_mem_order hid he), not_or, not_not, and_comm]

/-- The test by which the tracker finds the nodes that may begin. -/
def mayBegin (p : Plan) (r : Record) (id : String) : Bool :=
  !(p.deadNodes r).contains id && (r.slot id).status == .pending && p.isReady r (p.deadNodes r) id

/-- The nodes that may begin, in sequence. -/
def free (p : Plan) (r : Record) : List String := p.order.filter (p.mayBegin r)

theorem mayBegin_iff (h : p.Sound) (hid : id ∈ p.order) :
    p.mayBegin r id = true ↔ p.Free r id := by
  have hready : p.Open r id → (p.isReady r (p.deadNodes r) id = true ↔
      ∀ e ∈ p.incoming id, ¬ p.Closed r e → p.Open r e.source →
        (r.slot e.source).status = .completed) := by
    intro hopen
    simp only [isReady, Bool.or_eq_true, List.isEmpty_iff, Bool.and_eq_true, Bool.not_eq_true',
      List.isEmpty_eq_false_iff, List.all_eq_true, beq_iff_eq]
    constructor
    · rintro (hnone | ⟨-, hall⟩) e he hclosed hsource
      · simp [hnone] at he
      · exact hall e ((mem_live_iff h hid).mpr ⟨he, hclosed, hsource⟩)
    · intro hall
      -- an open node has a live edge unless it has none at all
      rcases open_iff.mp hopen with ⟨-, hnone⟩ | ⟨e, he, hsource, hclosed⟩
      · exact .inl hnone
      · refine .inr ⟨List.ne_nil_of_mem ((mem_live_iff h hid).mpr ⟨he, hclosed, hsource⟩), ?_⟩
        intro e' he'
        obtain ⟨hin, hclosed', hsource'⟩ := (mem_live_iff h hid).mp he'
        exact hall e' hin hclosed' hsource'
  simp only [mayBegin, Bool.and_eq_true, Bool.not_eq_true', List.contains_eq_mem,
    decide_eq_false_iff_not, beq_iff_eq, mem_deadNodes_iff h r id hid, not_not]
  constructor
  · rintro ⟨⟨hopen, hpending⟩, hisReady⟩
    exact ⟨hid, hpending, hopen, (hready hopen).mp hisReady⟩
  · rintro ⟨-, hpending, hopen, hsettled⟩
    exact ⟨⟨hopen, hpending⟩, (hready hopen).mpr hsettled⟩

theorem mem_free_iff (h : p.Sound) : id ∈ p.free r ↔ p.Free r id := by
  rw [free, List.mem_filter]
  constructor
  · rintro ⟨hid, htest⟩
    exact (mayBegin_iff h hid).mp htest
  · intro hfree
    exact ⟨hfree.mem, (mayBegin_iff h hfree.mem).mpr hfree⟩

/-- What may begin is listed unless the run is over or a node runs, and then
a loop that has begun comes first. -/
theorem eligible_eq (p : Plan) (r : Record) :
    p.eligible r = if r.isFinal || r.runningNode.isSome then [] else
      (p.free r).filter (fun id => 0 < (r.slot id).iterations) ++ (p.free r).filter fun id =>
        !((p.free r).filter (fun id => 0 < (r.slot id).iterations)).contains id := rfl

theorem mem_eligible_iff (h : p.Sound) :
    id ∈ p.eligible r ↔ r.isFinal = false ∧ r.runningNode = none ∧ p.Free r id := by
  rw [eligible_eq, ← mem_free_iff h]
  cases r.isFinal <;> cases r.runningNode <;> simp
  rcases Nat.eq_zero_or_pos (r.slot id).iterations with hzero | hpos
  · simp [hzero]
  · simp [hpos, Nat.ne_of_gt hpos]

/-! ## What stays -/

/-- Completed nodes stay as they are. -/
def Keeps (r r' : Record) : Prop :=
  ∀ id, (r.slot id).status = .completed → r'.slot id = r.slot id

theorem Keeps.closed_iff (h : Keeps r r') {e : Edge}
    (hsource : (r.slot e.source).status = .completed) : p.Closed r' e ↔ p.Closed r e := by
  rw [Closed, Closed, h e.source hsource]

theorem Closed.mono (h : Keeps r r') {e : Edge} (hclosed : p.Closed r e) : p.Closed r' e :=
  (h.closed_iff hclosed.2.1).mpr hclosed

/-- **Branches only close.** -/
theorem Open.anti (h : Keeps r r') (hopen : p.Open r' id) : p.Open r id := by
  induction hopen with
  | root hid hnone => exact .root hid hnone
  | follow he _ hclosed ih => exact .follow he ih fun hc => hclosed (hc.mono h)

/-- A node that may begin, or could when it did: it comes from a completed node,
and what it waits for is completed or closed off. -/
structure Ready (p : Plan) (r : Record) (id : String) : Prop where
  entered : p.incoming id = [] ∨
    ∃ e ∈ p.incoming id, (r.slot e.source).status = .completed ∧ ¬ p.Closed r e
  settled : ∀ e ∈ p.incoming id, ¬ p.Closed r e → p.Open r e.source →
    (r.slot e.source).status = .completed

theorem Free.ready (h : p.Free r id) : p.Ready r id where
  entered := by
    rcases open_iff.mp h.opened with ⟨-, hnone⟩ | ⟨e, he, hsource, hclosed⟩
    · exact .inl hnone
    · exact .inr ⟨e, he, h.settled e he hclosed hsource, hclosed⟩
  settled := h.settled

theorem Ready.mono (hkeeps : Keeps r r') (h : p.Ready r id) : p.Ready r' id where
  entered := by
    refine h.entered.imp_right fun ⟨e, he, hsource, hclosed⟩ => ⟨e, he, ?_, ?_⟩
    · rw [hkeeps e.source hsource]
      exact hsource
    · rwa [hkeeps.closed_iff hsource]
  settled := by
    intro e he hclosed hopen
    have hsource := h.settled e he (fun hc => hclosed (hc.mono hkeeps)) (hopen.anti hkeeps)
    rw [hkeeps e.source hsource]
    exact hsource

end Plan

end Runbook.Run
