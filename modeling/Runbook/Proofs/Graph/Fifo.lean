import Mathlib.Data.Prod.Lex
import Runbook.Proofs.Graph.Cycle

/-!
# The order of the queue

Which ids a sequence serves first. An id is released by the last of its sources;
what is released earlier comes earlier, and what one step releases keeps the
order of the node list. The rule speaks of places in the very sequence that it
orders, and still only one sequence of given ids keeps to it
(`Served.eq_of_perm`). Main statement: `arrange_serves_first_released_first`.
-/

namespace Runbook.Graph

variable {ids order other : List String} {links : List Edge} {id : String}

/-! ## The rule -/

/-- The step that releases an id: the place in the sequence of the last of its
sources, and -1 for an id without sources, which is free before the first step. -/
def release (links : List Edge) (order : List String) (id : String) : Int :=
  ((links.filter (·.target == id)).map fun e => (order.idxOf e.source : Int)).foldr max (-1)

theorem release_le_iff {n : Int} (hn : -1 ≤ n) :
    release links order id ≤ n ↔
      ∀ e ∈ links, e.target = id → (order.idxOf e.source : Int) ≤ n := by
  induction links with
  | nil => simpa [release] using hn
  | cons e rest ih =>
      by_cases htarget : e.target = id
      · have hcons : release (e :: rest) order id =
            max (order.idxOf e.source : Int) (release rest order id) := by
          simp [release, htarget]
        rw [hcons, max_le_iff, ih, List.forall_mem_cons]
        simp [htarget]
      · have hcons : release (e :: rest) order id = release rest order id := by
          simp [release, htarget]
        rw [hcons, ih, List.forall_mem_cons]
        simp [htarget]

theorem neg_one_le_release (links : List Edge) (order : List String) (id : String) :
    -1 ≤ release links order id := by
  rw [release]
  induction (links.filter (·.target == id)).map fun e => (order.idxOf e.source : Int) with
  | nil => exact le_refl _
  | cons _ _ ih => exact le_max_of_le_right ih

theorem le_release {e : Edge} (he : e ∈ links) (order : List String) :
    (order.idxOf e.source : Int) ≤ release links order e.target :=
  (release_le_iff (neg_one_le_release ..)).mp (le_refl _) e he rfl

theorem release_lt_iff {n : Nat} :
    release links order id < n ↔ ∀ e ∈ links, e.target = id → order.idxOf e.source < n := by
  rw [← Int.le_sub_one_iff, release_le_iff (by omega)]
  refine forall₃_congr fun e _ _ => ?_
  omega

/-- A release looks at the places of sources only. -/
theorem release_congr
    (h : ∀ e ∈ links, e.target = id → order.idxOf e.source = other.idxOf e.source) :
    release links order id = release links other id := by
  rw [release, release, List.map_congr_left fun e he => ?_]
  obtain ⟨hlink, htarget⟩ := List.mem_filter.mp he
  rw [h e hlink (by simpa using htarget)]

/-- What a sequence serves by: the release of an id, and after that its place in
the node list. -/
def rank (ids : List String) (links : List Edge) (order : List String) (id : String) :
    Int ×ₗ Nat :=
  toLex (release links order id, ids.idxOf id)

theorem rank_lt_iff {a b : String} :
    rank ids links order a < rank ids links order b ↔
      release links order a < release links order b ∨
        release links order a = release links order b ∧ ids.idxOf a < ids.idxOf b :=
  Prod.Lex.toLex_lt_toLex

/-- A sequence that serves its ids by their rank in it. -/
def Served (ids : List String) (links : List Edge) (order : List String) : Prop :=
  order.Pairwise fun a b => rank ids links order a < rank ids links order b

/-! ## One sequence only -/

/-- **Links go forward** in a sequence that serves by rank, if it has their sources
and none joins an id with itself. -/
theorem Served.forward (h : Served ids links order)
    (hsource : ∀ e ∈ links, e.target ∈ order → e.source ∈ order ∧ e.source ≠ e.target) :
    Forward links order := by
  have hplaces := List.pairwise_iff_getElem.mp h
  -- a link that went backward would lead to a later id with the same fault
  have hrelease : ∀ k id, id ∈ order → order.length - order.idxOf id = k →
      ∀ e ∈ links, e.target = id → order.idxOf e.source < order.idxOf id := by
    intro k
    induction k using Nat.strongRecOn with
    | _ k ih =>
        rintro _ hid hk e he rfl
        by_contra hback
        obtain ⟨hmem, hne⟩ := hsource e he hid
        have hlt : order.idxOf e.target < order.idxOf e.source :=
          Nat.lt_of_le_of_ne (Nat.not_lt.mp hback) fun heq =>
            hne ((List.idxOf_inj hid).mp heq).symm
        have hbound := List.idxOf_lt_length_of_mem hmem
        have hlater : release links order e.source < (order.idxOf e.source : Int) :=
          release_lt_iff.mpr (ih _ (by omega) e.source hmem rfl)
        have hrank := hplaces _ _ (List.idxOf_lt_length_of_mem hid) hbound hlt
        rw [List.getElem_idxOf, List.getElem_idxOf, rank_lt_iff] at hrank
        have hle := le_release he order
        rcases hrank with hrank | ⟨hrank, -⟩ <;> omega
  exact fun e he ht => hrelease _ e.target ht rfl e he rfl

/-- The place of an id behind a part of a sequence is at least the part's length. -/
theorem mem_of_idxOf_lt_length {done rest : List String}
    (h : (done ++ rest).idxOf id < done.length) : id ∈ done := by
  by_contra hout
  rw [List.idxOf_append_of_notMem hout] at h
  omega

/-- What comes next in a sequence has all its sources before it, and its rank can
be read off the part before it. -/
theorem rank_of_next {done rest rest' : List String}
    (hnodup : (done ++ id :: rest).Nodup) (hforward : Forward links (done ++ id :: rest)) :
    rank ids links (done ++ rest') id = rank ids links (done ++ id :: rest) id := by
  have hplace : (done ++ id :: rest).idxOf id = done.length := by
    have hout : id ∉ done := fun hin =>
      (List.nodup_append.mp hnodup).2.2 id hin id List.mem_cons_self rfl
    rw [List.idxOf_append_of_notMem hout, List.idxOf_cons_self, Nat.add_zero]
  have hrelease : release links (done ++ rest') id = release links (done ++ id :: rest) id := by
    refine release_congr fun e he ht => ?_
    have hlt := hforward e he (by simp [ht])
    rw [ht, hplace] at hlt
    have hmem := mem_of_idxOf_lt_length hlt
    rw [List.idxOf_append_of_mem hmem, List.idxOf_append_of_mem hmem]
  rw [rank, rank, hrelease]

/-- Two sequences of the same ids that serve by rank go on in the same way behind
a common part. -/
theorem Served.rest_eq (hnodup : order.Nodup) (hforward : Forward links order)
    (hforward' : Forward links other) (h : Served ids links order) (h' : Served ids links other)
    (hperm : other.Perm order) : ∀ rest rest' done : List String,
      order = done ++ rest → other = done ++ rest' → rest' = rest := by
  intro rest
  induction rest with
  | nil =>
      intro rest' done horder hother
      have hlength := hperm.length_eq
      rw [horder, hother, List.length_append, List.length_append, List.length_nil] at hlength
      exact List.eq_nil_of_length_eq_zero (by omega)
  | cons a rest ih =>
      intro rest' done horder hother
      have hrest : rest'.Perm (a :: rest) := by
        rw [horder, hother] at hperm
        exact (List.perm_append_left_iff done).mp hperm
      cases rest' with
      | nil => exact absurd hrest.symm.eq_nil (List.cons_ne_nil a rest)
      | cons b rest' =>
          by_cases heq : b = a
          · subst heq
            have htail := ih rest' (done ++ [b]) (by simpa using horder) (by simpa using hother)
            rw [htail]
          · -- else each of the two would have to come before the other
            have hb : b ∈ rest :=
              List.mem_of_ne_of_mem heq (hrest.subset List.mem_cons_self)
            have ha : a ∈ rest' :=
              List.mem_of_ne_of_mem (Ne.symm heq) (hrest.symm.subset List.mem_cons_self)
            have hnodup' := hperm.nodup_iff.mpr hnodup
            subst horder hother
            have hab := (List.pairwise_cons.mp (List.pairwise_append.mp h).2.1).1 b hb
            have hba := (List.pairwise_cons.mp (List.pairwise_append.mp h').2.1).1 a ha
            have ha' : rank ids links (done ++ b :: rest') a = rank ids links (done ++ a :: rest) a :=
              rank_of_next hnodup hforward
            have hb' : rank ids links (done ++ a :: rest) b = rank ids links (done ++ b :: rest') b :=
              rank_of_next hnodup' hforward'
            rw [hb'] at hab
            rw [ha'] at hba
            exact absurd hab (lt_asymm hba)

/-- **The rule admits one sequence only.** -/
theorem Served.eq_of_perm (hnodup : order.Nodup) (hforward : Forward links order)
    (h : Served ids links order) (h' : Served ids links other) (hperm : other.Perm order) :
    other = order := by
  refine Served.rest_eq hnodup hforward (h'.forward fun e he ht => ?_) h h' hperm order other []
    rfl rfl
  have htarget := hperm.subset ht
  refine ⟨hperm.symm.subset (hforward.source_mem he htarget), fun heq => ?_⟩
  have hlt := hforward e he htarget
  rw [heq] at hlt
  exact Nat.lt_irrefl _ hlt

/-! ## The sweep keeps to the rule -/

namespace Sweep

variable {s : Sweep} {current : String} {waiting : List String}

/-- Ids that are released together keep the order of the node list. -/
theorem served_of_release_eq (hids : ids.Nodup) {batch : List String} (hbatch : batch.Sublist ids)
    {k : Int} (hstep : ∀ id ∈ batch, release links order id = k) :
    batch.Pairwise fun a b => rank ids links order a < rank ids links order b := by
  refine ((pairwise_idxOf hids).sublist hbatch).imp_of_mem fun {a b} ha hb hlt => ?_
  rw [rank_lt_iff, hstep a ha, hstep b hb]
  exact .inr ⟨rfl, hlt⟩

theorem Exact.release_lt (h : Exact ids links s) (hid : id ∈ s.queue ++ s.placed)
    (rest : List String) : release links (s.placed ++ rest) id < s.placed.length := by
  refine release_lt_iff.mpr fun e he ht => ?_
  have hmem := h.source_mem hid e he ht
  rw [List.idxOf_append_of_mem hmem]
  exact List.idxOf_lt_length_of_mem hmem

/-- What a step frees is released by the id that the step places. -/
theorem Exact.release_eq (h : Exact ids links s) (hqueue : s.queue = current :: waiting)
    (hid : id ∈ ids) (hfreed : id ∈ (closing links s current).2) (rest : List String) :
    release links (s.placed ++ current :: rest) id = s.placed.length := by
  obtain ⟨hbefore, hafter⟩ := (h.mem_released_iff hqueue hid).mp hfreed
  rw [h.get_closing hqueue hid] at hafter
  rw [h.count id hid] at hbefore
  have hplace : (s.placed ++ current :: rest).idxOf current = s.placed.length := by
    rw [List.idxOf_append_of_notMem (h.not_mem_placed hqueue), List.idxOf_cons_self, Nat.add_zero]
  have hsources := openInto_eq_zero_iff.mp (by omega : openInto links (s.placed ++ [current]) id = 0)
  refine le_antisymm ((release_le_iff (by omega)).mpr fun e he ht => ?_) ?_
  · rcases List.mem_append.mp (hsources e he ht) with hmem | hmem
    · have hlt := List.idxOf_lt_length_of_mem hmem
      rw [List.idxOf_append_of_mem hmem]
      omega
    · rw [List.mem_singleton.mp hmem, hplace]
  · -- some link into the id was still open, and only the placed id could close it
    have hopen : ¬ ∀ e ∈ links, e.target = id → e.source ∈ s.placed := by
      rw [← openInto_eq_zero_iff]
      omega
    push Not at hopen
    obtain ⟨e, he, rfl, hout⟩ := hopen
    have hsource : e.source = current := by
      simpa [hout] using hsources e he rfl
    have hle := le_release he (s.placed ++ current :: rest)
    rwa [hsource, hplace] at hle

theorem served_start (hids : ids.Nodup) (links : List Edge) :
    Served ids links ((start ids links).placed ++ (start ids links).queue) := by
  have hexact := exact_start hids links
  refine served_of_release_eq (k := -1) hids List.filter_sublist fun id hid => ?_
  have hnone : ∀ e ∈ links, ¬ (e.target == id) = true := by
    intro e he ht
    have hmem := hexact.source_mem (List.mem_append_left _ hid) e he (by simpa using ht)
    simp [start] at hmem
  rw [release, List.filter_eq_nil_iff.mpr hnone]
  rfl

/-- **The step of the rule**: what is placed or queued stays as it is, and what the
step frees comes behind it. -/
theorem served_step (hids : ids.Nodup) (h : Exact ids links s)
    (hserved : Served ids links (s.placed ++ s.queue)) :
    Served ids links ((s.step ids links).placed ++ (s.step ids links).queue) := by
  cases hqueue : s.queue with
  | nil => simpa [step, hqueue] using hserved
  | cons current waiting =>
      let freed := ids.filter ((closing links s current).2.contains ·)
      have hlist : (s.step ids links).placed ++ (s.step ids links).queue =
          s.placed ++ (s.queue ++ freed) := by
        rw [step_eq hqueue, hqueue]
        simp [freed]
      have hlast : ∀ id ∈ freed, release links (s.placed ++ (s.queue ++ freed)) id =
          s.placed.length := by
        intro id hid
        obtain ⟨hmem, hcontains⟩ := List.mem_filter.mp hid
        rw [hqueue]
        exact h.release_eq hqueue hmem (by simpa using hcontains) (waiting ++ freed)
      rw [hlist, Served, ← List.append_assoc, List.pairwise_append, List.append_assoc]
      refine ⟨?_, served_of_release_eq hids List.filter_sublist hlast, ?_⟩
      · have hsame : ∀ id ∈ s.placed ++ s.queue,
            rank ids links (s.placed ++ (s.queue ++ freed)) id =
              rank ids links (s.placed ++ s.queue) id := by
          intro id hid
          have hsources := h.source_mem (List.perm_append_comm.subset hid)
          rw [rank, rank, release_congr fun e he ht => ?_]
          rw [List.idxOf_append_of_mem (hsources e he ht),
            List.idxOf_append_of_mem (hsources e he ht)]
        refine hserved.imp_of_mem fun {a b} ha hb hlt => ?_
        rw [hsame a ha, hsame b hb]
        exact hlt
      · intro a ha b hb
        rw [rank_lt_iff, hlast b hb]
        exact .inl (h.release_lt (List.perm_append_comm.subset ha) _)

theorem served_run (hids : ids.Nodup) : ∀ (n : Nat) {s : Sweep}, Exact ids links s →
    Served ids links (s.placed ++ s.queue) →
    Served ids links ((s.run ids links n).placed ++ (s.run ids links n).queue) := by
  intro n
  induction n with
  | zero => intro s _ hserved; exact hserved
  | succ n ih => intro s h hserved; exact ih (h.step hids) (served_step hids h hserved)

theorem served_finish (hids : ids.Nodup) (links : List Edge) :
    Served ids links (finish ids links).placed := by
  have hserved := served_run hids ids.length (exact_start hids links) (served_start hids links)
  have hempty : ((start ids links).run ids links ids.length).queue = [] := finish_queue hids links
  rw [hempty, List.append_nil] at hserved
  exact hserved

end Sweep

theorem served_arrange (nodes : List Node) (edges : List Edge) :
    Served (known nodes) (Graph.links (known nodes) edges) (arrange nodes edges).ids := by
  rw [arrange_ids]
  exact Sweep.served_finish (firsts_nodup nodes) _

/-- Nodes that a look-up finds are known by their ids. -/
theorem filterMap_find?_map_id {nodes l : List Node}
    (h : ∀ n ∈ l, nodes.find? (·.id == n.id) = some n) :
    (l.map (·.id)).filterMap (fun id => nodes.find? (·.id == id)) = l := by
  induction l with
  | nil => rfl
  | cons n rest ih =>
      obtain ⟨hn, hrest⟩ := List.forall_mem_cons.mp h
      rw [List.map_cons, List.filterMap_cons, hn, ih hrest]

/-- **A sequence serves first what is released first**, and in the order of the node
list what is released together; and it is the only arrangement of its nodes that
does. -/
theorem arrange_serves_first_released_first (nodes : List Node) (edges : List Edge) :
    let order := (arrange nodes edges).order
    Served (known nodes) (Graph.links (known nodes) edges) (order.map (·.id)) ∧
    ∀ other : List Node, other.Perm order →
      Served (known nodes) (Graph.links (known nodes) edges) (other.map (·.id)) →
      other = order := by
  intro order
  refine ⟨served_arrange nodes edges, fun other hperm hserved => ?_⟩
  have hsequenced := sequenced_arrange nodes edges
  have hids : other.map (·.id) = order.map (·.id) :=
    (served_arrange nodes edges).eq_of_perm hsequenced.nodup hsequenced.forward hserved
      (hperm.map _)
  have hfound : ∀ n ∈ order, nodes.find? (·.id == n.id) = some n :=
    fun n hn => (mem_order_iff.mp hn).1
  rw [← filterMap_find?_map_id hfound, ← hids]
  exact (filterMap_find?_map_id fun n hn => hfound n (hperm.subset hn)).symm

end Runbook.Graph
