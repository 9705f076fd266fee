import Runbook.Proofs.Workflow.RoundTrip

/-!
# Workflows that can be built

A workflow is read from JSON data or is new, and then it is edited (`Workflow.Built`).
Reading a payload only takes settings over from the data, so each operation leaves JSON
data in the settings (`Built.hasJsonSettings`), though most of them check nothing. Hence
every workflow that can be built, and that is put into data, is read back from it.
-/

namespace Runbook

open Decoded

/-- Each value of a map is JSON data. -/
def Entries.HoldJson (entries : Entries) : Prop := ∀ e ∈ entries, e.2.isJson = true

namespace Entries.HoldJson

variable {entries : Entries} {key : Value} {v : Value}

theorem of_isJson (h : (Value.map entries).isJson = true) : entries.HoldJson :=
  fun _ he => Value.isJson_of_mem_entries h he

theorem insert (h : entries.HoldJson) (hv : v.isJson = true) : (entries.insert key v).HoldJson := by
  intro e he
  obtain he | rfl := Entries.mem_insert he
  · exact h e he
  · exact hv

theorem get? (h : entries.HoldJson) (hget : entries.get? key = some v) : v.isJson = true := by
  obtain ⟨e, he, rfl⟩ := Entries.mem_of_get? hget
  exact h e he

theorem find? (h : entries.HoldJson) {f : Field} {p : String × Value} (hf : f.find? entries = some p) :
    p.2.isJson = true := by
  unfold Field.find? at hf
  split at hf
  · next v hv =>
      obtain rfl := Option.some.inj hf
      exact h.get? hv
  · obtain ⟨v, hv, rfl⟩ := Option.map_eq_some_iff.mp hf
    exact h.get? hv

/-- A field has its default or is read from JSON data. -/
theorem withDefault (h : entries.HoldJson) {α : Type} {f : Field} {default a : α}
    {read : Value → Decoded α} (hread : f.withDefault default read entries = .ok a) :
    a = default ∨ ∃ v : Value, v.isJson = true ∧ read v = .ok a := by
  unfold Field.withDefault at hread
  split at hread
  · next key v hfind => exact .inr ⟨v, h.find? hfind, within_eq_ok_iff.mp hread⟩
  · exact .inl (ok.inj hread).symm

end Entries.HoldJson

/-! ## Payloads -/

theorem Settings.isJson_nil : Settings.IsJson [] := rfl

/-- Settings are taken over as they are. -/
theorem isJson_of_withDefault {entries : Entries} (h : entries.HoldJson) {f : Field} {s : Settings}
    (hread : f.withDefault [] Lenient.settings entries = .ok s) : s.IsJson := by
  obtain rfl | ⟨v, hv, hread⟩ := h.withDefault hread
  · exact Settings.isJson_nil
  · rw [Settings.IsJson, ← eq_record_of_settings hread]
    exact hv

theorem Detail.isJson_of_decode {entries : Entries} (h : entries.HoldJson) {kind : NodeKind} {d : Detail}
    (hread : Detail.decode kind entries = .ok d) : d.settings.IsJson := by
  cases kind with
  | action | output =>
      obtain rfl := ok.inj hread
      exact Settings.isJson_nil
  | prompt | decision | loop =>
      obtain ⟨_, -, rfl⟩ := map_eq_ok_iff.mp hread
      exact Settings.isJson_nil
  | subagent =>
      obtain ⟨_, _, hone, -, rfl⟩ := seq_eq_ok_iff.mp hread
      obtain ⟨_, -, rfl⟩ := map_eq_ok_iff.mp hone
      exact Settings.isJson_nil
  | trigger =>
      obtain ⟨_, config, hone, hconfig, rfl⟩ := seq_eq_ok_iff.mp hread
      obtain ⟨_, -, rfl⟩ := map_eq_ok_iff.mp hone
      exact isJson_of_withDefault h hconfig
  | mcpCall =>
      obtain ⟨_, args, htwo, hargs, rfl⟩ := seq_eq_ok_iff.mp hread
      obtain ⟨_, _, hone, -, rfl⟩ := seq_eq_ok_iff.mp htwo
      obtain ⟨_, -, rfl⟩ := map_eq_ok_iff.mp hone
      exact isJson_of_withDefault h hargs

namespace Payload

theorem isJson_of_ofEntries {entries : Entries} (h : entries.HoldJson) {kind : NodeKind} {p : Payload}
    (hread : ofEntries kind entries = .ok p) : p.detail.settings.IsJson := by
  obtain ⟨_, d, hshared, hd, rfl⟩ := seq_eq_ok_iff.mp hread
  obtain ⟨_, _, hthree, -, rfl⟩ := seq_eq_ok_iff.mp hshared
  obtain ⟨_, _, htwo, -, rfl⟩ := seq_eq_ok_iff.mp hthree
  obtain ⟨_, _, hone, -, rfl⟩ := seq_eq_ok_iff.mp htwo
  obtain ⟨_, -, rfl⟩ := map_eq_ok_iff.mp hone
  exact Detail.isJson_of_decode h hd

theorem isJson_blank (kind : NodeKind) : (blank kind).detail.settings.IsJson := by
  cases kind <;> exact Settings.isJson_nil

theorem isJson_of_decode {kind : NodeKind} {v : Value} (hv : v.isJson = true) {p : Payload}
    (hread : decode kind v = .ok p) : p.detail.settings.IsJson := by
  cases v with
  | map entries => exact isJson_of_ofEntries (.of_isJson hv) hread
  | _ => cases hread

theorem snapshot_holdJson {p : Payload} (h : p.detail.settings.IsJson) : p.snapshot.HoldJson := by
  intro e he
  obtain ⟨⟨f, v⟩, hf, rfl⟩ := List.mem_map.mp he
  cases v with
  | none => rfl
  | some x => exact isJson_field h _ hf x rfl

/-- A change takes its values from the payload and from what is given. -/
theorem changed_holdJson {p : Payload} (h : p.detail.settings.IsJson) {changes : Settings}
    (hchanges : changes.IsJson) : (p.changed changes).HoldJson := by
  refine List.foldlRecOn changes _ (motive := Entries.HoldJson) (p.snapshot_holdJson h) fun entries hentries c hc => ?_
  have hvalue : c.2.isJson = true := Value.isJson_of_mem_entries hchanges (List.mem_map_of_mem hc)
  dsimp only
  split
  · exact hentries.insert hvalue
  · exact hentries

theorem isJson_of_update {p q : Payload} (h : p.detail.settings.IsJson) {changes : Settings}
    (hchanges : changes.IsJson) (hupdate : p.update changes = .ok q) : q.detail.settings.IsJson :=
  isJson_of_ofEntries (changed_holdJson h hchanges) (orRefuse_eq_ok_iff.mp hupdate)

end Payload

/-! ## Nodes -/

namespace Node

theorem isJson_of_decode {v : Value} (hv : v.isJson = true) {n : Node} (hread : decode v = .ok n) :
    n.payload.detail.settings.IsJson := by
  unfold decode at hread
  split at hread
  · next entries =>
      split at hread
      · next kind _ =>
          obtain ⟨_, p, hplaced, hdata, rfl⟩ := seq_eq_ok_iff.mp (within_eq_ok_iff.mp hread)
          obtain ⟨_, _, hone, -, rfl⟩ := seq_eq_ok_iff.mp hplaced
          obtain ⟨_, -, rfl⟩ := map_eq_ok_iff.mp hone
          obtain rfl | ⟨v, hv, hp⟩ := Entries.HoldJson.withDefault (.of_isJson hv) hdata
          · exact Payload.isJson_blank kind
          · exact Payload.isJson_of_decode hv hp
      · cases hread
  · cases hread

theorem startingData_holdJson (kind : NodeKind) {given : Entries} (h : (Value.map given).isJson = true) :
    (startingData kind given).HoldJson := by
  refine List.foldlRecOn given _ (motive := Entries.HoldJson) ?_ fun entries hentries e he =>
    hentries.insert (Value.isJson_of_mem_entries h he)
  intro e he
  obtain ⟨d, hd, rfl⟩ := List.mem_map.mp he
  have htemplate : ∀ d ∈ Template.dataFor kind, d.2.isJson = true := by cases kind <;> decide
  exact htemplate d hd

theorem isJson_of_fresh {m : Mint} {kind : NodeKind} {position : Value} {given : Entries} {n : Node}
    (h : (Value.map given).isJson = true) (hfresh : (fresh m kind position given).1 = .ok n) :
    n.payload.detail.settings.IsJson := by
  unfold fresh at hfresh
  split at hfresh
  · cases hfresh
  · obtain ⟨_, p, hplaced, hp, rfl⟩ := seq_eq_ok_iff.mp (orRefuse_eq_ok_iff.mp hfresh)
    obtain ⟨_, -, rfl⟩ := map_eq_ok_iff.mp hplaced
    exact Payload.isJson_of_ofEntries (startingData_holdJson kind h) (within_eq_ok_iff.mp hp)

end Node

/-! ## Workflows -/

/-- What is read of a list is read of one of its items. -/
theorem exists_of_mem_allFrom {α : Type} {read : Value → Decoded α} {items : List Value} {i : Nat}
    {results : List α} (h : allFrom i (items.map read) = .ok results) :
    ∀ a ∈ results, ∃ v ∈ items, read v = .ok a := by
  induction items generalizing i results with
  | nil =>
      obtain rfl := ok.inj h
      exact fun a ha => absurd ha List.not_mem_nil
  | cons v rest ih =>
      obtain ⟨_, more, hfirst, hmore, rfl⟩ := seq_eq_ok_iff.mp h
      obtain ⟨b, hb, rfl⟩ := map_eq_ok_iff.mp hfirst
      intro a ha
      obtain rfl | ha := List.mem_cons.mp ha
      · exact ⟨v, List.mem_cons_self, within_eq_ok_iff.mp hb⟩
      · obtain ⟨u, hu, hread⟩ := ih hmore a ha
        exact ⟨u, List.mem_cons_of_mem _ hu, hread⟩

namespace Workflow

/-- The workflows that can be built. -/
inductive Built : Workflow → Prop
  | decoded {now : Int} {v : Value} {w : Workflow} (hv : v.isJson = true) (h : decode now v = .ok w) : Built w
  | created (m : Mint) (name : String) (description : Option String) : Built (create m name description).1
  | inserted {w : Workflow} (hw : Built w) (now : Int) {m : Mint} {kind : NodeKind} {position : Value}
      {given : Entries} {n : Node} (hgiven : (Value.map given).isJson = true)
      (h : (Node.fresh m kind position given).1 = .ok n) : Built (w.insertNode now n)
  | updated {w w' : Workflow} (hw : Built w) {now : Int} {id : String} {changes : Settings}
      (hchanges : changes.IsJson) (h : w.updateNode now id changes = .ok w') : Built w'
  | moved {w w' : Workflow} (hw : Built w) {now : Int} {id : String} {position : Value}
      (h : w.moveNode now id position = .ok w') : Built w'
  | withoutNode {w : Workflow} (hw : Built w) (now : Int) (id : String) : Built (w.removeNode now id)
  | withoutEdgesFor {w : Workflow} (hw : Built w) (now : Int) (id : String) :
      Built (w.removeEdgesFor now id)
  | connected {w w' : Workflow} (hw : Built w) {m : Mint}
      {source target sourceHandle targetHandle : Value} {id : String}
      (h : (w.connect m source target sourceHandle targetHandle).1 = .ok (w', id)) : Built w'
  | withoutEdge {w : Workflow} (hw : Built w) (now : Int) (id : String) : Built (w.removeEdge now id)
  | relabelled {w : Workflow} (hw : Built w) (now : Int) (id : String) (label : Option String) :
      Built (w.labelEdge now id label)
  | described {w : Workflow} (hw : Built w) (now : Int) (name description icon : Option String) :
      Built (w.describe now name description icon)
  | copied {w : Workflow} (hw : Built w) (m : Mint) : Built (w.duplicate m).1

theorem hasJsonSettings_of_decode {now : Int} {v : Value} {w : Workflow} (hv : v.isJson = true)
    (h : decode now v = .ok w) : w.HasJsonSettings := by
  cases v with
  | map entries =>
      -- the nodes are the fifth of twelve fields, which are joined from the left
      obtain ⟨_, _, h11, -, rfl⟩ := seq_eq_ok_iff.mp h
      obtain ⟨_, _, h10, -, rfl⟩ := seq_eq_ok_iff.mp h11
      obtain ⟨_, _, h9, -, rfl⟩ := seq_eq_ok_iff.mp h10
      obtain ⟨_, _, h8, -, rfl⟩ := seq_eq_ok_iff.mp h9
      obtain ⟨_, _, h7, -, rfl⟩ := seq_eq_ok_iff.mp h8
      obtain ⟨_, _, h6, -, rfl⟩ := seq_eq_ok_iff.mp h7
      obtain ⟨_, _, h5, -, rfl⟩ := seq_eq_ok_iff.mp h6
      obtain ⟨_, nodes, h4, hnodes, rfl⟩ := seq_eq_ok_iff.mp h5
      obtain ⟨_, _, h3, -, rfl⟩ := seq_eq_ok_iff.mp h4
      obtain ⟨_, _, h2, -, rfl⟩ := seq_eq_ok_iff.mp h3
      obtain ⟨_, _, h1, -, rfl⟩ := seq_eq_ok_iff.mp h2
      obtain ⟨_, -, rfl⟩ := map_eq_ok_iff.mp h1
      obtain rfl | ⟨v, hv, hread⟩ := Entries.HoldJson.withDefault (.of_isJson hv) hnodes
      · exact fun n hn => absurd hn List.not_mem_nil
      · cases v with
        | list items =>
            intro n hn
            obtain ⟨v, hmem, hnode⟩ := exists_of_mem_allFrom hread n hn
            exact Node.isJson_of_decode (Value.isJson_of_mem hv hmem) hnode
        | _ => cases hread
  | _ => cases h

theorem hasJsonSettings_of_updateNode {w w' : Workflow} (hw : w.HasJsonSettings) {now : Int} {id : String}
    {changes : Settings} (hchanges : changes.IsJson) (h : w.updateNode now id changes = .ok w') :
    w'.HasJsonSettings := by
  unfold updateNode at h
  split at h
  · obtain rfl := Except.ok.inj h
    exact hw
  · obtain ⟨nodes, hnodes, hdone⟩ := except_bind_eq_ok_iff.mp h
    obtain rfl := Except.ok.inj hdone
    intro n hn
    obtain ⟨m, hm, hread⟩ := exists_of_mem_mapM hnodes hn
    split at hread
    · obtain ⟨p, hp, rfl⟩ := except_map_eq_ok_iff.mp hread
      exact Payload.isJson_of_update (hw m hm) hchanges hp
    · obtain rfl := Except.ok.inj hread
      exact hw m hm

namespace Built

theorem hasJsonSettings {w : Workflow} (h : Built w) : w.HasJsonSettings := by
  induction h with
  | decoded hv h => exact hasJsonSettings_of_decode hv h
  | created m name description =>
      intro n hn
      obtain rfl := List.mem_singleton.mp hn
      exact Settings.isJson_nil
  | inserted _ now hgiven h ih =>
      intro n hn
      obtain hn | hn := List.mem_append.mp hn
      · exact ih n hn
      · obtain rfl := List.mem_singleton.mp hn
        exact Node.isJson_of_fresh hgiven h
  | updated _ hchanges h ih => exact hasJsonSettings_of_updateNode ih hchanges h
  | moved _ h ih =>
      obtain ⟨place, -, rfl⟩ := except_map_eq_ok_iff.mp h
      intro n hn
      obtain ⟨m, hm, rfl⟩ := List.mem_map.mp hn
      split
      · exact ih m hm
      · exact ih m hm
  | withoutNode _ now id ih => exact fun n hn => ih n (List.mem_of_mem_filter hn)
  | connected _ h ih =>
      obtain ⟨e, -, he⟩ := except_map_eq_ok_iff.mp h
      obtain ⟨rfl, -⟩ := Prod.mk.inj he
      exact ih
  | withoutEdgesFor _ _ _ ih | withoutEdge _ _ _ ih | relabelled _ _ _ _ ih | described _ _ _ _ _ ih
  | copied _ _ ih => exact ih

/-- **What can be built can be put into data and read back.** Only settings that nest deeper than the serializer
allows are refused. -/
theorem decode_encode {w : Workflow} (h : Built w) (limit : Nat) :
    (w.nestsWithin limit = true → ∃ v, w.encodeWithin limit = .ok v ∧ ∀ now, decode now v = .ok w) ∧
    (w.nestsWithin limit = false → w.encodeWithin limit = .error .tooDeep) ∧
    ∀ n ∈ w.nodes, ∀ times, n.payload.detail = .loop times → 1 ≤ times.count := by
  refine ⟨fun hlimit => ⟨w.toValue, if_pos hlimit, ?_⟩, fun hdeep => ?_, ?_⟩
  · exact decode_toValue h.hasJsonSettings
  · exact if_neg (by simp [hdeep])
  · exact fun _ _ times _ => times.pos

/-- A new workflow that was renamed. -/
theorem decode_encode_renamed :
    let w := (create ⟨5, 0⟩ "Release" none).1.describe 6 (some "Rollout") none none
    ∃ v, w.encode = .ok v ∧ ∀ now, decode now v = .ok w :=
  (decode_encode ((created ⟨5, 0⟩ "Release" none).described 6 (some "Rollout") none none) Settings.depthLimit).1
    (by decide)

/-- Lists inside one another. -/
def nested : Nat → Value
  | 0 => .null
  | n + 1 => .list [nested n]

theorem depth_nested (n : Nat) : (nested n).depth = n + 1 := by
  induction n with
  | zero => rfl
  | succ n ih => simp [nested, Value.depth, Value.itemsDepth, ih]

theorem isJson_nested (n : Nat) : (nested n).isJson = true := by
  induction n with
  | zero => rfl
  | succ n ih => simp [nested, Value.isJson, Value.itemsAreJson, ih]

/-- A workflow with settings that nest 300 deep. -/
def deepest : Workflow where
  id := "wf"
  name := "Deep"
  description := none
  icon := none
  nodes := [⟨"start", .origin, "", none, none, none, .trigger .manual [("a", nested 299)]⟩]
  edges := []
  createdAt := 1
  updatedAt := 2
  version := defaultVersion
  author := none
  exportTarget := none
  exportPath := none

/-- It is read from JSON data, but no serializer that allows less puts it into data again. -/
theorem deepest_not_encoded :
    Built deepest ∧ deepest.encode = .error .tooDeep ∧
      ∀ limit < 300, deepest.encodeWithin limit = .error .tooDeep := by
  have hsettings : deepest.HasJsonSettings := by
    intro n hn
    obtain rfl := List.mem_singleton.mp hn
    change (Value.record [("a", nested 299)]).isJson = true
    simp [Value.record, Value.isJson, Value.entriesAreJson, Entries.lacks, isJson_nested]
  have hplaces : deepest.HasFinitePlaces := by
    intro n hn
    obtain rfl := List.mem_singleton.mp hn
    exact ⟨rfl, rfl⟩
  have hrefused : ∀ limit < 300, deepest.encodeWithin limit = .error .tooDeep := fun limit hlimit =>
    if_neg (by simp [deepest, nestsWithin, Detail.settings, Settings.nestsWithin, depth_nested]; omega)
  exact ⟨decoded (isJson_toValue hsettings hplaces) (decode_toValue hsettings 0), hrefused _ (by decide), hrefused⟩

end Built

end Workflow

end Runbook
