import Runbook.Proofs.Workflow.Fields

/-!
# Workflows read back

What is written of a workflow reads as that workflow again, when its settings are JSON
data. One lemma for each part gives the part back; the fields of a part are apart from
one another, which is decided on their names.
-/

namespace Runbook

open Decoded

/-- Settings that are JSON data. -/
def Settings.IsJson (s : Settings) : Prop := (Value.record s).isJson = true

/-- The settings in a workflow are JSON data. -/
def Workflow.HasJsonSettings (w : Workflow) : Prop :=
  ∀ n ∈ w.nodes, n.payload.detail.settings.IsJson

theorem Position.fields_apart (p : Position) : FieldsApart (p.fields.map Prod.fst) := by
  show FieldsApart [Field.x, .y]
  decide

theorem Position.decode_toValue (p : Position) : Position.decode p.toValue = .ok p := by
  have hapart := p.fields_apart
  have hx : Field.x.withDefault .zero Lenient.double (fieldEntries p.fields) = .ok p.x :=
    Field.withDefault_fieldEntries hapart (.head _) rfl
  have hy : Field.y.withDefault .zero Lenient.double (fieldEntries p.fields) = .ok p.y :=
    Field.withDefault_fieldEntries hapart (.tail _ (.head _)) rfl
  rw [Position.toValue, ofFields_eq, Position.decode, hx, hy]
  rfl

theorem loopCount_int (times : LoopCount) : Lenient.loopCount (.int times.count) = .ok times := by
  simp [Lenient.loopCount, Lenient.integer, andThen, times.pos]

theorem triggerType_name (t : TriggerType) : TriggerType.decode (.str t.name) = .ok t := by
  simp [TriggerType.decode, Lenient.member, TriggerType.ofName?_name]

theorem target_name (t : Target) : Lenient.optional Target.decode (.str t.name) = .ok (some t) := by
  simp [Lenient.optional, Target.decode, Lenient.member, Target.ofName?_name, Decoded.map]

/-! ## Payloads -/

/-- What is particular to a kind is read back from among other fields. -/
theorem Detail.decode_fields {d : Detail} {fields : List FieldValue}
    (hapart : FieldsApart (fields.map Prod.fst)) (hsub : d.fields ⊆ fields) :
    Detail.decode d.kind (fieldEntries fields) = .ok d := by
  cases d with
  | action | output => rfl
  | prompt text => rw [kind, decode, Field.optionalText_fieldEntries hapart (hsub (.head _)), map_ok]
  | decision condition => rw [kind, decode, Field.optionalText_fieldEntries hapart (hsub (.head _)), map_ok]
  | loop times =>
      rw [kind, decode, Field.withDefault_fieldEntries hapart (hsub (.head _)) (loopCount_int times), map_ok]
  | trigger type config =>
      rw [kind, decode, Field.withDefault_fieldEntries hapart (hsub (.head _)) (triggerType_name type),
        Field.withDefault_fieldEntries hapart (hsub (.tail _ (.head _))) (settings_record config), map_ok, seq_ok]
  | subagent text background =>
      rw [kind, decode, Field.optionalText_fieldEntries hapart (hsub (.head _)),
        Field.optionalText_fieldEntries hapart (hsub (.tail _ (.head _))), map_ok, seq_ok]
  | mcpCall server tool args =>
      rw [kind, decode, Field.optionalText_fieldEntries hapart (hsub (.head _)),
        Field.optionalText_fieldEntries hapart (hsub (.tail _ (.head _))),
        Field.withDefault_fieldEntries hapart (hsub (.tail _ (.tail _ (.head _)))) (settings_record args),
        map_ok, seq_ok, seq_ok]

namespace Payload

theorem fields_apart (p : Payload) : FieldsApart (p.fields.map Prod.fst) := by
  rcases p with ⟨_, _, _, _, detail⟩
  cases detail <;>
    (simp only [fields, Detail.fields, List.cons_append, List.nil_append, List.map_cons, List.map_nil]
     decide)

/-- With JSON data in its settings a payload is stored as it is. -/
theorem map_plain_fields {p : Payload} (h : p.detail.settings.IsJson) :
    p.fields.map FieldValue.plain = p.fields := by
  have htext : ∀ t : Option String, (t.map Value.str).map Value.plain = t.map .str := fun t => by
    cases t <;> rfl
  have hsettings : Value.plain (Settings.toValue p.detail.settings) =
      Settings.toValue p.detail.settings := Value.plain_eq_self _ h
  rcases p with ⟨_, _, _, _, detail⟩
  cases detail <;>
    simp_all [fields, Detail.fields, FieldValue.plain, Detail.settings, Value.plain]

theorem ofEntries_fields (p : Payload) : ofEntries p.detail.kind (fieldEntries p.fields) = .ok p := by
  have hapart := p.fields_apart
  have hlabel : Field.label.withDefault "" Lenient.text (fieldEntries p.fields) = .ok p.label :=
    Field.withDefault_fieldEntries hapart (.head _) rfl
  have hdescription : Field.description.optionalText (fieldEntries p.fields) = .ok p.description :=
    Field.optionalText_fieldEntries hapart (.tail _ (.head _))
  have hid : Field.linkedItemId.optionalText (fieldEntries p.fields) = .ok p.linkedItemId :=
    Field.optionalText_fieldEntries hapart (.tail _ (.tail _ (.head _)))
  have htype : Field.linkedItemType.optionalText (fieldEntries p.fields) = .ok p.linkedItemType :=
    Field.optionalText_fieldEntries hapart (.tail _ (.tail _ (.tail _ (.head _))))
  have hdetail : Detail.decode p.detail.kind (fieldEntries p.fields) = .ok p.detail :=
    Detail.decode_fields hapart (List.subset_append_right _ _)
  rw [ofEntries, hlabel, hdescription, hid, htype, hdetail]
  rfl

end Payload

/-! ## Nodes, edges and workflows -/

theorem text_str (s : String) : Lenient.text (.str s) = .ok s := rfl

theorem Node.fields_apart (n : Node) : FieldsApart (n.fields.map Prod.fst) := by
  show FieldsApart [Field.id, .position, .type, .data]
  decide

theorem Node.decode_toValue {n : Node} (h : n.payload.detail.settings.IsJson) :
    Node.decode n.toValue = .ok n := by
  have hapart := n.fields_apart
  have hkind : Node.kindOf (fieldEntries n.fields) = .ok n.kind := by
    rw [Node.kindOf, text?_of_mem hapart (.tail _ (.tail _ (.head _)))]
    simp [NodeKind.ofName?_name]
  have hpayload : Payload.decode n.kind n.payload.toValue = .ok n.payload := by
    rw [Payload.toValue, Payload.map_plain_fields h, ofFields_eq]
    exact n.payload.ofEntries_fields
  have hnode : Node.ofEntries n.kind (fieldEntries n.fields) = .ok n := by
    rw [Node.ofEntries, Field.required_fieldEntries hapart (.head _) (text_str n.id),
      Field.withDefault_fieldEntries hapart (.tail _ (.head _)) n.position.decode_toValue,
      Field.withDefault_fieldEntries hapart (.tail _ (.tail _ (.tail _ (.head _)))) hpayload]
    rfl
  rw [Node.toValue, ofFields_eq, Node.decode, hkind]
  simp only [hnode, within_ok]

theorem Edge.fields_apart (e : Edge) : FieldsApart (e.fields.map Prod.fst) := by
  show FieldsApart [Field.id, .source, .target, .sourceHandle, .targetHandle, .label, .animated, .type]
  decide

theorem Edge.decode_toValue (e : Edge) : Edge.decode e.toValue = .ok e := by
  have hapart := e.fields_apart
  have hid := Field.required_fieldEntries hapart (.head _) (text_str e.id)
  have hsource := Field.required_fieldEntries hapart (.tail _ (.head _)) (text_str e.source)
  have htarget := Field.required_fieldEntries hapart (.tail _ (.tail _ (.head _))) (text_str e.target)
  have hsourceHandle : Field.sourceHandle.withDefault none Lenient.handle (fieldEntries e.fields) =
      .ok e.sourceHandle :=
    Field.withDefault_none_fieldEntries hapart (.tail _ (.tail _ (.tail _ (.head _)))) fun _ => rfl
  have htargetHandle : Field.targetHandle.withDefault none Lenient.handle (fieldEntries e.fields) =
      .ok e.targetHandle :=
    Field.withDefault_none_fieldEntries hapart (.tail _ (.tail _ (.tail _ (.tail _ (.head _))))) fun _ => rfl
  have hlabel : Field.label.optionalText (fieldEntries e.fields) = .ok e.label :=
    Field.optionalText_fieldEntries hapart (.tail _ (.tail _ (.tail _ (.tail _ (.tail _ (.head _))))))
  have hanimated : Field.animated.withDefault false Lenient.flag (fieldEntries e.fields) = .ok e.animated :=
    Field.withDefault_fieldEntries hapart
      (.tail _ (.tail _ (.tail _ (.tail _ (.tail _ (.tail _ (.head _))))))) rfl
  have hshape : Field.type.withDefault Edge.defaultShape Lenient.text (fieldEntries e.fields) = .ok e.shape :=
    Field.withDefault_fieldEntries hapart
      (.tail _ (.tail _ (.tail _ (.tail _ (.tail _ (.tail _ (.tail _ (.head _)))))))) (text_str e.shape)
  rw [Edge.toValue, ofFields_eq, Edge.decode, Edge.ofEntries, hid, hsource, htarget, hsourceHandle,
    htargetHandle, hlabel, hanimated, hshape]
  rfl

theorem Workflow.fields_apart (w : Workflow) : FieldsApart (w.fields.map Prod.fst) := by
  show FieldsApart [Field.id, .name, .description, .icon, .nodes, .edges, .createdAt, .updatedAt, .version,
    .author, .exportType, .exportPath]
  decide

/-- The data of a workflow reads as that workflow. -/
theorem Workflow.decode_toValue {w : Workflow} (h : w.HasJsonSettings) (now : Int) :
    Workflow.decode now w.toValue = .ok w := by
  have hapart := w.fields_apart
  have hid : (Field.id, some (.str w.id)) ∈ w.fields := by simp [fields]
  have hname : (Field.name, some (.str w.name)) ∈ w.fields := by simp [fields]
  have hdescription : (Field.description, w.description.map Value.str) ∈ w.fields := by simp [fields]
  have hicon : (Field.icon, w.icon.map Value.str) ∈ w.fields := by simp [fields]
  have hnodes : (Field.nodes, some (.list (w.nodes.map Node.toValue))) ∈ w.fields := by simp [fields]
  have hedges : (Field.edges, some (.list (w.edges.map Edge.toValue))) ∈ w.fields := by simp [fields]
  have hcreated : (Field.createdAt, some (.int w.createdAt)) ∈ w.fields := by simp [fields]
  have hupdated : (Field.updatedAt, some (.int w.updatedAt)) ∈ w.fields := by simp [fields]
  have hversion : (Field.version, some (.str w.version)) ∈ w.fields := by simp [fields]
  have hauthor : (Field.author, w.author.map Value.str) ∈ w.fields := by simp [fields]
  have htarget : (Field.exportType, w.exportTarget.map fun t => Value.str t.name) ∈ w.fields := by
    simp [fields]
  have hpath : (Field.exportPath, w.exportPath.map Value.str) ∈ w.fields := by simp [fields]
  rw [toValue, ofFields_eq, Workflow.decode, ofEntries,
    Field.required_fieldEntries hapart hid (text_str w.id),
    Field.required_fieldEntries hapart hname (text_str w.name),
    Field.optionalText_fieldEntries hapart hdescription, Field.optionalText_fieldEntries hapart hicon,
    Field.withDefault_fieldEntries hapart hnodes (allFrom_map (fun n hn => Node.decode_toValue (h n hn)) 0),
    Field.withDefault_fieldEntries hapart hedges (allFrom_map (fun e _ => e.decode_toValue) 0),
    Field.withDefault_fieldEntries hapart hcreated (show Lenient.integer (.int w.createdAt) = .ok _ from rfl),
    Field.withDefault_fieldEntries hapart hupdated (show Lenient.integer (.int w.updatedAt) = .ok _ from rfl),
    Field.withDefault_fieldEntries hapart hversion (text_str w.version),
    Field.optionalText_fieldEntries hapart hauthor,
    Field.withDefault_none_fieldEntries hapart htarget target_name,
    Field.optionalText_fieldEntries hapart hpath]
  rfl

/-! ## What is written is JSON data -/

/-- The places of the nodes are finite. -/
def Workflow.HasFinitePlaces (w : Workflow) : Prop :=
  ∀ n ∈ w.nodes, n.position.x.isFinite = true ∧ n.position.y.isFinite = true

theorem lacks_fieldEntries {fields : List FieldValue} {key : String} (h : ∀ p ∈ fields, p.1.camel ≠ key) :
    (fieldEntries fields).lacks (.str key) = true := by
  refine List.all_eq_true.mpr fun e he => ?_
  obtain ⟨p, hp, hkey, -⟩ := exists_of_mem_fieldEntries he
  simpa [hkey] using h p hp

theorem isJson_ofFields {fields : List FieldValue} (hapart : FieldsApart (fields.map Prod.fst))
    (h : ∀ p ∈ fields, ∀ x, p.2 = some x → x.isJson = true) : (Value.ofFields fields).isJson = true := by
  rw [ofFields_eq, Value.isJson]
  induction fields with
  | nil => rfl
  | cons p rest ih =>
      obtain ⟨hp, hrest⟩ := List.pairwise_cons.mp hapart
      obtain ⟨hx, hmore⟩ := List.forall_mem_cons.mp h
      obtain ⟨f, x⟩ := p
      cases x with
      | none => exact ih hrest hmore
      | some x =>
          have hlacks : (fieldEntries rest).lacks (.str f.camel) = true :=
            lacks_fieldEntries fun q hq => Ne.symm (hp q.1 (List.mem_map_of_mem hq)).1.1
          change Value.entriesAreJson ((.str f.camel, x) :: fieldEntries rest) = true
          rw [Value.entriesAreJson, hx x rfl, hlacks, ih hrest hmore]
          rfl

theorem isJson_list {items : List Value} (h : ∀ v ∈ items, v.isJson = true) : (Value.list items).isJson = true := by
  rw [Value.isJson]
  induction items with
  | nil => rfl
  | cons v rest ih =>
      obtain ⟨hv, hrest⟩ := List.forall_mem_cons.mp h
      rw [Value.itemsAreJson, hv, ih hrest]
      rfl

theorem Position.isJson_toValue {p : Position} (hx : p.x.isFinite = true) (hy : p.y.isFinite = true) :
    p.toValue.isJson = true := by
  refine isJson_ofFields p.fields_apart ?_
  simp [fields, Value.isJson, hx, hy]

theorem Detail.isJson_field {d : Detail} (h : d.settings.IsJson) :
    ∀ f ∈ d.fields, ∀ x, f.2 = some x → x.isJson = true := by
  cases d with
  | action | output => simp [fields]
  | prompt | decision | subagent => simp [fields, Value.isJson]
  | loop => simp [fields, Value.isJson]
  | trigger type config =>
      have hconfig : config.toValue.isJson = true := h
      simp [fields, Value.isJson, hconfig]
  | mcpCall server tool args =>
      have hargs : args.toValue.isJson = true := h
      simp [fields, Value.isJson, hargs]

theorem Payload.isJson_field {p : Payload} (h : p.detail.settings.IsJson) :
    ∀ f ∈ p.fields, ∀ x, f.2 = some x → x.isJson = true := by
  have hshared : ∀ f ∈ [(Field.label, some (Value.str p.label)), (.description, p.description.map .str),
      (.linkedItemId, p.linkedItemId.map .str), (.linkedItemType, p.linkedItemType.map .str)],
      ∀ x, f.2 = some x → x.isJson = true := by
    simp [Value.isJson]
  intro f hf
  obtain hf | hf := List.mem_append.mp hf
  · exact hshared f hf
  · exact Detail.isJson_field h f hf

theorem Payload.isJson_toValue {p : Payload} (h : p.detail.settings.IsJson) : p.toValue.isJson = true := by
  rw [Payload.toValue, Payload.map_plain_fields h]
  exact isJson_ofFields p.fields_apart (isJson_field h)

theorem Node.isJson_toValue {n : Node} (h : n.payload.detail.settings.IsJson)
    (hx : n.position.x.isFinite = true) (hy : n.position.y.isFinite = true) : n.toValue.isJson = true := by
  refine isJson_ofFields n.fields_apart ?_
  simp [fields, Value.isJson, Position.isJson_toValue hx hy, Payload.isJson_toValue h]

theorem Edge.isJson_toValue (e : Edge) : e.toValue.isJson = true := by
  refine isJson_ofFields e.fields_apart ?_
  simp [fields, Value.isJson]

theorem Workflow.isJson_toValue {w : Workflow} (h : w.HasJsonSettings) (hplaces : w.HasFinitePlaces) :
    w.toValue.isJson = true := by
  have hnodes : (Value.list (w.nodes.map Node.toValue)).isJson = true := by
    refine isJson_list fun v hv => ?_
    obtain ⟨n, hn, rfl⟩ := List.mem_map.mp hv
    exact Node.isJson_toValue (h n hn) (hplaces n hn).1 (hplaces n hn).2
  have hedges : (Value.list (w.edges.map Edge.toValue)).isJson = true := by
    refine isJson_list fun v hv => ?_
    obtain ⟨e, -, rfl⟩ := List.mem_map.mp hv
    exact e.isJson_toValue
  refine isJson_ofFields w.fields_apart ?_
  simpa [fields, Value.isJson] using And.intro hnodes hedges

end Runbook
