import Mathlib.Data.List.Forall2
import Runbook.Proofs.Workflow.Overrides
import Runbook.Proofs.Workflow.RoundTrip

/-!
# Changes of a payload, field by field

To change a payload is to write it down, to put values over some of its fields, and to read it
again. What is written of a field is read as it was (`Payload.normal_value`), and a payload
is read one field at a time (`Payload.value?_ofEntries_eq_some_iff`). So an update keeps each
field that is not given a value, gives the others what their readers make of the values
(`Payload.update_eq_ok_iff`), and two updates come to one in which the later values win.
Main statement: `Workflow.updateNode_merges`.
-/

namespace Runbook

/-! ## What a payload holds -/

/-- What a payload keeps of a value that is given for a field, if the field takes it. -/
def Field.normal (f : Field) (v : Value) : Decoded Value :=
  if f = .label then Value.str <$> Lenient.text v
  else if f = .triggerType then (fun t : TriggerType => Value.str t.name) <$> TriggerType.decode v
  else if f = .triggerConfig ∨ f = .mcpArgs then Settings.toValue <$> Lenient.settings v
  else if f = .loopCount then (fun n : LoopCount => Value.int n.count) <$> Lenient.loopCount v
  else Value.ofText? <$> Lenient.optional Lenient.text v

/-- The value of a payload's field, null where it has none. -/
def Payload.value (p : Payload) (f : Field) : Value := (f.value? p.snapshot).getD .null

theorem Decoded.value?_eq_some_iff {α : Type} {x : Decoded α} {a : α} : x.value? = some a ↔ x = .ok a := by
  cases x <;> simp [value?]

section Forms

variable {α : Type} {x : Option α} {a : α}

theorem map_eq_some_iff_of_injective {g : α → Value} (hg : Function.Injective g) :
    x.map g = some (g a) ↔ x = some a :=
  (Option.map_injective hg).eq_iff (b := some a)

theorem ofText?_injective : Function.Injective Value.ofText? := by
  intro s t h
  cases s <;> cases t <;> simp_all [Value.ofText?]

theorem triggerName_injective : Function.Injective fun t : TriggerType => Value.str t.name := by
  intro t u h
  have hname : t.name = u.name := Value.str.inj h
  exact Option.some.inj (by rw [← TriggerType.ofName?_name t, hname, TriggerType.ofName?_name])

theorem loopCount_injective : Function.Injective fun n : LoopCount => Value.int n.count := by
  rintro ⟨m, _⟩ ⟨n, _⟩ h
  obtain rfl : m = n := Int.ofNat.inj (Value.int.inj h)
  rfl

theorem toValue_injective : Function.Injective Settings.toValue := by
  intro s t h
  exact Decoded.ok.inj ((settings_record s).symm.trans ((congrArg Lenient.settings h).trans (settings_record t)))

end Forms

namespace NodeKind

/-- The fields that every kind has. -/
def shared : List Field := [.label, .description, .linkedItemId, .linkedItemType]

/-- The fields that are particular to a kind. -/
def own (kind : NodeKind) : List Field := (Detail.blank kind).fields.map Prod.fst

theorem fields_eq (kind : NodeKind) : kind.fields = shared ++ kind.own := by cases kind <;> rfl

end NodeKind

section Reading

variable {kind : NodeKind} {A : Entries} {p q : Payload} {f : Field}

theorem NodeKind.snakes_nodup (kind : NodeKind) : (kind.fields.map Field.snake).Nodup := by cases kind <;> decide

theorem text?_map_snake {fields : List FieldValue} {v : Option Value} (hnodup : (fields.map fun e => e.1.snake).Nodup)
    (h : (f, v) ∈ fields) :
    Entries.text? (fields.map fun e => (.str e.1.snake, e.2.getD .null)) f.snake = some (v.getD .null) := by
  induction fields with
  | nil => cases h
  | cons e rest ih =>
      obtain ⟨hnew, hrest⟩ := List.nodup_cons.mp hnodup
      rw [List.map_cons, text?_cons, Value.sameKey_str]
      obtain rfl | h := List.mem_cons.mp h
      · rw [if_pos (beq_self_eq_true _)]
      · have hne : e.1.snake ≠ f.snake := fun heq => hnew (List.mem_map.mpr ⟨(f, v), h, heq.symm⟩)
        rw [if_neg (by simpa using hne), ih hrest h]

theorem Payload.value?_snapshot_of_mem {v : Option Value} (h : (f, v) ∈ p.fields) :
    f.value? p.snapshot = some (v.getD .null) := by
  have hf : f ∈ p.detail.kind.fields := p.map_fst_fields ▸ List.mem_map_of_mem h
  have hnodup : (p.fields.map fun e => e.1.snake).Nodup := by
    have hkind := p.detail.kind.snakes_nodup
    rwa [← p.map_fst_fields, List.map_map] at hkind
  have hsnake : p.snapshot.text? f.snake = some (v.getD .null) := text?_map_snake hnodup h
  rw [f.value?_eq, hsnake]
  by_cases hspellings : f.camel = f.snake
  · rw [hspellings, hsnake, Option.or_self]
  · rw [text?_snapshot_camel hf hspellings, Option.none_or]

theorem Payload.value_of_mem {v : Option Value} (h : (f, v) ∈ p.fields) : p.value f = v.getD .null := by
  rw [value, value?_snapshot_of_mem h, Option.getD_some]

theorem Payload.value_of_text_mem {t : Option String} (h : (f, t.map .str) ∈ p.fields) : p.value f = .ofText? t := by
  rw [value_of_mem h]
  cases t <;> rfl

theorem Payload.exists_of_mem_fields (hf : f ∈ p.detail.kind.fields) : ∃ v, (f, v) ∈ p.fields := by
  rw [← p.map_fst_fields] at hf
  obtain ⟨⟨g, v⟩, he, rfl⟩ := List.mem_map.mp hf
  exact ⟨v, he⟩

theorem Payload.value?_snapshot (hf : f ∈ p.detail.kind.fields) : f.value? p.snapshot = some (p.value f) := by
  obtain ⟨v, hv⟩ := exists_of_mem_fields hf
  rw [value?_snapshot_of_mem hv, value_of_mem hv]

section Parts

variable (kind) (A)

/-- A part of a payload is read from a map where the form of what the map holds for its field is what the payload
holds there. -/
theorem withDefault_eq_some_iff {α : Type} {default a : α} {read : Value → Decoded α} {write : α → Value}
    (hform : ∀ v, f.normal v = write <$> read v) (hwrite : Function.Injective write)
    (hstanding : (read (kind.standing f)).value? = some default) (h : q.value f = write a) :
    (f.withDefault default read A).value? = some a ↔ f.normal (kind.held A f) = .ok (q.value f) := by
  rw [h, value?_withDefault hstanding, hform, ← Decoded.value?_eq_some_iff, Decoded.value?_map,
    map_eq_some_iff_of_injective hwrite]

theorem optionalText_eq_some_iff {t : Option String}
    (hform : ∀ v, f.normal v = Value.ofText? <$> Lenient.optional Lenient.text v)
    (hstanding : kind.standing f = .null) (h : (f, t.map .str) ∈ q.fields) :
    (f.optionalText A).value? = some t ↔ f.normal (kind.held A f) = .ok (q.value f) :=
  withDefault_eq_some_iff kind A hform ofText?_injective (by rw [hstanding]; rfl) (Payload.value_of_text_mem h)

theorem settings_eq_some_iff {s : Settings} (hform : ∀ v, f.normal v = Settings.toValue <$> Lenient.settings v)
    (hstanding : kind.standing f = .map []) (h : (f, some s.toValue) ∈ q.fields) :
    (f.withDefault [] Lenient.settings A).value? = some s ↔ f.normal (kind.held A f) = .ok (q.value f) :=
  withDefault_eq_some_iff kind A hform toValue_injective (by rw [hstanding]; rfl) (Payload.value_of_mem h)

end Parts

/-- What is particular to a kind is read field by field. -/
theorem Detail.value?_decode_eq_some_iff (hkind : q.detail.kind = kind) :
    (Detail.decode kind A).value? = some q.detail ↔ ∀ f ∈ kind.own, f.normal (kind.held A f) = .ok (q.value f) := by
  subst hkind
  have hmem : ∀ e ∈ q.detail.fields, e ∈ q.fields := fun e he => List.mem_append_right _ he
  generalize q.detail = d at hmem ⊢
  simp only [Detail.fields] at hmem
  cases d with
  | action | output => exact iff_of_true rfl (List.forall_mem_nil _)
  | prompt text =>
      have htext := optionalText_eq_some_iff .prompt A (fun _ => rfl) rfl (hmem _ (.head _))
      change (Detail.prompt <$> Field.prompt.optionalText A).value? = _ ↔ ∀ f ∈ [Field.prompt], _
      simp [Decoded.value?_map, htext, kind]
  | decision condition =>
      have hcondition := optionalText_eq_some_iff .decision A (fun _ => rfl) rfl (hmem _ (.head _))
      change (Detail.decision <$> Field.condition.optionalText A).value? = _ ↔ ∀ f ∈ [Field.condition], _
      simp [Decoded.value?_map, hcondition, kind]
  | loop times =>
      have hvalue := Payload.value_of_mem (hmem _ (.head _))
      have htimes : (Field.loopCount.withDefault .default Lenient.loopCount A).value? = some times ↔ _ :=
        withDefault_eq_some_iff .loop A (fun _ => rfl) loopCount_injective rfl hvalue
      change (Detail.loop <$> Field.loopCount.withDefault .default Lenient.loopCount A).value? = _ ↔
        ∀ f ∈ [Field.loopCount], _
      simp [Decoded.value?_map, htimes, kind]
  | trigger type config =>
      have hvalue := Payload.value_of_mem (hmem _ (.head _))
      have htype := withDefault_eq_some_iff .trigger A (fun _ => rfl) triggerName_injective rfl hvalue
      have hconfig := settings_eq_some_iff .trigger A (fun _ => rfl) rfl (hmem _ (.tail _ (.head _)))
      change (Detail.trigger <$> Field.triggerType.withDefault .manual TriggerType.decode A
        <*> Field.triggerConfig.withDefault [] Lenient.settings A).value? = _ ↔
        ∀ f ∈ [Field.triggerType, .triggerConfig], _
      simp [Decoded.value?_map, Decoded.value?_seq, Option.bind_eq_some_iff, htype, hconfig, kind]
  | subagent text background =>
      have htext := optionalText_eq_some_iff .subagent A (fun _ => rfl) rfl (hmem _ (.head _))
      have hbackground := optionalText_eq_some_iff .subagent A (fun _ => rfl) rfl (hmem _ (.tail _ (.head _)))
      change (Detail.subagent <$> Field.subagentPrompt.optionalText A <*> Field.subagentContext.optionalText A).value? =
        _ ↔ ∀ f ∈ [Field.subagentPrompt, .subagentContext], _
      simp [Decoded.value?_map, Decoded.value?_seq, Option.bind_eq_some_iff, htext, hbackground, kind]
  | mcpCall server tool args =>
      have hserver := optionalText_eq_some_iff .mcpCall A (fun _ => rfl) rfl (hmem _ (.head _))
      have htool := optionalText_eq_some_iff .mcpCall A (fun _ => rfl) rfl (hmem _ (.tail _ (.head _)))
      have hargs := settings_eq_some_iff .mcpCall A (fun _ => rfl) rfl (hmem _ (.tail _ (.tail _ (.head _))))
      change (Detail.mcpCall <$> Field.mcpServer.optionalText A <*> Field.mcpTool.optionalText A
        <*> Field.mcpArgs.withDefault [] Lenient.settings A).value? = _ ↔
        ∀ f ∈ [Field.mcpServer, .mcpTool, .mcpArgs], _
      simp [Decoded.value?_map, Decoded.value?_seq, Option.bind_eq_some_iff, hserver, htool, hargs, kind]

/-- The parts of a payload are read apart. -/
theorem Payload.value?_ofEntries_eq_some_iff_parts : (Payload.ofEntries kind A).value? = some q ↔
    (Field.label.withDefault "" Lenient.text A).value? = some q.label ∧
      (Field.description.optionalText A).value? = some q.description ∧
      (Field.linkedItemId.optionalText A).value? = some q.linkedItemId ∧
      (Field.linkedItemType.optionalText A).value? = some q.linkedItemType ∧
      (Detail.decode kind A).value? = some q.detail := by
  obtain ⟨label, description, linkedId, linkedType, detail⟩ := q
  simp only [Payload.ofEntries, Decoded.value?_map, Decoded.value?_seq]
  cases (Field.label.withDefault "" Lenient.text A).value? <;>
    cases (Field.description.optionalText A).value? <;>
    cases (Field.linkedItemId.optionalText A).value? <;>
    cases (Field.linkedItemType.optionalText A).value? <;>
    cases (Detail.decode kind A).value? <;> simp

/-- **A payload is read field by field.** -/
theorem Payload.value?_ofEntries_eq_some_iff : (Payload.ofEntries kind A).value? = some q ↔
    q.detail.kind = kind ∧ ∀ f ∈ kind.fields, f.normal (kind.held A f) = .ok (q.value f) := by
  have hlabel : (Field.label.withDefault "" Lenient.text A).value? = some q.label ↔ _ :=
    withDefault_eq_some_iff (q := q) kind A (fun _ => rfl) (fun _ _ => Value.str.inj) (by cases kind <;> rfl) rfl
  have hdescription : (Field.description.optionalText A).value? = some q.description ↔ _ :=
    optionalText_eq_some_iff (q := q) kind A (fun _ => rfl) (by cases kind <;> rfl) (by simp [fields])
  have hlinkedId : (Field.linkedItemId.optionalText A).value? = some q.linkedItemId ↔ _ :=
    optionalText_eq_some_iff (q := q) kind A (fun _ => rfl) (by cases kind <;> rfl) (by simp [fields])
  have hlinkedType : (Field.linkedItemType.optionalText A).value? = some q.linkedItemType ↔ _ :=
    optionalText_eq_some_iff (q := q) kind A (fun _ => rfl) (by cases kind <;> rfl) (by simp [fields])
  rw [Payload.value?_ofEntries_eq_some_iff_parts, kind.fields_eq, List.forall_mem_append, hlabel, hdescription,
    hlinkedId, hlinkedType]
  have hkind (h : (Detail.decode kind A).value? = some q.detail) : q.detail.kind = kind := by
    cases hread : Detail.decode kind A with
    | ok d =>
        rw [hread] at h
        obtain rfl : d = q.detail := Option.some.inj h
        exact Detail.kind_of_decode hread
    | faulty faults =>
        rw [hread] at h
        cases h
  simp only [NodeKind.shared, List.forall_mem_cons, List.not_mem_nil, false_imp_iff, implies_true, and_true]
  constructor
  · rintro ⟨h₁, h₂, h₃, h₄, hdetail⟩
    exact ⟨hkind hdetail, ⟨h₁, h₂, h₃, h₄⟩, (Detail.value?_decode_eq_some_iff (hkind hdetail)).mp hdetail⟩
  · rintro ⟨hsame, ⟨h₁, h₂, h₃, h₄⟩, hown⟩
    exact ⟨h₁, h₂, h₃, h₄, (Detail.value?_decode_eq_some_iff hsame).mpr hown⟩

/-- What is written of a field is read as it was. -/
theorem Payload.normal_value (hf : f ∈ p.detail.kind.fields) : f.normal (p.value f) = .ok (p.value f) := by
  have htext : ∀ t : Option String,
      Value.ofText? <$> Lenient.optional Lenient.text ((t.map Value.str).getD .null) =
        .ok ((t.map Value.str).getD .null) := by
    intro t
    cases t <;> rfl
  have hsettings : ∀ s : Settings, Settings.toValue <$> Lenient.settings s.toValue = .ok s.toValue :=
    fun s => congrArg (Settings.toValue <$> ·) (settings_record s)
  obtain ⟨v, hv⟩ := exists_of_mem_fields hf
  rw [value_of_mem hv]
  rw [fields, List.mem_append] at hv
  rcases hv with hv | hv
  · simp only [List.mem_cons, List.not_mem_nil, or_false, Prod.mk.injEq] at hv
    obtain ⟨rfl, rfl⟩ | ⟨rfl, rfl⟩ | ⟨rfl, rfl⟩ | ⟨rfl, rfl⟩ := hv
    · rfl
    · exact htext p.description
    · exact htext p.linkedItemId
    · exact htext p.linkedItemType
  · generalize p.detail = d at hv
    cases d with
    | action | output => cases hv
    | prompt text | decision text =>
        obtain ⟨rfl, rfl⟩ := Prod.mk.injEq .. ▸ List.mem_singleton.mp hv
        exact htext text
    | loop times =>
        obtain ⟨rfl, rfl⟩ := Prod.mk.injEq .. ▸ List.mem_singleton.mp hv
        exact congrArg ((fun n : LoopCount => Value.int n.count) <$> ·) (loopCount_int times)
    | trigger type config =>
        simp only [Detail.fields, List.mem_cons, List.not_mem_nil, or_false, Prod.mk.injEq] at hv
        obtain ⟨rfl, rfl⟩ | ⟨rfl, rfl⟩ := hv
        · exact congrArg ((fun t : TriggerType => Value.str t.name) <$> ·) (triggerType_name type)
        · exact hsettings config
    | subagent text background =>
        simp only [Detail.fields, List.mem_cons, List.not_mem_nil, or_false, Prod.mk.injEq] at hv
        obtain ⟨rfl, rfl⟩ | ⟨rfl, rfl⟩ := hv
        · exact htext text
        · exact htext background
    | mcpCall server tool args =>
        simp only [Detail.fields, List.mem_cons, List.not_mem_nil, or_false, Prod.mk.injEq] at hv
        obtain ⟨rfl, rfl⟩ | ⟨rfl, rfl⟩ | ⟨rfl, rfl⟩ := hv
        · exact htext server
        · exact htext tool
        · exact hsettings args

end Reading

/-! ## What is wrong with a payload -/

namespace Decoded

variable {α β : Type}

/-- The faults that were found. -/
def faults : Decoded α → List Fault
  | .ok _ => []
  | .faulty faults => faults

theorem faults_map (f : α → β) (x : Decoded α) : (f <$> x).faults = x.faults := by cases x <;> rfl

theorem faults_seq (g : Decoded (α → β)) (x : Decoded α) : (g <*> x).faults = g.faults ++ x.faults := by
  cases g <;> cases x <;> simp [Seq.seq, both, faults]

theorem faults_within (step : Step) (x : Decoded α) :
    (x.within step).faults = x.faults.map fun f => ⟨step :: f.path, f.cause⟩ := by
  cases x <;> rfl

/-- Where nothing is read, something is wrong. -/
def Telling (x : Decoded α) : Prop := x.faults = [] → ∃ a, x = .ok a

theorem Telling.map {x : Decoded α} (h : x.Telling) (f : α → β) : (f <$> x).Telling := by
  intro hnone
  obtain ⟨a, rfl⟩ := h (faults_map f x ▸ hnone)
  exact ⟨f a, rfl⟩

theorem Telling.seq {g : Decoded (α → β)} {x : Decoded α} (hg : g.Telling) (hx : x.Telling) : (g <*> x).Telling := by
  intro hnone
  rw [faults_seq, List.append_eq_nil_iff] at hnone
  obtain ⟨f, rfl⟩ := hg hnone.1
  obtain ⟨a, rfl⟩ := hx hnone.2
  exact ⟨f a, rfl⟩

theorem Telling.within {x : Decoded α} (h : x.Telling) (step : Step) : (x.within step).Telling := by
  intro hnone
  rw [faults_within, List.map_eq_nil_iff] at hnone
  obtain ⟨a, rfl⟩ := h hnone
  exact ⟨a, rfl⟩

theorem telling_ok (a : α) : (ok a).Telling := fun _ => ⟨a, rfl⟩

theorem telling_fail (cause : Cause) : (fail cause : Decoded α).Telling := fun h => absurd h (by simp [fail, faults])

end Decoded

section Readers

open Decoded

theorem telling_text (v : Value) : (Lenient.text v).Telling := by
  cases v <;> first | exact telling_ok _ | exact telling_fail _

theorem telling_optionalText (v : Value) : (Lenient.optional Lenient.text v).Telling := by
  cases v <;> first | exact telling_ok _ | exact telling_fail _

theorem telling_triggerType (v : Value) : (TriggerType.decode v).Telling := by
  cases v with
  | str s =>
      rw [TriggerType.decode, Lenient.member]
      cases TriggerType.ofName? s with
      | some t => exact telling_ok _
      | none => exact telling_fail _
  | _ => exact telling_fail _

theorem telling_settings (v : Value) : (Lenient.settings v).Telling := by
  cases v with
  | map entries =>
      induction entries with
      | nil => exact telling_ok _
      | cons e rest ih =>
          exact (((((telling_text e.1).map _).within _).within _).map _).seq ih
  | _ => exact telling_fail _

theorem telling_loopCount (v : Value) : (Lenient.loopCount v).Telling := by
  have hinteger : (Lenient.integer v).Telling := by
    unfold Lenient.integer
    repeat' split
    all_goals first | exact telling_ok _ | exact telling_fail _
  intro hnone
  unfold Lenient.loopCount andThen at hnone ⊢
  cases hread : Lenient.integer v with
  | ok n =>
      simp only [hread] at hnone ⊢
      by_cases hn : 0 < n.toNat
      · rw [dif_pos hn]
        exact ⟨_, rfl⟩
      · rw [dif_neg hn] at hnone
        exact absurd hnone (by simp [fail, faults])
  | faulty faults =>
      simp only [hread] at hnone
      obtain ⟨n, hn⟩ := hinteger (hread ▸ hnone)
      exact absurd (hread.symm.trans hn) (by simp)

end Readers

section Faults

variable {kind : NodeKind} {A : Entries} {f : Field}

/-- The faults of what a map holds for a field. -/
def Field.faults (f : Field) (A : Entries) : List Fault := (f.withDefault .null f.normal A).faults

theorem faults_withDefault {α : Type} {default : α} {read : Value → Decoded α} {write : α → Value}
    (hform : ∀ v, f.normal v = write <$> read v) : (f.withDefault default read A).faults = f.faults A := by
  rw [Field.faults, Field.withDefault, Field.withDefault]
  cases f.find? A with
  | none => rfl
  | some e =>
      simp only [Decoded.faults_within, hform, Decoded.faults_map]

/-- A fault at a field is one of the value that the map holds, below the spelling that it has there. -/
theorem Field.exists_of_mem_faults {fault : Fault} (h : fault ∈ f.faults A) :
    ∃ key v, f.find? A = some (key, v) ∧ (f.normal v).faults ≠ [] ∧ fault.path.head? = some (.key key) := by
  rw [Field.faults, Field.withDefault] at h
  cases hfind : f.find? A with
  | none =>
      rw [hfind] at h
      cases h
  | some e =>
      simp only [hfind, Decoded.faults_within] at h
      obtain ⟨inner, hinner, rfl⟩ := List.mem_map.mp h
      exact ⟨e.1, e.2, rfl, List.ne_nil_of_mem hinner, rfl⟩

theorem telling_withDefault {α : Type} {default : α} {read : Value → Decoded α} (hread : ∀ v, (read v).Telling) :
    (f.withDefault default read A).Telling := by
  rw [Field.withDefault]
  cases f.find? A with
  | none => exact Decoded.telling_ok _
  | some e => exact (hread e.2).within _

theorem telling_optional : (f.optionalText A).Telling := telling_withDefault telling_optionalText

/-- What is particular to a kind has the faults of its fields. -/
theorem Detail.faults_decode (kind : NodeKind) (A : Entries) :
    (Detail.decode kind A).faults = kind.own.flatMap fun f => f.faults A := by
  cases kind with
  | action | output => rfl
  | prompt =>
      have htext : (Field.prompt.optionalText A).faults = _ := faults_withDefault fun _ => rfl
      change _ = [Field.prompt].flatMap _
      simp [decode, Decoded.faults_map, htext]
  | decision =>
      have hcondition : (Field.condition.optionalText A).faults = _ := faults_withDefault fun _ => rfl
      change _ = [Field.condition].flatMap _
      simp [decode, Decoded.faults_map, hcondition]
  | loop =>
      have htimes : (Field.loopCount.withDefault .default Lenient.loopCount A).faults = _ :=
        faults_withDefault fun _ => rfl
      change _ = [Field.loopCount].flatMap _
      simp [decode, Decoded.faults_map, htimes]
  | trigger =>
      have htype : (Field.triggerType.withDefault .manual TriggerType.decode A).faults = _ :=
        faults_withDefault fun _ => rfl
      have hconfig : (Field.triggerConfig.withDefault [] Lenient.settings A).faults = _ :=
        faults_withDefault fun _ => rfl
      change _ = [Field.triggerType, .triggerConfig].flatMap _
      simp [decode, Decoded.faults_map, Decoded.faults_seq, htype, hconfig]
  | subagent =>
      have htext : (Field.subagentPrompt.optionalText A).faults = _ := faults_withDefault fun _ => rfl
      have hbackground : (Field.subagentContext.optionalText A).faults = _ := faults_withDefault fun _ => rfl
      change _ = [Field.subagentPrompt, .subagentContext].flatMap _
      simp [decode, Decoded.faults_map, Decoded.faults_seq, htext, hbackground]
  | mcpCall =>
      have hserver : (Field.mcpServer.optionalText A).faults = _ := faults_withDefault fun _ => rfl
      have htool : (Field.mcpTool.optionalText A).faults = _ := faults_withDefault fun _ => rfl
      have hargs : (Field.mcpArgs.withDefault [] Lenient.settings A).faults = _ := faults_withDefault fun _ => rfl
      change _ = [Field.mcpServer, .mcpTool, .mcpArgs].flatMap _
      simp [decode, Decoded.faults_map, Decoded.faults_seq, hserver, htool, hargs]

/-- **The faults of a payload are those of its fields**, one after the other. -/
theorem Payload.faults_ofEntries (kind : NodeKind) (A : Entries) :
    (Payload.ofEntries kind A).faults = kind.fields.flatMap fun f => f.faults A := by
  have hlabel : (Field.label.withDefault "" Lenient.text A).faults = _ := faults_withDefault fun _ => rfl
  have hdescription : (Field.description.optionalText A).faults = _ := faults_withDefault fun _ => rfl
  have hlinkedId : (Field.linkedItemId.optionalText A).faults = _ := faults_withDefault fun _ => rfl
  have hlinkedType : (Field.linkedItemType.optionalText A).faults = _ := faults_withDefault fun _ => rfl
  simp [ofEntries, kind.fields_eq, NodeKind.shared, Decoded.faults_map, Decoded.faults_seq, hlabel, hdescription,
    hlinkedId, hlinkedType, Detail.faults_decode]

theorem Payload.telling_ofEntries (kind : NodeKind) (A : Entries) : (Payload.ofEntries kind A).Telling := by
  have hdetail : (Detail.decode kind A).Telling := by
    cases kind with
    | action | output => exact Decoded.telling_ok _
    | prompt | decision => exact telling_optional.map _
    | loop => exact (telling_withDefault telling_loopCount).map _
    | trigger => exact ((telling_withDefault telling_triggerType).map _).seq (telling_withDefault telling_settings)
    | subagent => exact (telling_optional.map _).seq telling_optional
    | mcpCall => exact ((telling_optional.map _).seq telling_optional).seq (telling_withDefault telling_settings)
  exact (((((telling_withDefault telling_text).map _).seq telling_optional).seq telling_optional).seq
    telling_optional).seq hdetail

end Faults

/-! ## One update -/

/-- A payload after a change: each field that is given a value has what it keeps of it, and each
other one has the value that it had. -/
structure Payload.Merged (p : Payload) (changes : Settings) (q : Payload) : Prop where
  kind_eq : q.detail.kind = p.detail.kind
  given : ∀ f ∈ p.detail.kind.fields, ∀ v, lastGiven changes f.spelled = some v → f.normal v = .ok (q.value f)
  kept : ∀ f ∈ p.detail.kind.fields, lastGiven changes f.spelled = none → q.value f = p.value f

/-- Whether each value that is given for a field of the payload can stand there. -/
def Payload.Takes (p : Payload) (changes : Settings) : Prop :=
  ∀ f ∈ p.detail.kind.fields, ∀ v, lastGiven changes f.spelled = some v → ∃ u, f.normal v = .ok u

namespace Payload

variable {p q r : Payload} {changes c₁ c₂ : Settings} {f : Field}

/-- A field stands under its second spelling in what an update reads. -/
theorem find?_changed (hf : f ∈ p.detail.kind.fields) (changes : Settings) :
    f.find? (p.changed changes) = some (f.snake, (lastGiven changes f.spelled).getD (p.value f)) := by
  have hvalue : f.value? (p.changed changes) = some ((lastGiven changes f.spelled).getD (p.value f)) := by
    rw [value?_changed hf, value?_snapshot hf]
    cases lastGiven changes f.spelled <;> rfl
  rw [Field.value?_eq] at hvalue
  rw [Field.find?]
  by_cases hspellings : f.camel = f.snake
  · rw [hspellings, Option.or_self] at hvalue
    rw [hspellings, hvalue]
  · have hcamel : (p.changed changes).text? f.camel = none :=
      (text?_changed_camel hf hspellings changes _).trans (text?_snapshot_camel hf hspellings)
    rw [hcamel, Option.none_or] at hvalue
    rw [hcamel, hvalue]
    rfl

/-- What an update reads for a field: the value that is given, or the one that it had. -/
theorem held_changed (hf : f ∈ p.detail.kind.fields) (changes : Settings) :
    p.detail.kind.held (p.changed changes) f = (lastGiven changes f.spelled).getD (p.value f) := by
  rw [NodeKind.held, Field.value?, find?_changed hf]
  rfl

/-- **An update puts values over those of the fields that they are given for**, and nothing else. -/
theorem update_eq_ok_iff : p.update changes = .ok q ↔ p.Merged changes q := by
  rw [update, Decoded.orRefuse_eq_ok_iff, ← Decoded.value?_eq_some_iff, value?_ofEntries_eq_some_iff]
  constructor
  · rintro ⟨hkind, hread⟩
    refine ⟨hkind, fun f hf v hv => ?_, fun f hf hnone => ?_⟩
    · simpa [held_changed hf, hv] using hread f hf
    · have hkept := hread f hf
      rw [held_changed hf, hnone, Option.getD_none, normal_value hf] at hkept
      exact (Decoded.ok.inj hkept).symm
  · rintro ⟨hkind, hgiven, hkept⟩
    refine ⟨hkind, fun f hf => ?_⟩
    rw [held_changed hf]
    cases hv : lastGiven changes f.spelled with
    | some v => exact hgiven f hf v hv
    | none => rw [Option.getD_none, hkept f hf hv, normal_value hf]

/-- **Only a value that was given is at fault**, and its field is named. -/
theorem fault_of_update {e : Refused} (h : p.update changes = .error e) :
    e.title = p.detail.kind.payloadName ∧ e.faults ≠ [] ∧
      ∀ fault ∈ e.faults, ∃ f ∈ p.detail.kind.fields, ∃ v, lastGiven changes f.spelled = some v ∧
        (∀ u, f.normal v ≠ .ok u) ∧ fault.path.head? = some (.key f.snake) := by
  rw [update] at h
  cases hread : ofEntries p.detail.kind (p.changed changes) with
  | ok q =>
      rw [hread] at h
      cases h
  | faulty faults =>
      rw [hread] at h
      obtain rfl : ⟨p.detail.kind.payloadName, faults⟩ = e := Except.error.inj h
      have hfaults : faults = p.detail.kind.fields.flatMap fun f => f.faults (p.changed changes) := by
        rw [← faults_ofEntries, hread, Decoded.faults]
      refine ⟨rfl, fun hnil => ?_, fun fault hfault => ?_⟩
      · obtain ⟨q, hq⟩ := telling_ofEntries p.detail.kind (p.changed changes) (by rw [hread]; exact hnil)
        exact absurd (hread.symm.trans hq) (by simp)
      · obtain ⟨f, hf, hfault⟩ := List.mem_flatMap.mp (hfaults ▸ hfault)
        obtain ⟨key, v, hfind, hwrong, hpath⟩ := Field.exists_of_mem_faults hfault
        obtain ⟨rfl, rfl⟩ := Prod.mk.inj (Option.some.inj ((find?_changed hf changes).symm.trans hfind))
        cases hv : lastGiven changes f.spelled with
        | some v =>
            rw [hv, Option.getD_some] at hwrong
            exact ⟨f, hf, v, hv, fun u hu => hwrong (by rw [hu]; rfl), hpath⟩
        | none =>
            rw [hv, Option.getD_none, normal_value hf] at hwrong
            exact absurd rfl hwrong

/-- An update is accepted iff each value that it gives can stand. -/
theorem exists_update_iff : (∃ q, p.update changes = .ok q) ↔ p.Takes changes := by
  constructor
  · rintro ⟨q, hq⟩ f hf v hv
    exact ⟨_, (update_eq_ok_iff.mp hq).given f hf v hv⟩
  · intro h
    cases hupdate : p.update changes with
    | ok q => exact ⟨q, rfl⟩
    | error e =>
        obtain ⟨-, hsome, hnamed⟩ := fault_of_update hupdate
        obtain ⟨fault, hfault⟩ := List.exists_mem_of_ne_nil _ hsome
        obtain ⟨f, hf, v, hv, hnone, -⟩ := hnamed fault hfault
        obtain ⟨u, hu⟩ := h f hf v hv
        exact absurd hu (hnone u)

end Payload

/-! ## One update after the other -/

/-- Every field that a payload may have. -/
def NodeKind.allFields : List Field := NodeKind.all.flatMap NodeKind.fields

/-- Whether two keys are the same, or spell the same field. -/
def sameField (k l : String) : Bool := k == l || NodeKind.allFields.any fun f => f.spelled k && f.spelled l

/-- Changes under later ones, which win field by field. -/
def Settings.overriddenBy (c₁ c₂ : Settings) : Settings := c₁.filter (fun e => !c₂.any fun d => sameField e.1 d.1) ++ c₂

theorem NodeKind.mem_allFields {kind : NodeKind} {f : Field} (hf : f ∈ kind.fields) : f ∈ NodeKind.allFields :=
  List.mem_flatMap.mpr ⟨kind, kind.mem_all, hf⟩

/-- No two fields of any kinds share a spelling. -/
theorem NodeKind.eq_of_spelled_both {f g : Field} (hf : f ∈ allFields) (hg : g ∈ allFields) {key : String}
    (hfkey : f.spelled key = true) (hgkey : g.spelled key = true) : f = g := by
  have hapart : ∀ f ∈ allFields, ∀ g ∈ allFields, (f.spelled g.camel || f.spelled g.snake) = true → f = g := by
    decide
  refine hapart f hf g hg ?_
  rcases spelled_iff.mp hgkey with rfl | rfl <;> simp [hfkey]

section Overriding

variable {f : Field} {c₁ c₂ : Settings}

theorem lastGiven_append (given more : Settings) (test : String → Bool) :
    lastGiven (given ++ more) test = (lastGiven more test).or (lastGiven given test) := by
  rw [lastGiven, List.reverse_append, List.find?_append, Option.map_or, lastGiven, lastGiven]

/-- A field has the later value, if there is one, and else the earlier one. -/
theorem lastGiven_overriddenBy (hf : f ∈ NodeKind.allFields) (c₁ c₂ : Settings) :
    lastGiven (c₁.overriddenBy c₂) f.spelled = (lastGiven c₂ f.spelled).or (lastGiven c₁ f.spelled) := by
  rw [Settings.overriddenBy, lastGiven_append, lastGiven_filter c₁ fun key => !c₂.any fun d => sameField key d.1]
  cases hlater : lastGiven c₂ f.spelled with
  | some v => rfl
  | none =>
      -- no later key spells the field, so no earlier key that does is dropped
      have hnot : ∀ d ∈ c₂, f.spelled d.1 = false := fun d hd => by
        rw [lastGiven, Option.map_eq_none_iff, List.find?_eq_none] at hlater
        simpa using hlater d (List.mem_reverse.mpr hd)
      have hkept : (fun key => (!c₂.any fun d => sameField key d.1) && f.spelled key) = f.spelled := by
        funext key
        cases hkey : f.spelled key with
        | false => rw [Bool.and_false]
        | true =>
            rw [Bool.and_true, Bool.not_eq_true', List.any_eq_false]
            intro d hd hsame
            rw [sameField, Bool.or_eq_true, beq_iff_eq, List.any_eq_true] at hsame
            obtain rfl | ⟨g, hg, hspelled⟩ := hsame
            · exact absurd hkey (by rw [hnot d hd]; decide)
            · obtain ⟨hgkey, hgd⟩ := Bool.and_eq_true_iff.mp hspelled
              obtain rfl := NodeKind.eq_of_spelled_both hf hg hkey hgkey
              exact absurd hgd (by rw [hnot d hd]; decide)
      rw [hkept]

end Overriding

/-- **Two updates are one**, by the changes of the first under those of the second. -/
theorem Payload.update_update {p q r : Payload} {c₁ c₂ : Settings} (h₁ : p.update c₁ = .ok q)
    (h₂ : q.update c₂ = .ok r) : p.update (c₁.overriddenBy c₂) = .ok r := by
  obtain ⟨hkind₁, hgiven₁, hkept₁⟩ := update_eq_ok_iff.mp h₁
  obtain ⟨hkind₂, hgiven₂, hkept₂⟩ := update_eq_ok_iff.mp h₂
  rw [hkind₁] at hgiven₂ hkept₂
  refine update_eq_ok_iff.mpr ⟨hkind₂.trans hkind₁, fun f hf v hv => ?_, fun f hf hnone => ?_⟩
  · rw [lastGiven_overriddenBy (NodeKind.mem_allFields hf)] at hv
    cases hlater : lastGiven c₂ f.spelled with
    | some u =>
        rw [hlater, Option.some_or] at hv
        exact hgiven₂ f hf v (hlater.trans hv)
    | none =>
        rw [hlater, Option.none_or] at hv
        rw [hkept₂ f hf hlater]
        exact hgiven₁ f hf v hv
  · rw [lastGiven_overriddenBy (NodeKind.mem_allFields hf), Option.or_eq_none_iff] at hnone
    rw [hkept₂ f hf hnone.1, hkept₁ f hf hnone.2]

/-! ## Nodes and workflows -/

/-- A node after a change of the nodes with an id. -/
def Node.Updated (id : String) (changes : Settings) (m n : Node) : Prop :=
  if m.id = id then n.id = m.id ∧ n.position = m.position ∧ m.payload.Merged changes n.payload else n = m

/-- What an update does with one node. -/
def Node.updated (id : String) (changes : Settings) (n : Node) : Except Refused Node :=
  if n.id = id then (n.payload.update changes).map fun p => { n with payload := p } else .ok n

namespace Node

variable {id : String} {changes c₁ c₂ : Settings} {l m n : Node}

theorem updated_eq_ok_iff : m.updated id changes = .ok n ↔ Updated id changes m n := by
  rw [updated, Updated]
  by_cases hid : m.id = id
  · rw [if_pos hid, if_pos hid, except_map_eq_ok_iff]
    constructor
    · rintro ⟨p, hp, rfl⟩
      exact ⟨rfl, rfl, Payload.update_eq_ok_iff.mp hp⟩
    · rintro ⟨hsame, hplace, hp⟩
      refine ⟨n.payload, Payload.update_eq_ok_iff.mpr hp, ?_⟩
      rw [← hsame, ← hplace]
  · rw [if_neg hid, if_neg hid, Except.ok.injEq, eq_comm]

theorem exists_updated_iff : (∃ n, m.updated id changes = .ok n) ↔ (m.id = id → m.payload.Takes changes) := by
  rw [updated, ← Payload.exists_update_iff]
  by_cases hid : m.id = id
  · rw [if_pos hid]
    cases m.payload.update changes <;> simp [Except.map, hid]
  · simp [hid]

theorem id_of_updated (h : m.updated id changes = .ok n) : n.id = m.id := by
  have hboth := updated_eq_ok_iff.mp h
  rw [Updated] at hboth
  split at hboth
  · exact hboth.1
  · rw [hboth]

theorem updated_updated (h₁ : l.updated id c₁ = .ok m) (h₂ : m.updated id c₂ = .ok n) :
    l.updated id (c₁.overriddenBy c₂) = .ok n := by
  have hid := id_of_updated h₁
  rw [updated] at h₁ h₂ ⊢
  rw [hid] at h₂
  by_cases h : l.id = id
  · rw [if_pos h] at h₁ h₂ ⊢
    obtain ⟨p, hp, rfl⟩ := except_map_eq_ok_iff.mp h₁
    obtain ⟨q, hq, rfl⟩ := except_map_eq_ok_iff.mp h₂
    rw [Payload.update_update hp hq]
    rfl
  · rw [if_neg h] at h₁ h₂ ⊢
    obtain rfl := Except.ok.inj h₁
    exact h₂

theorem ids_of_mapM_updated {nodes results : List Node} (h : nodes.mapM (Node.updated id changes) = .ok results) :
    results.map (·.id) = nodes.map (·.id) := by
  replace h := mapM_eq_ok_iff.mp h
  induction h with
  | nil => rfl
  | cons hfirst _ ih => rw [List.map_cons, List.map_cons, ih, id_of_updated hfirst]

theorem mapM_updated_updated {nodes results more : List Node}
    (h₁ : nodes.mapM (Node.updated id c₁) = .ok results) (h₂ : results.mapM (Node.updated id c₂) = .ok more) :
    nodes.mapM (Node.updated id (c₁.overriddenBy c₂)) = .ok more := by
  replace h₁ := mapM_eq_ok_iff.mp h₁
  replace h₂ := mapM_eq_ok_iff.mp h₂
  refine mapM_eq_ok_iff.mpr ?_
  induction h₁ generalizing more with
  | nil =>
      obtain rfl := List.forall₂_nil_left_iff.mp h₂
      exact .nil
  | cons hfirst _ ih =>
      obtain ⟨n, rest, hn, hrest, rfl⟩ := List.forall₂_cons_left_iff.mp h₂
      exact .cons (updated_updated hfirst hn) (ih hrest)

end Node

namespace Workflow

variable {w v u : Workflow} {id : String} {changes c₁ c₂ : Settings} {now : Int}

theorem updateNode_of_unknown (h : w.node? id = none) (now : Int) (changes : Settings) :
    w.updateNode now id changes = .ok w := by
  rw [updateNode, h]
  rfl

theorem updateNode_of_known (h : w.node? id ≠ none) (now : Int) (changes : Settings) :
    w.updateNode now id changes =
      (w.nodes.mapM (Node.updated id changes)).map fun nodes => { w with nodes := nodes, updatedAt := now } := by
  have hsome : ¬(w.node? id).isNone = true := by rwa [Option.isNone_iff_eq_none]
  rw [updateNode, if_neg hsome]
  rfl

theorem node?_eq_none_iff : w.node? id = none ↔ id ∉ w.nodeIds := by
  simp [node?, nodeIds]

/-- An update is accepted iff the nodes with the id can have the values. -/
theorem exists_updateNode_iff : (∃ v, w.updateNode now id changes = .ok v) ↔
    ∀ n ∈ w.nodes, n.id = id → n.payload.Takes changes := by
  by_cases hknown : w.node? id = none
  · exact iff_of_true ⟨w, updateNode_of_unknown hknown now changes⟩
      fun n hn hid => absurd (List.mem_map.mpr ⟨n, hn, hid⟩) (node?_eq_none_iff.mp hknown)
  · rw [updateNode_of_known hknown]
    have hall : (∃ results, w.nodes.mapM (Node.updated id changes) = .ok results) ↔ _ := exists_mapM_iff
    simp only [Node.exists_updated_iff] at hall
    rw [← hall]
    cases w.nodes.mapM (Node.updated id changes) <;> simp [Except.map]

/-- **Two updates of a workflow are one.** -/
theorem updateNode_updateNode {now₁ now₂ : Int} (h₁ : w.updateNode now₁ id c₁ = .ok v)
    (h₂ : v.updateNode now₂ id c₂ = .ok u) : w.updateNode now₂ id (c₁.overriddenBy c₂) = .ok u := by
  by_cases hknown : w.node? id = none
  · rw [updateNode_of_unknown hknown] at h₁ ⊢
    obtain rfl : w = v := Except.ok.inj h₁
    rwa [updateNode_of_unknown hknown] at h₂
  · rw [updateNode_of_known hknown] at h₁ ⊢
    obtain ⟨nodes, hnodes, rfl⟩ := except_map_eq_ok_iff.mp h₁
    -- the nodes that the first update finds are there for the second one too
    have hthere : node? { w with nodes := nodes, updatedAt := now₁ } id ≠ none := by
      rw [ne_eq, node?_eq_none_iff, nodeIds, Node.ids_of_mapM_updated hnodes]
      exact mt node?_eq_none_iff.mpr hknown
    rw [updateNode_of_known hthere] at h₂
    obtain ⟨more, hmore, rfl⟩ := except_map_eq_ok_iff.mp h₂
    rw [Node.mapM_updated_updated hnodes hmore]
    rfl

/-- The time of an update is only noted. -/
theorem updateNode_at {now₁ : Int} (h : w.updateNode now₁ id changes = .ok v) (now : Int) :
    ∃ x, w.updateNode now id changes = .ok x ∧ x.touch now = v.touch now := by
  by_cases hknown : w.node? id = none
  · rw [updateNode_of_unknown hknown] at h ⊢
    exact ⟨w, rfl, by rw [Except.ok.inj h]⟩
  · rw [updateNode_of_known hknown] at h ⊢
    obtain ⟨nodes, hnodes, rfl⟩ := except_map_eq_ok_iff.mp h
    rw [hnodes]
    exact ⟨_, rfl, rfl⟩

/-- A refused update tells which of the given values cannot stand. -/
theorem faults_of_updateNode {e : Refused} (h : w.updateNode now id changes = .error e) :
    ∃ n ∈ w.nodes, n.id = id ∧ n.payload.update changes = .error e := by
  by_cases hknown : w.node? id = none
  · rw [updateNode_of_unknown hknown] at h
    cases h
  · rw [updateNode_of_known hknown] at h
    cases hnodes : w.nodes.mapM (Node.updated id changes) with
    | ok nodes =>
        rw [hnodes] at h
        cases h
    | error d =>
        rw [hnodes] at h
        obtain rfl : d = e := Except.error.inj h
        obtain ⟨n, hn, hd⟩ := exists_of_mapM_eq_error hnodes
        rw [Node.updated] at hd
        by_cases hid : n.id = id
        · rw [if_pos hid] at hd
          refine ⟨n, hn, hid, ?_⟩
          cases hp : n.payload.update changes with
          | ok p =>
              rw [hp] at hd
              cases hd
          | error r =>
              rw [hp] at hd
              rw [Except.error.inj hd]
        · rw [if_neg hid] at hd
          cases hd

/-- **Updating a node merges the changes into its data, field by field.** An id that no node has leaves the
workflow as it is. Else the nodes with the id get the values that their fields are given, where these can stand;
every other field, every other node and all else but the time of the last update stays. Where a value cannot stand
the update is refused, and the faults are those of such values. Two updates in turn are one, in which the later
values win. -/
theorem updateNode_merges (w : Workflow) (id : String) (c₁ c₂ : Settings) (now₁ now₂ now : Int) :
    (w.node? id = none → w.updateNode now₁ id c₁ = .ok w) ∧
    (w.node? id ≠ none → ∀ v, w.updateNode now₁ id c₁ = .ok v ↔
      ∃ nodes, List.Forall₂ (Node.Updated id c₁) w.nodes nodes ∧ v = { w with nodes := nodes, updatedAt := now₁ }) ∧
    ((∃ v, w.updateNode now₁ id c₁ = .ok v) ↔ ∀ n ∈ w.nodes, n.id = id → n.payload.Takes c₁) ∧
    (∀ e, w.updateNode now₁ id c₁ = .error e → ∃ n ∈ w.nodes, n.id = id ∧ e.title = n.kind.payloadName ∧
      e.faults ≠ [] ∧ ∀ fault ∈ e.faults, ∃ f ∈ n.kind.fields, ∃ v, lastGiven c₁ f.spelled = some v ∧
        (∀ u, f.normal v ≠ .ok u) ∧ fault.path.head? = some (.key f.snake)) ∧
    (∀ v u, w.updateNode now₁ id c₁ = .ok v → v.updateNode now₂ id c₂ = .ok u →
      ∃ x, w.updateNode now id (c₁.overriddenBy c₂) = .ok x ∧ x.touch now = u.touch now) := by
  refine ⟨fun h => updateNode_of_unknown h now₁ c₁, fun h v => ?_, exists_updateNode_iff, fun e he => ?_,
    fun v u h₁ h₂ => updateNode_at (updateNode_updateNode h₁ h₂) now⟩
  · rw [updateNode_of_known h, except_map_eq_ok_iff]
    simp only [mapM_eq_ok_iff, Node.updated_eq_ok_iff, eq_comm (b := v)]
  · obtain ⟨n, hn, hid, hrefused⟩ := faults_of_updateNode he
    exact ⟨n, hn, hid, Payload.fault_of_update hrefused⟩

/-- A loop whose count is given as text under its first spelling, and then as a number under its
second one: the changes come to one that keeps the label of the first and the count of the second. A
count of none is refused under its second spelling. -/
theorem updateNode_merges_counts :
    let loop : Node := ⟨"n1", .origin, .blank .loop⟩
    let w := (Workflow.create ⟨0, 0⟩ "Demo" none).1.insertNode 1 loop
    let c₁ : Settings := [("loopCount", .str "5"), ("label", .str "Again"), ("mcpTool", .str "none")]
    let c₂ : Settings := [("loop_count", .int 7)]
    (∃ v u, w.updateNode 2 "n1" c₁ = .ok v ∧ v.updateNode 3 "n1" c₂ = .ok u ∧
      (∃ x, w.updateNode 4 "n1" (c₁.overriddenBy c₂) = .ok x ∧ x.touch 4 = u.touch 4) ∧
      u.nodes.map (fun n => (n.label, n.rounds)) = [("Start", 1), ("Again", 7)]) ∧
    ∃ e, w.updateNode 2 "n1" [("loopCount", .int 0)] = .error e ∧ e.title = "LoopData" ∧
      e.faults = [⟨[.key "loop_count"], .tooSmall 1⟩] := by
  intro loop w c₁ c₂
  obtain ⟨-, -, -, -, hmerged⟩ := updateNode_merges w "n1" c₁ c₂ 2 3 4
  exact ⟨⟨_, _, rfl, rfl, hmerged _ _ rfl rfl, rfl⟩, _, rfl, rfl, rfl⟩

end Workflow

end Runbook
