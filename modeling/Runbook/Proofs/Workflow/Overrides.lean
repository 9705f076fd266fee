import Runbook.Proofs.Workflow.Fields

/-!
# Overrides for a fresh node

A fresh node may be given values over those of its template, and a node can be changed later:
two ways to the same payload, which put values into maps of different spelling. Reading sees
of a map what it holds for each field of the kind, and nothing else
(`Payload.value?_ofEntries_congr`). By this, giving values is adding the node and changing it,
but for the values that the template hides (`NodeKind.hides`): those under the second spelling
of a field that the template has under the first. Main statement: `Node.fresh_eq_update`.
-/

namespace Runbook

/-! ## Reading, but for the faults -/

namespace Decoded

variable {α β : Type}

/-- What was read, if nothing is wrong. -/
def value? : Decoded α → Option α
  | .ok a => some a
  | .faulty _ => none

theorem value?_map (f : α → β) (x : Decoded α) : (f <$> x).value? = x.value?.map f := by
  cases x <;> rfl

theorem value?_seq (g : Decoded (α → β)) (x : Decoded α) :
    (g <*> x).value? = g.value?.bind fun f => x.value?.map f := by
  cases g <;> cases x <;> rfl

theorem value?_within (step : Step) (x : Decoded α) : (x.within step).value? = x.value? := by
  cases x <;> rfl

theorem value?_orRefuse (title : String) (x : Decoded α) : (x.orRefuse title).toOption = x.value? := by
  cases x <;> rfl

end Decoded

/-! ## What a map holds for a field -/

/-- The value that a map gives a field. -/
def Field.value? (f : Field) (entries : Entries) : Option Value := (f.find? entries).map Prod.snd

theorem Field.value?_eq (f : Field) (entries : Entries) :
    f.value? entries = (entries.text? f.camel).or (entries.text? f.snake) := by
  rw [value?, find?]
  cases entries.text? f.camel with
  | some v => rfl
  | none => cases entries.text? f.snake <;> rfl

namespace NodeKind

/-- The fields of the payloads of a kind. -/
def fields (kind : NodeKind) : List Field := (Payload.blank kind).fields.map Prod.fst

/-- The value that a field which is missing stands for. -/
def standing (kind : NodeKind) (f : Field) : Value := (f.value? (Payload.blank kind).snapshot).getD .null

/-- The value that a map holds for a field of a kind. -/
def held (kind : NodeKind) (entries : Entries) (f : Field) : Value := (f.value? entries).getD (kind.standing f)

/-- Two fields have no spelling in common. -/
theorem spellings_ne (kind : NodeKind) : ∀ f ∈ kind.fields, ∀ g ∈ kind.fields, f ≠ g →
    f.camel ≠ g.camel ∧ f.camel ≠ g.snake ∧ f.snake ≠ g.snake := by
  cases kind <;> decide

end NodeKind

theorem Payload.map_fst_fields (p : Payload) : p.fields.map Prod.fst = p.detail.kind.fields := by
  obtain ⟨label, description, linkedId, linkedType, detail⟩ := p
  cases detail <;> rfl

section Congruence

variable {kind : NodeKind} {α : Type} {f : Field} {default : α} {read : Value → Decoded α} {A B : Entries}

/-- A field is read as what the map holds for it. -/
theorem value?_withDefault (hstanding : (read (kind.standing f)).value? = some default) (entries : Entries) :
    (f.withDefault default read entries).value? = (read (kind.held entries f)).value? := by
  rw [Field.withDefault, NodeKind.held, Field.value?]
  cases f.find? entries with
  | some p => exact Decoded.value?_within _ _
  | none => exact hstanding.symm

variable (f default read) in
theorem value?_withDefault_congr (hstanding : (read (kind.standing f)).value? = some default)
    (h : kind.held A f = kind.held B f) :
    (f.withDefault default read A).value? = (f.withDefault default read B).value? := by
  rw [value?_withDefault hstanding, value?_withDefault hstanding, h]

variable (f) in
theorem value?_optionalText_congr (hstanding : kind.standing f = .null) (h : kind.held A f = kind.held B f) :
    (f.optionalText A).value? = (f.optionalText B).value? :=
  value?_withDefault_congr _ _ _ (by rw [hstanding]; rfl) h

theorem Detail.value?_decode_congr (h : ∀ f ∈ kind.fields, kind.held A f = kind.held B f) :
    (Detail.decode kind A).value? = (Detail.decode kind B).value? := by
  cases kind with
  | action | output => rfl
  | prompt =>
      have htext := value?_optionalText_congr .prompt rfl (h _ (by decide))
      simp only [Detail.decode, Decoded.value?_map, htext]
  | decision =>
      have hcondition := value?_optionalText_congr .condition rfl (h _ (by decide))
      simp only [Detail.decode, Decoded.value?_map, hcondition]
  | loop =>
      have htimes := value?_withDefault_congr .loopCount .default Lenient.loopCount rfl
        (h _ (by decide))
      simp only [Detail.decode, Decoded.value?_map, htimes]
  | trigger =>
      have htype := value?_withDefault_congr .triggerType .manual TriggerType.decode rfl
        (h _ (by decide))
      have hconfig := value?_withDefault_congr .triggerConfig [] Lenient.settings rfl
        (h _ (by decide))
      simp only [Detail.decode, Decoded.value?_map, Decoded.value?_seq, htype, hconfig]
  | subagent =>
      have hprompt := value?_optionalText_congr .subagentPrompt rfl (h _ (by decide))
      have hcontext := value?_optionalText_congr .subagentContext rfl (h _ (by decide))
      simp only [Detail.decode, Decoded.value?_map, Decoded.value?_seq, hprompt, hcontext]
  | mcpCall =>
      have hserver := value?_optionalText_congr .mcpServer rfl (h _ (by decide))
      have htool := value?_optionalText_congr .mcpTool rfl (h _ (by decide))
      have hargs := value?_withDefault_congr .mcpArgs [] Lenient.settings rfl
        (h _ (by decide))
      simp only [Detail.decode, Decoded.value?_map, Decoded.value?_seq, hserver, htool, hargs]

/-- **A payload is read from what the map holds for its fields.** -/
theorem Payload.value?_ofEntries_congr (h : ∀ f ∈ kind.fields, kind.held A f = kind.held B f) :
    (Payload.ofEntries kind A).value? = (Payload.ofEntries kind B).value? := by
  have hshared : ∀ f ∈ [Field.label, .description, .linkedItemId, .linkedItemType], f ∈ kind.fields := by
    cases kind <;> decide
  have hlabel := value?_withDefault_congr .label "" Lenient.text
    (by cases kind <;> rfl) (h _ (hshared _ (by decide)))
  have hdescription := value?_optionalText_congr .description (by cases kind <;> rfl)
    (h _ (hshared _ (by decide)))
  have hlinkedId := value?_optionalText_congr .linkedItemId (by cases kind <;> rfl)
    (h _ (hshared _ (by decide)))
  have hlinkedType := value?_optionalText_congr .linkedItemType (by cases kind <;> rfl)
    (h _ (hshared _ (by decide)))
  simp only [Payload.ofEntries, Decoded.value?_map, Decoded.value?_seq, hlabel, hdescription, hlinkedId,
    hlinkedType, Detail.value?_decode_congr h]

end Congruence

/-! ## Values put into maps -/

section Lookup

variable {entries : Entries} {key k : String} {v : Value} {given : Settings} {f : Field}

theorem eq_str_of_sameKey {u : Value} (h : u.sameKey (.str k) = true) : u = .str k := by
  cases u with
  | str s => exact congrArg Value.str (beq_iff_eq.mp h)
  | _ => cases h

theorem text?_cons (u v : Value) (rest : Entries) (key : String) :
    Entries.text? ((u, v) :: rest) key = if u.sameKey (.str key) = true then some v else rest.text? key := rfl

theorem text?_insert (entries : Entries) (k key : String) (v : Value) :
    (entries.insert (.str k) v).text? key = if k = key then some v else entries.text? key := by
  induction entries with
  | nil =>
      rw [Entries.insert, text?_cons, Value.sameKey_str]
      simp only [beq_iff_eq]
  | cons e rest ih =>
      obtain ⟨u, old⟩ := e
      rw [Entries.insert]
      by_cases hold : u.sameKey (.str k) = true
      · obtain rfl := eq_str_of_sameKey hold
        rw [if_pos hold, text?_cons, text?_cons, Value.sameKey_str]
        by_cases h : k = key <;> simp [h]
      · rw [if_neg hold, text?_cons, text?_cons, ih]
        by_cases hsame : u.sameKey (.str key) = true
        · have hne : k ≠ key := fun h => hold (h ▸ hsame)
          rw [if_pos hsame, if_pos hsame, if_neg hne]
        · rw [if_neg hsame, if_neg hsame]

/-- The last of the given values whose key passes a test. -/
def lastGiven (given : Settings) (test : String → Bool) : Option Value :=
  (given.reverse.find? fun e => test e.1).map Prod.snd

theorem lastGiven_cons (e : String × Value) (given : Settings) (test : String → Bool) :
    lastGiven (e :: given) test = (lastGiven given test).or (if test e.1 then some e.2 else none) := by
  rw [lastGiven, lastGiven, List.reverse_cons, List.find?_append, Option.map_or, List.find?_singleton]
  cases test e.1 <;> rfl

/-- **What is put in last is found.** -/
theorem text?_foldl_insert (given : Settings) (key : String) : ∀ entries : Entries,
    (given.foldl (fun entries e => entries.insert (.str e.1) e.2) entries).text? key =
      (lastGiven given (· == key)).or (entries.text? key) := by
  induction given with
  | nil => exact fun _ => rfl
  | cons e rest ih =>
      intro entries
      rw [List.foldl_cons, ih, lastGiven_cons, text?_insert, Option.or_assoc]
      by_cases h : e.1 = key <;> simp [h]

end Lookup

/-! ## Changing a payload -/

section Changes

variable {p : Payload} {kind : NodeKind} {f g : Field} {key : String} {entries : Entries} {e : String × Value}

theorem spelled_iff : f.spelled key = true ↔ key = f.camel ∨ key = f.snake := by
  rw [Field.spelled, Bool.or_eq_true, beq_iff_eq, beq_iff_eq]

/-- A key spells one field of a kind at most. -/
theorem eq_of_spelled (hf : f ∈ kind.fields) (hg : g ∈ kind.fields) (hfkey : f.spelled key = true)
    (hgkey : g.spelled key = true) : f = g := by
  by_contra hne
  obtain ⟨hcamel, hcross, hsnake⟩ := kind.spellings_ne f hf g hg hne
  obtain ⟨-, hcross', -⟩ := kind.spellings_ne g hg f hf (Ne.symm hne)
  rcases spelled_iff.mp hfkey with rfl | rfl <;> rcases spelled_iff.mp hgkey with h | h
  · exact hcamel h
  · exact hcross h
  · exact hcross' h.symm
  · exact hsnake h

theorem field?_of_spelled (hf : f ∈ p.detail.kind.fields) (hkey : f.spelled key = true) : p.field? key = some f := by
  rw [Payload.field?, p.map_fst_fields]
  cases hfind : p.detail.kind.fields.find? (·.spelled key) with
  | none => exact absurd hkey (List.find?_eq_none.mp hfind f hf)
  | some g =>
      have hgkey := List.find?_some (p := fun g : Field => g.spelled key) hfind
      rw [eq_of_spelled hf (List.mem_of_find?_eq_some hfind) hkey hgkey]

theorem mem_fields_of_field? (h : p.field? key = some g) : g ∈ p.detail.kind.fields ∧ g.spelled key = true := by
  rw [Payload.field?, p.map_fst_fields] at h
  exact ⟨List.mem_of_find?_eq_some h, List.find?_some (p := fun g : Field => g.spelled key) h⟩

/-- One change, put in under the second spelling of its field. -/
def Payload.change (p : Payload) (entries : Entries) (e : String × Value) : Entries :=
  match p.field? e.1 with
  | some f => entries.insert (.str f.snake) e.2
  | none => entries

theorem text?_change_snake (hf : f ∈ p.detail.kind.fields) (entries : Entries) (e : String × Value) :
    (p.change entries e).text? f.snake = if f.spelled e.1 = true then some e.2 else entries.text? f.snake := by
  rw [Payload.change]
  by_cases hkey : f.spelled e.1 = true
  · rw [field?_of_spelled hf hkey, if_pos hkey]
    exact (text?_insert _ _ _ _).trans (if_pos rfl)
  · rw [if_neg hkey]
    cases hfield : p.field? e.1 with
    | none => rfl
    | some g =>
        obtain ⟨hg, hgkey⟩ := mem_fields_of_field? hfield
        have hne : g ≠ f := fun h => hkey (h ▸ hgkey)
        exact (text?_insert _ _ _ _).trans (if_neg (p.detail.kind.spellings_ne g hg f hf hne).2.2)

/-- No change is put in under a first spelling that differs from the second. -/
theorem text?_change_camel (hf : f ∈ p.detail.kind.fields) (hspellings : f.camel ≠ f.snake) (entries : Entries)
    (e : String × Value) : (p.change entries e).text? f.camel = entries.text? f.camel := by
  rw [Payload.change]
  cases hfield : p.field? e.1 with
  | none => rfl
  | some g =>
      obtain ⟨hg, -⟩ := mem_fields_of_field? hfield
      refine (text?_insert _ _ _ _).trans (if_neg fun h => ?_)
      by_cases hgf : f = g
      · exact hspellings (hgf ▸ h.symm)
      · exact (p.detail.kind.spellings_ne f hf g hg hgf).2.1 h.symm

theorem text?_changed_snake (hf : f ∈ p.detail.kind.fields) (changes : Settings) : ∀ entries : Entries,
    (changes.foldl p.change entries).text? f.snake = (lastGiven changes f.spelled).or (entries.text? f.snake) := by
  induction changes with
  | nil => exact fun _ => rfl
  | cons e rest ih =>
      intro entries
      rw [List.foldl_cons, ih, lastGiven_cons, text?_change_snake hf, Option.or_assoc]
      by_cases h : f.spelled e.1 = true <;> simp [h]

theorem text?_changed_camel (hf : f ∈ p.detail.kind.fields) (hspellings : f.camel ≠ f.snake) (changes : Settings) :
    ∀ entries : Entries, (changes.foldl p.change entries).text? f.camel = entries.text? f.camel := by
  induction changes with
  | nil => exact fun _ => rfl
  | cons e rest ih =>
      intro entries
      rw [List.foldl_cons, ih, text?_change_camel hf hspellings]

/-- A snapshot has no first spelling that differs from the second. -/
theorem text?_snapshot_camel (hf : f ∈ p.detail.kind.fields) (hspellings : f.camel ≠ f.snake) :
    p.snapshot.text? f.camel = none := by
  have hnone : ∀ fields : List FieldValue, (∀ q ∈ fields, q.1.snake ≠ f.camel) →
      Entries.text? (fields.map fun q => (.str q.1.snake, q.2.getD .null)) f.camel = none := by
    intro fields h
    induction fields with
    | nil => rfl
    | cons q rest ih =>
        obtain ⟨hq, hrest⟩ := List.forall_mem_cons.mp h
        rw [List.map_cons, text?_cons, if_neg (by simpa using hq), ih hrest]
  refine hnone p.fields fun q hq h => ?_
  have hg : q.1 ∈ p.detail.kind.fields := p.map_fst_fields ▸ List.mem_map_of_mem hq
  by_cases hgf : f = q.1
  · exact hspellings (hgf ▸ h.symm)
  · exact (p.detail.kind.spellings_ne f hf q.1 hg hgf).2.1 h.symm

/-- **What an update reads for a field**: the value that the changes give it, or the one it had. -/
theorem value?_changed (hf : f ∈ p.detail.kind.fields) (changes : Settings) :
    f.value? (p.changed changes) = (lastGiven changes f.spelled).or (f.value? p.snapshot) := by
  have hchanged : p.changed changes = changes.foldl p.change p.snapshot := rfl
  rw [f.value?_eq, f.value?_eq, hchanged, text?_changed_snake hf]
  by_cases hspellings : f.camel = f.snake
  · rw [hspellings, text?_changed_snake hf]
    cases lastGiven changes f.spelled <;> cases p.snapshot.text? f.snake <;> rfl
  · rw [text?_changed_camel hf hspellings, text?_snapshot_camel hf hspellings, Option.none_or, Option.none_or]

end Changes

/-! ## Giving values to a fresh node -/

namespace NodeKind

/-- The data of a kind's template. -/
def template (kind : NodeKind) : Entries := (Template.dataFor kind).map fun (k, v) => (.str k, v)

/-- Whether the template hides what is given under a key: the key is the second spelling of a
field that the template has under the first. -/
def hides (kind : NodeKind) (key : String) : Bool :=
  kind.fields.any fun f => f.snake == key && f.camel != key && (kind.template.text? f.camel).isSome

/-- The given values that the template does not hide. -/
def shown (kind : NodeKind) (given : Settings) : Settings := given.filter fun e => !kind.hides e.1

/-- No field of the kind is named twice, by either of its spellings. -/
def NamesOnce (kind : NodeKind) (given : Settings) : Prop :=
  ∀ f ∈ kind.fields, (given.filter fun e => f.spelled e.1).length ≤ 1

/-- The keys that a template hides. -/
def hidden : List (NodeKind × String) :=
  [(.trigger, Field.triggerType.snake), (.loop, Field.loopCount.snake), (.subagent, Field.subagentPrompt.snake)]

/-- Every other key is shown. -/
theorem hides_iff (kind : NodeKind) (key : String) : kind.hides key = true ↔ (kind, key) ∈ hidden := by
  have hcomputed : ∀ kind : NodeKind, (kind.fields.filter fun f => f.camel != f.snake &&
      (kind.template.text? f.camel).isSome).map Field.snake = (hidden.filter (·.1 = kind)).map Prod.snd := by
    intro kind
    cases kind <;> decide
  have hmem : (kind, key) ∈ hidden ↔ key ∈ (hidden.filter (·.1 = kind)).map Prod.snd := by simp
  rw [hmem, ← hcomputed]
  simp only [hides, List.any_eq_true, List.mem_map, List.mem_filter, Bool.and_eq_true, beq_iff_eq]
  constructor
  · rintro ⟨f, hf, ⟨rfl, hne⟩, hthere⟩
    exact ⟨f, ⟨hf, hne, hthere⟩, rfl⟩
  · rintro ⟨f, ⟨hf, hne, hthere⟩, rfl⟩
    exact ⟨f, hf, ⟨rfl, hne⟩, hthere⟩

theorem shown_eq (kind : NodeKind) (given : Settings) :
    kind.shown given = given.filter fun e => (kind, e.1) ∉ hidden :=
  List.filter_congr fun e _ => by
    by_cases h : kind.hides e.1 = true
    · rw [h, decide_eq_false (not_not_intro ((kind.hides_iff _).mp h)), Bool.not_true]
    · rw [eq_false_of_ne_true h, decide_eq_true (mt (kind.hides_iff _).mpr h), Bool.not_false]

theorem hides_eq (kind : NodeKind) : ∀ f ∈ kind.fields,
    (f.camel ≠ f.snake → kind.hides f.camel = false) ∧
      kind.hides f.snake = (f.camel != f.snake && (kind.template.text? f.camel).isSome) := by
  cases kind <;> decide

end NodeKind

section Given

variable {kind : NodeKind} {f : Field} {given : Settings}

theorem lastGiven_filter (given : Settings) (keep test : String → Bool) :
    lastGiven (given.filter fun e => keep e.1) test = lastGiven given fun key => keep key && test key := by
  simp only [lastGiven, ← List.filter_reverse, List.find?_filter, Bool.decide_and, Bool.decide_eq_true]

theorem lastGiven_key (keep : String → Bool) (given : Settings) (key : String) :
    lastGiven (given.filter fun e => keep e.1) (· == key) =
      if keep key = true then lastGiven given (· == key) else none := by
  rw [lastGiven_filter]
  by_cases hkeep : keep key = true
  · have htest : (fun k => keep k && k == key) = fun k => k == key := by
      funext k
      by_cases h : k = key <;> simp [h, hkeep]
    rw [if_pos hkeep, htest]
  · have htest : ∀ k, (keep k && k == key) = false := by
      intro k
      by_cases h : k = key <;> simp [h, hkeep]
    rw [if_neg hkeep, lastGiven, List.find?_eq_none.mpr fun e _ => by simp [htest]]
    rfl

theorem lastGiven_eq_none {test : String → Bool} (h : ∀ e ∈ given, test e.1 = false) : lastGiven given test = none := by
  rw [lastGiven, List.find?_eq_none.mpr fun e he => by simp [h e (List.mem_reverse.mp he)]]
  rfl

/-- What is named once is named by one of the two spellings. -/
theorem lastGiven_spelled (honce : (given.filter fun e => f.spelled e.1).length ≤ 1) :
    lastGiven given f.spelled = (lastGiven given (· == f.camel)).or (lastGiven given (· == f.snake)) := by
  induction given with
  | nil => rfl
  | cons e rest ih =>
      rw [lastGiven_cons, lastGiven_cons, lastGiven_cons]
      by_cases hkey : f.spelled e.1 = true
      · -- nothing after it spells the field
        rw [List.filter_cons, if_pos hkey, List.length_cons] at honce
        have hrest : ∀ d ∈ rest, f.spelled d.1 = false := fun d hd => by
          have hnil : rest.filter (fun e => f.spelled e.1) = [] := List.length_eq_zero_iff.mp (by omega)
          simpa using List.filter_eq_nil_iff.mp hnil d hd
        have hcamel : ∀ d ∈ rest, (d.1 == f.camel) = false := fun d hd => (Bool.or_eq_false_iff.mp (hrest d hd)).1
        have hsnake : ∀ d ∈ rest, (d.1 == f.snake) = false := fun d hd => (Bool.or_eq_false_iff.mp (hrest d hd)).2
        rw [lastGiven_eq_none hrest, lastGiven_eq_none hcamel, lastGiven_eq_none hsnake]
        rcases spelled_iff.mp hkey with h | h
        · simp [Field.spelled, h]
        · by_cases hboth : f.snake = f.camel <;> simp [Field.spelled, h, hboth]
      · have hnot := Bool.or_eq_false_iff.mp (Bool.not_eq_true _ ▸ hkey)
        rw [List.filter_cons, if_neg hkey] at honce
        rw [ih honce, if_neg hkey, hnot.1, hnot.2]
        simp

/-- **What a fresh node reads for a field**: the value given, if it is not hidden, or the
template's. -/
theorem value?_startingData (hf : f ∈ kind.fields) (honce : (given.filter fun e => f.spelled e.1).length ≤ 1) :
    f.value? (Node.startingData kind (given.map fun (k, v) => (.str k, v))) =
      (lastGiven (kind.shown given) f.spelled).or (f.value? kind.template) := by
  have hstarting : Node.startingData kind (given.map fun (k, v) => (.str k, v)) =
      given.foldl (fun entries e => entries.insert (.str e.1) e.2) kind.template := by
    rw [Node.startingData, List.foldl_map]
    rfl
  have hshown : ((kind.shown given).filter fun e => f.spelled e.1).length ≤ 1 :=
    Nat.le_trans (List.Sublist.length_le (List.filter_sublist.filter _)) honce
  -- the first spelling comes first: what the template has under it stands before what is given under the second
  obtain ⟨hcamel, hsnake⟩ := kind.hides_eq f hf
  rw [f.value?_eq, f.value?_eq, hstarting, text?_foldl_insert, text?_foldl_insert, lastGiven_spelled hshown,
    NodeKind.shown, lastGiven_key fun key => !kind.hides key, lastGiven_key fun key => !kind.hides key]
  by_cases hspellings : f.camel = f.snake
  · have hkept : kind.hides f.snake = false := by rw [hsnake, hspellings, bne_self_eq_false, Bool.false_and]
    rw [hspellings, hkept]
    cases lastGiven given (· == f.snake) <;> cases kind.template.text? f.snake <;> rfl
  · have hne : (f.camel != f.snake) = true := bne_iff_ne.mpr hspellings
    rw [hcamel hspellings, hsnake, hne]
    cases kind.template.text? f.camel <;> cases lastGiven given (· == f.camel) <;> rfl

end Given

/-! ## Both ways -/

/-- A template holds a payload of its kind, and the payload holds for each field what the
template does. -/
theorem exists_template (kind : NodeKind) : ∃ p : Payload, Payload.ofEntries kind kind.template = .ok p ∧
    p.detail.kind = kind ∧ kind.fields.map (kind.held kind.template) = kind.fields.map (kind.held p.snapshot) := by
  cases kind <;> exact ⟨_, rfl, rfl, rfl⟩

/-- **To give values is to change the template by them**, but for those that it hides. -/
theorem value?_ofEntries_startingData {kind : NodeKind} {given : Settings} {p : Payload} (honce : kind.NamesOnce given)
    (hp : Payload.ofEntries kind kind.template = .ok p) :
    (Payload.ofEntries kind (Node.startingData kind (given.map fun (k, v) => (.str k, v)))).value? =
      (p.update (kind.shown given)).toOption := by
  obtain ⟨q, hq, hkind, hheld⟩ := exists_template kind
  obtain rfl : p = q := Decoded.ok.inj (hp.symm.trans hq)
  rw [Payload.update, Decoded.value?_orRefuse, hkind]
  -- by what each field holds, for the two maps spell it differently
  refine Payload.value?_ofEntries_congr fun f hf => ?_
  have hsame := List.map_inj_left.mp hheld f hf
  rw [NodeKind.held, NodeKind.held, value?_startingData hf (honce f hf), value?_changed (hkind ▸ hf)]
  cases lastGiven (kind.shown given) f.spelled with
  | some v => rfl
  | none => exact hsame

theorem Node.toOption_fresh (m : Mint) (kind : NodeKind) (position : Value) (given : Entries) :
    (Node.fresh m kind position given).1.toOption = (Position.decode position).value?.bind fun place =>
      (Payload.ofEntries kind (Node.startingData kind given)).value?.map fun p => ⟨m.nodeId.1, place, p⟩ := by
  unfold Node.fresh
  split
  · next h =>
    rw [h]
    rfl
  · simp only [Decoded.value?_orRefuse, Decoded.value?_seq, Decoded.value?_map, Decoded.value?_within, Option.bind_map]
    rfl

/-- Which id is drawn, and whether one is, does not depend on the values given. -/
theorem Node.fresh_snd (m : Mint) (kind : NodeKind) (position : Value) (given : Entries) :
    (Node.fresh m kind position given).2 = (Node.fresh m kind position []).2 := by
  unfold Node.fresh
  split <;> rfl

/-- To change a node that is not there changes none. -/
theorem Workflow.mapM_update_of_notMem {nodes : List Node} {id : String} (change : Node → Except Refused Node)
    (h : id ∉ nodes.map (·.id)) :
    (nodes.mapM fun n => if n.id = id then change n else .ok n) = Except.ok nodes := by
  induction nodes with
  | nil => rfl
  | cons n rest ih =>
      rw [List.map_cons, List.mem_cons, not_or] at h
      rw [List.mapM_cons, ih h.2, if_neg (Ne.symm h.1)]
      rfl

/-- A node that was put in last, changed. -/
theorem Workflow.updateNode_insertNode {w : Workflow} {n : Node} (hnew : n.id ∉ w.nodeIds) (now later : Int)
    (changes : Settings) : ((w.insertNode now n).updateNode later n.id changes).toOption =
      (n.payload.update changes).toOption.map fun p => w.insertNode later { n with payload := p } := by
  have hthere : ¬((w.insertNode now n).node? n.id).isNone = true := by
    rw [Workflow.node?, Workflow.insertNode, Workflow.touch, Option.isNone_iff_eq_none, List.find?_eq_none]
    exact fun h => h n (by simp) (by simp)
  rw [Workflow.updateNode, if_neg hthere, Workflow.insertNode, Workflow.touch]
  simp only [List.mapM_append, mapM_update_of_notMem _ hnew, List.mapM_cons, List.mapM_nil, if_true]
  cases n.payload.update changes <;> rfl

/-- **To give a fresh node values is to add it and change it**, but for the values that its
template hides: the same id is drawn, the same node comes out, or both ways refuse. -/
theorem Node.fresh_eq_update {kind : NodeKind} {given : Settings} (honce : kind.NamesOnce given) (m : Mint)
    (position : Value) :
    let plain := Node.fresh m kind position []
    let direct := Node.fresh m kind position (given.map fun (k, v) => (.str k, v))
    let shown := given.filter fun e => (kind, e.1) ∉ NodeKind.hidden
    direct.2 = plain.2 ∧
      (plain.1.toOption = none → direct.1.toOption = none) ∧
      ∀ n, plain.1 = .ok n → ∀ (w : Workflow) (now later : Int), n.id ∉ w.nodeIds →
        ((w.insertNode now n).updateNode later n.id shown).toOption =
          direct.1.toOption.map (w.insertNode later) := by
  intro plain direct shown
  obtain ⟨p, hp, -⟩ := exists_template kind
  have hdirect : direct.1.toOption = (Position.decode position).value?.bind fun place =>
      (p.update shown).toOption.map fun q => ⟨m.nodeId.1, place, q⟩ := by
    rw [Node.toOption_fresh, value?_ofEntries_startingData honce hp, kind.shown_eq]
  have hplain : plain.1.toOption = (Position.decode position).value?.map fun place => ⟨m.nodeId.1, place, p⟩ := by
    have hread : (Payload.ofEntries kind (Node.startingData kind [])).value? = some p := congrArg Decoded.value? hp
    rw [Node.toOption_fresh, hread, Option.map_eq_bind]
    rfl
  refine ⟨Node.fresh_snd m kind position _, fun hnone => ?_, fun n hn w now later hnew => ?_⟩
  · rw [hplain, Option.map_eq_none_iff] at hnone
    rw [hdirect, hnone, Option.bind_none]
  · obtain ⟨place, hplace, rfl⟩ := Option.map_eq_some_iff.mp (hplain.symm.trans (congrArg Except.toOption hn))
    rw [Workflow.updateNode_insertNode hnew, hdirect, hplace, Option.bind_some, Option.map_map]
    rfl

/-- A loop that is given a count under the second spelling keeps the template's count, and
changing it by no value comes to the same. Changing it by the given value does not. -/
theorem Node.fresh_loop_hides_count :
    let given : Settings := [(Field.loopCount.snake, .int 5)]
    let place : Value := .map [(.str "x", .int 0), (.str "y", .int 0)]
    let plain := Node.fresh ⟨0, 0⟩ .loop place []
    let direct := Node.fresh ⟨0, 0⟩ .loop place (given.map fun (k, v) => (.str k, v))
    let w := (Workflow.create ⟨0, 0⟩ "Demo" none).1
    NodeKind.loop.NamesOnce given ∧ direct.2 = plain.2 ∧
      (∃ n, plain.1 = .ok n ∧ n.id ∉ w.nodeIds ∧
        ((w.insertNode 0 n).updateNode 0 n.id []).toOption = direct.1.toOption.map (w.insertNode 0)) ∧
      direct.1.toOption.map (·.payload.detail) = some (.loop ⟨3, by decide⟩) ∧
      plain.1.toOption.map (fun n => (n.payload.update given).toOption.map (·.detail)) =
        some (some (.loop ⟨5, by decide⟩)) := by
  intro given place plain direct w
  have honce : NodeKind.loop.NamesOnce given := by
    unfold NodeKind.NamesOnce
    decide
  obtain ⟨hdrawn, -, hsame⟩ := Node.fresh_eq_update honce ⟨0, 0⟩ place
  have hnew : (Mint.nodeId ⟨0, 0⟩).1 ∉ w.nodeIds := by decide
  exact ⟨honce, hdrawn, ⟨_, rfl, hnew, hsame _ rfl w 0 0 hnew⟩, rfl, rfl⟩

end Runbook
