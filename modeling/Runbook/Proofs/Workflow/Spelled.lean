import Mathlib.Data.List.Forall2
import Runbook.Proofs.Workflow.Overrides

/-!
# Data that is spelled otherwise

A model takes one value for each of its fields from a map, from under either spelling, and
passes over what else the map holds. So two maps that give the same values to the fields are
read alike, whichever spellings they use (`Field.Respelled`). Where a field holds maps of a
model of its own, these may differ in the same way, from a workflow down to its places and
payloads; and a handle may be written as the truth value that it stands for (`SameHandle`).
Settings are values like any other: their keys are no fields, and stay as they are.

Readings of such maps agree (`Decoded.Agree`): they give the same, or the same is wrong, in
the same order, at places that may be named otherwise. Main statement:
`Workflow.decode_respelled`.
-/

namespace Runbook

/-! ## Readings that agree -/

namespace Decoded

variable {α β : Type} {x y : Decoded α}

/-- **The same but for the places**: both readings give the same, or find the same causes in
the same order. -/
inductive Agree : Decoded α → Decoded α → Prop where
  | ok (a : α) : Agree (.ok a) (.ok a)
  | faulty {faults others : List Fault} (h : faults.map (·.cause) = others.map (·.cause)) :
      Agree (.faulty faults) (.faulty others)

namespace Agree

theorem refl (x : Decoded α) : x.Agree x := by
  cases x with
  | ok a => exact .ok a
  | faulty faults => exact .faulty rfl

theorem map (h : x.Agree y) (f : α → β) : (f <$> x).Agree (f <$> y) := by
  cases h with
  | ok a => exact .ok (f a)
  | faulty h => exact .faulty h

theorem seq {g k : Decoded (α → β)} (hg : g.Agree k) (h : x.Agree y) :
    (g <*> x).Agree (k <*> y) := by
  cases hg with
  | ok f =>
      cases h with
      | ok a => exact .ok (f a)
      | faulty h => exact .faulty h
  | faulty hg =>
      cases h with
      | ok a => exact .faulty hg
      | faulty h => exact .faulty (by rw [List.map_append, List.map_append, hg, h])

/-- The steps may differ, for the causes do not tell them. -/
theorem within (h : x.Agree y) (s t : Step) : (x.within s).Agree (y.within t) := by
  cases h with
  | ok a => exact .ok a
  | faulty h =>
      apply Agree.faulty
      rw [List.map_map, List.map_map]
      exact h

theorem allFrom {xs ys : List (Decoded α)} (h : List.Forall₂ Agree xs ys) : ∀ i : Nat,
    (Decoded.allFrom i xs).Agree (Decoded.allFrom i ys) := by
  induction h with
  | nil => exact fun _ => .ok []
  | cons hx _ ih =>
      intro i
      exact ((hx.within _ _).map List.cons).seq (ih (i + 1))

end Agree

theorem agree_of_eq {read : Value → Decoded α} (u v : Value) (h : u = v) :
    (read u).Agree (read v) :=
  h ▸ .refl (read u)

end Decoded

open Decoded (agree_of_eq)

/-! ## What a map gives a field -/

/-- Whether a key is a spelling of the field. -/
def Field.spelledBy (f : Field) : Value → Bool
  | .str s => f.spelled s
  | _ => false

/-- The values that a map has under spellings of a field. -/
def Entries.given (entries : Entries) (f : Field) : List Value :=
  (entries.filter fun e => f.spelledBy e.1).map Prod.snd

/-- **A field that is spelled otherwise**: a map has it under one spelling at most, and
another has it too, under either, or has it not either. -/
def Field.Respelled (f : Field) (differ : Value → Value → Prop) (A B : Entries) : Prop :=
  (A.given f).length ≤ 1 ∧ List.Forall₂ differ (A.given f) (B.given f)

section Given

variable {f : Field} {key : String} {v : Value} {A B : Entries} {differ : Value → Value → Prop}

theorem mem_given_iff : v ∈ A.given f ↔ ∃ key, (.str key, v) ∈ A ∧ f.spelled key = true := by
  rw [Entries.given, List.mem_map]
  constructor
  · rintro ⟨⟨k, u⟩, he, rfl⟩
    obtain ⟨hmem, hkey⟩ := List.mem_filter.mp he
    cases k with
    | str s => exact ⟨s, hmem, hkey⟩
    | _ => cases hkey
  · rintro ⟨key, hmem, hkey⟩
    exact ⟨(.str key, v), List.mem_filter.mpr ⟨hmem, hkey⟩, rfl⟩

theorem mem_of_text? (h : A.text? key = some v) : (.str key, v) ∈ A := by
  induction A with
  | nil => cases h
  | cons e rest ih =>
      obtain ⟨k, u⟩ := e
      rw [text?_cons] at h
      split at h
      · rename_i hsame
        rw [eq_str_of_sameKey hsame, Option.some.inj h]
        exact List.mem_cons_self
      · exact List.mem_cons_of_mem _ (ih h)

theorem text?_ne_none (h : (.str key, v) ∈ A) : A.text? key ≠ none := by
  induction A with
  | nil => cases h
  | cons e rest ih =>
      obtain ⟨k, u⟩ := e
      rw [text?_cons]
      split
      · exact Option.some_ne_none u
      · rename_i hother
        rcases List.mem_cons.mp h with heq | h
        · obtain ⟨rfl, -⟩ := Prod.mk.inj heq
          exact absurd (Value.sameKey_str key key ▸ beq_self_eq_true key) hother
        · exact ih h

theorem mem_given_of_value? (h : f.value? A = some v) : v ∈ A.given f := by
  rw [f.value?_eq, Option.or_eq_some_iff] at h
  rcases h with h | ⟨-, h⟩
  · exact mem_given_iff.mpr ⟨_, mem_of_text? h, spelled_iff.mpr (.inl rfl)⟩
  · exact mem_given_iff.mpr ⟨_, mem_of_text? h, spelled_iff.mpr (.inr rfl)⟩

theorem value?_ne_none (h : v ∈ A.given f) : f.value? A ≠ none := by
  obtain ⟨key, hmem, hkey⟩ := mem_given_iff.mp h
  have htext := text?_ne_none hmem
  rw [f.value?_eq, ne_eq, Option.or_eq_none_iff]
  rintro ⟨hcamel, hsnake⟩
  rcases spelled_iff.mp hkey with rfl | rfl
  · exact htext hcamel
  · exact htext hsnake

/-- What is there once is what is read. -/
theorem value?_eq_head? (h : (A.given f).length ≤ 1) : f.value? A = (A.given f).head? := by
  cases hgiven : A.given f with
  | nil =>
      cases hvalue : f.value? A with
      | none => rfl
      | some v =>
          have hmem := mem_given_of_value? hvalue
          rw [hgiven] at hmem
          cases hmem
  | cons v rest =>
      have hrest : rest = [] := List.eq_nil_of_length_eq_zero (by simpa [hgiven] using h)
      have hsome : f.value? A ≠ none := value?_ne_none (hgiven ▸ List.mem_cons_self)
      obtain ⟨u, hu⟩ := Option.ne_none_iff_exists'.mp hsome
      have hmem := mem_given_of_value? hu
      rw [hgiven, hrest, List.mem_singleton] at hmem
      rw [hu, hmem, List.head?_cons]

namespace Field.Respelled

/-- Both maps have the field, or neither. -/
theorem find? (h : f.Respelled differ A B) : (f.find? A = none ∧ f.find? B = none) ∨
    ∃ k u l v, f.find? A = some (k, u) ∧ f.find? B = some (l, v) ∧ differ u v := by
  obtain ⟨hone, hboth⟩ := h
  have hA := value?_eq_head? hone
  have hB := value?_eq_head? (hboth.length_eq ▸ hone)
  generalize A.given f = us at hA hboth
  generalize B.given f = vs at hB hboth
  cases hboth with
  | nil => exact .inl ⟨Option.map_eq_none_iff.mp hA, Option.map_eq_none_iff.mp hB⟩
  | cons hdiffer _ =>
      obtain ⟨⟨k, u⟩, hu, rfl⟩ := Option.map_eq_some_iff.mp hA
      obtain ⟨⟨l, v⟩, hv, rfl⟩ := Option.map_eq_some_iff.mp hB
      exact .inr ⟨k, u, l, v, hu, hv, hdiffer⟩

theorem of_given {u : Value} (hA : A.given f = [u]) (hB : B.given f = [v]) (h : differ u v) :
    f.Respelled differ A B := by
  rw [Field.Respelled, hA, hB]
  exact ⟨Nat.le_refl 1, .cons h .nil⟩

theorem of_not_given (hA : A.given f = []) (hB : B.given f = []) : f.Respelled differ A B := by
  rw [Field.Respelled, hA, hB]
  exact ⟨Nat.zero_le 1, .nil⟩

variable {α : Type} {default : α} {read : Value → Decoded α}

theorem withDefault (h : f.Respelled differ A B)
    (hread : ∀ u v, differ u v → (read u).Agree (read v)) :
    (f.withDefault default read A).Agree (f.withDefault default read B) := by
  rcases h.find? with ⟨hA, hB⟩ | ⟨k, u, l, v, hA, hB, hdiffer⟩
  · simp only [Field.withDefault, hA, hB]
    exact .ok default
  · simp only [Field.withDefault, hA, hB]
    exact (hread u v hdiffer).within _ _

theorem required (h : f.Respelled differ A B)
    (hread : ∀ u v, differ u v → (read u).Agree (read v)) :
    (f.required read A).Agree (f.required read B) := by
  rcases h.find? with ⟨hA, hB⟩ | ⟨k, u, l, v, hA, hB, hdiffer⟩
  · simp only [Field.required, hA, hB]
    exact .refl _
  · simp only [Field.required, hA, hB]
    exact (hread u v hdiffer).within _ _

theorem optionalText (h : f.Respelled Eq A B) : (f.optionalText A).Agree (f.optionalText B) :=
  h.withDefault agree_of_eq

end Field.Respelled

end Given

/-! ## Models -/

/-- Maps that a model reads alike, or the same value. -/
inductive Value.Respelled (model : Entries → Entries → Prop) : Value → Value → Prop where
  | same (v : Value) : Value.Respelled model v v
  | map {A B : Entries} (h : model A B) : Value.Respelled model (.map A) (.map B)

/-- Lists with such maps for items, or the same value. -/
inductive Value.ListRespelled (model : Entries → Entries → Prop) : Value → Value → Prop where
  | same (v : Value) : Value.ListRespelled model v v
  | list {items others : List Value} (h : List.Forall₂ (Value.Respelled model) items others) :
      Value.ListRespelled model (.list items) (.list others)

/-- A handle, and the truth value that may be written for it. -/
inductive SameHandle : Value → Value → Prop where
  | same (v : Value) : SameHandle v v
  | asText (b : Bool) : SameHandle (.bool b) (.str (branchHandle b))
  | asFlag (b : Bool) : SameHandle (.str (branchHandle b)) (.bool b)

structure Position.Respelled (A B : Entries) : Prop where
  x : Field.x.Respelled Eq A B
  y : Field.y.Respelled Eq A B

def Payload.Respelled (kind : NodeKind) (A B : Entries) : Prop := ∀ f ∈ kind.fields, f.Respelled Eq A B

/-- Which fields a payload has depends on the kind that the node names. -/
structure Node.Respelled (A B : Entries) : Prop where
  id : Field.id.Respelled Eq A B
  position : Field.position.Respelled (Value.Respelled Position.Respelled) A B
  type : Field.type.Respelled Eq A B
  data : ∀ kind, Node.kindOf A = .ok kind →
    Field.data.Respelled (Value.Respelled (Payload.Respelled kind)) A B

structure Edge.Respelled (A B : Entries) : Prop where
  id : Field.id.Respelled Eq A B
  source : Field.source.Respelled Eq A B
  target : Field.target.Respelled Eq A B
  sourceHandle : Field.sourceHandle.Respelled SameHandle A B
  targetHandle : Field.targetHandle.Respelled SameHandle A B
  label : Field.label.Respelled Eq A B
  animated : Field.animated.Respelled Eq A B
  type : Field.type.Respelled Eq A B

/-- **A workflow that is spelled otherwise.** -/
structure Workflow.Respelled (A B : Entries) : Prop where
  id : Field.id.Respelled Eq A B
  name : Field.name.Respelled Eq A B
  description : Field.description.Respelled Eq A B
  icon : Field.icon.Respelled Eq A B
  nodes : Field.nodes.Respelled (Value.ListRespelled Node.Respelled) A B
  edges : Field.edges.Respelled (Value.ListRespelled Edge.Respelled) A B
  createdAt : Field.createdAt.Respelled Eq A B
  updatedAt : Field.updatedAt.Respelled Eq A B
  version : Field.version.Respelled Eq A B
  author : Field.author.Respelled Eq A B
  exportType : Field.exportType.Respelled Eq A B
  exportPath : Field.exportPath.Respelled Eq A B

/-! ## Reading models -/

section Reading

variable {A B : Entries} {u v : Value}

theorem Decoded.agree_list {α : Type} {model : Entries → Entries → Prop} {read : Value → Decoded α}
    (hread : ∀ u v, Value.Respelled model u v → (read u).Agree (read v))
    (h : Value.ListRespelled model u v) :
    (Decoded.list read u).Agree (Decoded.list read v) := by
  cases h with
  | same => exact .refl _
  | list hitems =>
      apply Decoded.Agree.allFrom
      rw [List.forall₂_map_left_iff, List.forall₂_map_right_iff]
      exact hitems.imp hread

theorem Lenient.agree_handle (h : SameHandle u v) : (Lenient.handle u).Agree (Lenient.handle v) := by
  cases h with
  | same => exact .refl _
  | asText b => exact .ok (some (branchHandle b))
  | asFlag b => exact .ok (some (branchHandle b))

theorem Position.agree_decode (h : Value.Respelled Position.Respelled u v) :
    (Position.decode u).Agree (Position.decode v) := by
  cases h with
  | same => exact .refl _
  | map h =>
      refine .seq (.map ?_ _) ?_
      · exact h.x.withDefault agree_of_eq
      · exact h.y.withDefault agree_of_eq

theorem Detail.agree_decode {kind : NodeKind} (h : Payload.Respelled kind A B) :
    (Detail.decode kind A).Agree (Detail.decode kind B) := by
  cases kind with
  | action | output => exact .refl _
  | prompt => exact .map (h .prompt (by decide)).optionalText _
  | decision => exact .map (h .condition (by decide)).optionalText _
  | loop => exact .map ((h .loopCount (by decide)).withDefault agree_of_eq) _
  | trigger =>
      refine .seq (.map ?_ _) ?_
      · exact (h .triggerType (by decide)).withDefault agree_of_eq
      · exact (h .triggerConfig (by decide)).withDefault agree_of_eq
  | subagent =>
      refine .seq (.map ?_ _) ?_
      · exact (h .subagentPrompt (by decide)).optionalText
      · exact (h .subagentContext (by decide)).optionalText
  | mcpCall =>
      refine .seq (.seq (.map ?_ _) ?_) ?_
      · exact (h .mcpServer (by decide)).optionalText
      · exact (h .mcpTool (by decide)).optionalText
      · exact (h .mcpArgs (by decide)).withDefault agree_of_eq

theorem Payload.agree_decode {kind : NodeKind}
    (h : Value.Respelled (Payload.Respelled kind) u v) :
    (Payload.decode kind u).Agree (Payload.decode kind v) := by
  cases h with
  | same => exact .refl _
  | map h =>
      refine .seq (.seq (.seq (.seq (.map ?_ _) ?_) ?_) ?_) (Detail.agree_decode h)
      · exact (h .label (by cases kind <;> decide)).withDefault agree_of_eq
      · exact (h .description (by cases kind <;> decide)).optionalText
      · exact (h .linkedItemId (by cases kind <;> decide)).optionalText
      · exact (h .linkedItemType (by cases kind <;> decide)).optionalText

/-- The kind that a map names is read of what it gives the field. -/
theorem Node.kindOf_eq (h : Node.Respelled A B) : Node.kindOf A = Node.kindOf B := by
  have htext : ∀ entries : Entries, entries.text? Field.type.camel = Field.type.value? entries := by
    intro entries
    rw [Field.value?_eq]
    exact (Option.or_self).symm
  have hvalue : Field.type.value? A = Field.type.value? B := by
    rcases h.type.find? with ⟨hA, hB⟩ | ⟨k, u, l, v, hA, hB, rfl⟩
    · rw [Field.value?, Field.value?, hA, hB]
    · rw [Field.value?, Field.value?, hA, hB]
      rfl
  rw [Node.kindOf, Node.kindOf, htext, htext, hvalue]

theorem Node.agree_decode (h : Value.Respelled Node.Respelled u v) :
    (Node.decode u).Agree (Node.decode v) := by
  cases h with
  | same => exact .refl _
  | @map A B h =>
      rw [Node.decode, Node.decode, ← Node.kindOf_eq h]
      cases hkind : Node.kindOf A with
      | error cause => exact .refl _
      | ok kind =>
          refine Decoded.Agree.within (.seq (.seq (.map ?_ _) ?_) ?_) _ _
          · exact h.id.required agree_of_eq
          · exact h.position.withDefault fun _ _ => Position.agree_decode
          · exact (h.data kind hkind).withDefault fun _ _ => Payload.agree_decode

theorem Edge.agree_decode (h : Value.Respelled Edge.Respelled u v) :
    (Edge.decode u).Agree (Edge.decode v) := by
  cases h with
  | same => exact .refl _
  | map h =>
      refine .seq (.seq (.seq (.seq (.seq (.seq (.seq (.map ?_ _) ?_) ?_) ?_) ?_) ?_) ?_) ?_
      · exact h.id.required agree_of_eq
      · exact h.source.required agree_of_eq
      · exact h.target.required agree_of_eq
      · exact h.sourceHandle.withDefault fun _ _ => Lenient.agree_handle
      · exact h.targetHandle.withDefault fun _ _ => Lenient.agree_handle
      · exact h.label.optionalText
      · exact h.animated.withDefault agree_of_eq
      · exact h.type.withDefault agree_of_eq

theorem Workflow.agree_ofEntries (h : Workflow.Respelled A B) (now : Int) :
    (Workflow.ofEntries now A).Agree (Workflow.ofEntries now B) := by
  refine .seq (.seq (.seq (.seq (.seq (.seq (.seq (.seq (.seq (.seq (.seq
    (.map ?_ _) ?_) ?_) ?_) ?_) ?_) ?_) ?_) ?_) ?_) ?_) ?_
  · exact h.id.required agree_of_eq
  · exact h.name.required agree_of_eq
  · exact h.description.optionalText
  · exact h.icon.optionalText
  · exact h.nodes.withDefault fun _ _ => Decoded.agree_list fun _ _ => Node.agree_decode
  · exact h.edges.withDefault fun _ _ => Decoded.agree_list fun _ _ => Edge.agree_decode
  · exact h.createdAt.withDefault agree_of_eq
  · exact h.updatedAt.withDefault agree_of_eq
  · exact h.version.withDefault agree_of_eq
  · exact h.author.optionalText
  · exact h.exportType.withDefault agree_of_eq
  · exact h.exportPath.optionalText

end Reading

/-- **Spellings do not matter**: data that is spelled otherwise gives the same workflow, or the
same is wrong with it, fault by fault. -/
theorem Workflow.decode_respelled {A B : Entries} (h : Workflow.Respelled A B) (now : Int) :
    (∃ w, Workflow.decode now (.map A) = .ok w ∧ Workflow.decode now (.map B) = .ok w) ∨
    ∃ faults others, Workflow.decode now (.map A) = .faulty faults ∧
      Workflow.decode now (.map B) = .faulty others ∧
      faults.map (·.cause) = others.map (·.cause) := by
  have hagree : (Workflow.decode now (.map A)).Agree (Workflow.decode now (.map B)) :=
    Workflow.agree_ofEntries h now
  generalize Workflow.decode now (.map A) = x at hagree ⊢
  generalize Workflow.decode now (.map B) = y at hagree ⊢
  cases hagree with
  | ok w => exact .inl ⟨w, rfl, rfl⟩
  | faulty hcauses => exact .inr ⟨_, _, rfl, rfl, hcauses⟩

/-- A decision behind a trigger, as an editor has it. -/
def Workflow.drawn : Entries :=
  [(.str "id", .str "wf_1"), (.str "name", .str "Release"), (.str "createdAt", .int 1),
    (.str "nodes", .list [
      .record [("id", .str "start"), ("type", .str "trigger"),
        ("position", .record [("x", .int 1)]),
        ("data", .record [("label", .str "Start"), ("triggerType", .str "hook"),
          ("triggerConfig", .record [("triggerType", .int 1), ("on_tag", .bool true)])])],
      .record [("id", .str "ask"), ("type", .str "decision"), ("data", .record [])]]),
    (.str "edges", .list [
      .record [("id", .str "e1"), ("source", .str "start"), ("target", .str "ask")],
      .record [("id", .str "e2"), ("source", .str "ask"), ("target", .str "start"),
        ("sourceHandle", .str "true"), ("targetHandle", .bool false)]])]

/-- The same by hand: other spellings, keys of no field, and handles the other way. -/
def Workflow.penned : Entries :=
  [(.str "created_at", .int 1), (.str "id", .str "wf_1"), (.str "name", .str "Release"),
    (.str "zoom", .int 2),
    (.str "nodes", .list [
      .record [("id", .str "start"), ("type", .str "trigger"), ("selected", .bool true),
        ("position", .record [("x", .int 1), ("z", .int 3)]),
        ("data", .record [("label", .str "Start"), ("trigger_type", .str "hook"),
          ("loopCount", .int 0),
          ("trigger_config", .record [("triggerType", .int 1), ("on_tag", .bool true)])])],
      .record [("id", .str "ask"), ("type", .str "decision"), ("data", .record [])]]),
    (.str "edges", .list [
      .record [("id", .str "e1"), ("source", .str "start"), ("target", .str "ask")],
      .record [("id", .str "e2"), ("source", .str "ask"), ("target", .str "start"),
        ("source_handle", .bool true), ("target_handle", .str "false"), ("style", .null)]])]

/-- What is drawn and what is penned is read as one workflow. -/
theorem Workflow.decode_respelled_of_penned : Respelled drawn penned ∧
    ∃ w, decode 5 (.map drawn) = .ok w ∧ decode 5 (.map penned) = .ok w := by
  have h : Respelled drawn penned := by
    constructor
    case nodes =>
      refine .of_given rfl rfl (.list (.cons (.map ?_) (.cons (.same _) .nil)))
      constructor
      case position => exact .of_given rfl rfl (.map ⟨.of_given rfl rfl rfl, .of_not_given rfl rfl⟩)
      case data =>
        intro kind hkind
        obtain rfl : NodeKind.trigger = kind := Except.ok.inj hkind
        refine .of_given rfl rfl (.map ?_)
        show ∀ f ∈ [Field.label, .description, .linkedItemId, .linkedItemType, .triggerType,
          .triggerConfig], f.Respelled Eq _ _
        simp only [List.forall_mem_cons]
        exact ⟨.of_given rfl rfl rfl, .of_not_given rfl rfl, .of_not_given rfl rfl,
          .of_not_given rfl rfl, .of_given rfl rfl rfl, .of_given rfl rfl rfl, nofun⟩
      all_goals exact .of_given rfl rfl rfl
    case edges =>
      refine .of_given rfl rfl (.list (.cons (.same _) (.cons (.map ?_) .nil)))
      constructor
      case sourceHandle => exact .of_given rfl rfl (.asFlag true)
      case targetHandle => exact .of_given rfl rfl (.asText false)
      all_goals first | exact .of_given rfl rfl rfl | exact .of_not_given rfl rfl
    all_goals first | exact .of_given rfl rfl rfl | exact .of_not_given rfl rfl
  refine ⟨h, ?_⟩
  rcases decode_respelled h 5 with hok | ⟨faults, _, hfaulty, -⟩
  · exact hok
  · cases hfaulty

end Runbook
