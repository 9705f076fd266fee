import Runbook.Proofs.Yaml.Composed
import Runbook.Proofs.Yaml.Tokens
import Runbook.Yaml.Reader

/-!
# Why a text gives no YAML value

A node becomes a value unless its form is wrong or a scalar does not stand for any value of its
type (`Typed`): no level of nodes is left out, for the members that a mapping takes over are no
higher than the mapping itself (`Node.ends_splitMerged`). With what is wrong with tokens and
with nodes, all faults of a text are to be seen in its tokens (`Blames`). Main statement:
`blames_of_read`.
-/

namespace Runbook.Yaml

/-! ## Nodes below a node -/

namespace Node

/-- What holds of a node holds of the nodes right below it. -/
structure Hereditary (P : Node → Prop) : Prop where
  items : ∀ {tag items}, P (.sequence tag items) → ∀ n ∈ items, P n
  members : ∀ {tag members}, P (.mapping tag members) → ∀ m ∈ members, P m.1 ∧ P m.2

theorem height_le_itemsHeight {n : Node} {items : List Node} (h : n ∈ items) : n.height ≤ itemsHeight items := by
  induction items with
  | nil => cases h
  | cons first rest ih =>
      rw [itemsHeight]
      obtain rfl | h := List.mem_cons.mp h
      · exact Nat.le_max_left _ _
      · exact Nat.le_trans (ih h) (Nat.le_max_right _ _)

theorem height_le_membersHeight {m : Member} {members : List Member} (h : m ∈ members) :
    m.1.height ≤ membersHeight members ∧ m.2.height ≤ membersHeight members := by
  induction members with
  | nil => cases h
  | cons first rest ih =>
      rw [membersHeight]
      obtain rfl | h := List.mem_cons.mp h
      · omega
      · have := ih h
        omega

theorem hereditary_height (bound : Nat) : Hereditary fun n => n.height ≤ bound where
  items h n hn := by
    have := height_le_itemsHeight hn
    rw [height] at h
    omega
  members h m hm := by
    have := height_le_membersHeight hm
    rw [height] at h
    omega

theorem hereditary_from (all : List Token) : Hereditary (From all) where
  items h := by
    cases h with
    | sequence _ hitems => exact hitems
  members h := by
    cases h with
    | mapping _ hkeys hvalues => exact fun m hm => ⟨hkeys m hm, hvalues m hm⟩

/-- What holds of both parts of a member. -/
def Both (P : Node → Prop) (m : Member) : Prop := P m.1 ∧ P m.2

section Merged

variable {P : Node → Prop}

mutual

/-- What holds of a node holds of all members that it gives to a mapping. -/
theorem ends_merged (hP : Hereditary P) : ∀ n : Node, P n →
    Ends (· = .malformed) (fun members => ∀ m ∈ members, Both P m) n.merged
  | .mapping _ members, h => by
      rw [merged]
      exact Ends.map (ends_splitMerged hP members (hP.members h)) fun _ hr => hr
  | .sequence _ items, h => by
      rw [merged]
      exact ends_mergedItems hP items (hP.items h)
  | .cycle, _ => by
      rw [merged]
      exact List.forall_mem_nil _
  | .scalar .., _ => by
      rw [merged]
      exact rfl

theorem ends_mergedItems (hP : Hereditary P) : ∀ items : List Node, (∀ n ∈ items, P n) →
    Ends (· = .malformed) (fun members => ∀ m ∈ members, Both P m) (mergedItems items)
  | [], _ => by
      rw [mergedItems]
      exact List.forall_mem_nil _
  | .mapping _ members :: rest, h => by
      obtain ⟨hfirst, hrest⟩ := List.forall_mem_cons.mp h
      rw [mergedItems]
      refine Ends.bind (ends_splitMerged hP members (hP.members hfirst)) fun r hr => ?_
      exact Ends.bind (ends_mergedItems hP rest hrest) fun more hmore => List.forall_mem_append.mpr ⟨hmore, hr⟩
  | .scalar .. :: _, _ | .sequence .. :: _, _ | .cycle :: _, _ => by
      rw [mergedItems]
      · exact rfl
      · exact fun _ _ h => by cases h

theorem ends_splitMerged (hP : Hereditary P) : ∀ members : List (Node × Node), (∀ m ∈ members, Both P m) →
    Ends (· = .malformed) (fun r => ∀ m ∈ r.1 ++ r.2, Both P m) (splitMerged members)
  | [], _ => by
      rw [splitMerged]
      exact List.forall_mem_nil _
  | (k, v) :: rest, h => by
      obtain ⟨hfirst, hrest⟩ := List.forall_mem_cons.mp h
      rw [splitMerged]
      split
      · refine Ends.bind (ends_merged hP v hfirst.2) fun here hhere => ?_
        refine Ends.bind (ends_splitMerged hP rest hrest) fun r hr => ?_
        obtain ⟨htaken, hown⟩ := List.forall_mem_append.mp hr
        exact List.forall_mem_append.mpr ⟨List.forall_mem_append.mpr ⟨hhere, htaken⟩, hown⟩
      · refine Ends.map (ends_splitMerged hP rest hrest) fun r hr => ?_
        obtain ⟨htaken, hown⟩ := List.forall_mem_append.mp hr
        exact List.forall_mem_append.mpr ⟨htaken, List.forall_mem_cons.mpr ⟨hfirst, hown⟩⟩

end

theorem ends_allMembers (hP : Hereditary P) {members : List Member} (h : ∀ m ∈ members, Both P m) :
    Ends (· = .malformed) (fun members => ∀ m ∈ members, Both P m) (allMembers members) :=
  Ends.map (ends_splitMerged hP members h) fun _ hr => hr

end Merged

end Node

/-! ## Values of nodes -/

/-- A type and a text of a scalar: the text is one of the tokens' or empty, and the type is that of its form, unless
a tag gives it another one. -/
def Given (all : List Token) (kind : Kind) (text : String) : Prop :=
  Node.Written all text ∧ (kind = Schema.kindOf text ∨ Node.HasTag all)

/-- What can be wrong with a value: the form of its node, or a scalar that stands for none of its type's values. -/
def Typed (all : List Token) (f : Fault) : Prop :=
  f = .malformed ∨ ∃ kind text, Given all kind text ∧ Schema.readScalar kind text = .error f

namespace Built

/-- Nothing else is wrong with what is built. -/
def Sound {α : Type} (all : List Token) : Built α → Prop
  | .ok _ => True
  | .faulty _ f => Typed all f

section Sound

variable {α β γ : Type} {all : List Token} {x : Built α} {y : Built β} {level : Nat}

theorem Sound.map (h : x.Sound all) (f : α → β) : (x.map f).Sound all := by
  cases x <;> exact h

theorem Sound.both (hx : x.Sound all) (hy : y.Sound all) (f : α → β → γ) : (Built.both f x y).Sound all := by
  cases x <;> cases y <;> first | trivial | exact hx | exact hy | skip
  rw [Built.both]
  split
  · exact hx
  · exact hy

theorem Sound.andThen {f : α → Built β} (h : x.Sound all) (hf : ∀ a, x = .ok a → (f a).Sound all) :
    (x.andThen f).Sound all := by
  cases x with
  | ok a => exact hf a rfl
  | faulty level fault => exact h

theorem sound_all {xs : List (Built α)} (h : ∀ x ∈ xs, x.Sound all) : (Built.all xs).Sound all := by
  induction xs with
  | nil => trivial
  | cons x rest ih =>
      obtain ⟨hfirst, hrest⟩ := List.forall_mem_cons.mp h
      exact hfirst.both (ih hrest) _

theorem sound_malformed : (Built.faulty level .malformed : Built α).Sound all := .inl rfl

end Sound

end Built

section Builders

variable {all : List Token} {build : Builder} {level : Nat}

theorem sound_buildKey {n : Node} (h : (build n).Sound all) : (buildKey build level n).Sound all := by
  unfold buildKey
  split
  · exact Built.sound_malformed
  · trivial
  · split
    case h_1 v hv =>
      split
      · trivial
      · exact Built.sound_malformed
    case h_2 found f hf =>
      rw [hf] at h
      split
      · exact h
      · exact Built.sound_malformed

/-- A node whose texts and tags come from tokens, with at most so many levels. -/
structure Bounded (all : List Token) (fuel : Nat) (n : Node) : Prop where
  height : n.height ≤ fuel
  tokens : Node.From all n

theorem hereditary_bounded (all : List Token) (fuel : Nat) : Node.Hereditary (Bounded all fuel) where
  items h n hn := ⟨(Node.hereditary_height fuel).items h.height n hn, (Node.hereditary_from all).items h.tokens n hn⟩
  members h m hm :=
    have hheight := (Node.hereditary_height fuel).members h.height m hm
    have htokens := (Node.hereditary_from all).members h.tokens m hm
    ⟨⟨hheight.1, htokens.1⟩, ⟨hheight.2, htokens.2⟩⟩

variable {fuel : Nat} {items : List Node} {members : List Member} {tag : Option String} {kind : Kind} {text : String}

theorem Bounded.below_sequence (h : Bounded all (fuel + 1) (.sequence tag items)) :
    ∀ n ∈ items, Bounded all fuel n := by
  intro n hn
  refine ⟨Nat.le_trans (Node.height_le_itemsHeight hn) ?_, (Node.hereditary_from all).items h.tokens n hn⟩
  have hheight := h.height
  rw [Node.height] at hheight
  exact Nat.le_of_succ_le_succ hheight

theorem Bounded.below_mapping (h : Bounded all (fuel + 1) (.mapping tag members)) :
    ∀ m ∈ members, Node.Both (Bounded all fuel) m := by
  intro m hm
  have hheight := h.height
  rw [Node.height] at hheight
  have hbelow := Node.height_le_membersHeight hm
  have hfrom := (Node.hereditary_from all).members h.tokens m hm
  exact ⟨⟨Nat.le_trans hbelow.1 (Nat.le_of_succ_le_succ hheight), hfrom.1⟩,
    ⟨Nat.le_trans hbelow.2 (Nat.le_of_succ_le_succ hheight), hfrom.2⟩⟩

/-- The members of a mapping are built, and so are those that it takes over. -/
theorem sound_buildMembers (hbuild : ∀ n, Bounded all fuel n → (build n).Sound all)
    (h : ∀ m ∈ members, Node.Both (Bounded all fuel) m) : (buildMembers build level members).Sound all := by
  have hall := Node.ends_allMembers (hereditary_bounded all fuel) h
  unfold buildMembers
  cases hmembers : Node.allMembers members with
  | error f =>
      obtain rfl := hall.of_error hmembers
      exact Built.sound_malformed
  | ok found =>
      refine Built.sound_all fun x hx => ?_
      obtain ⟨m, hm, rfl⟩ := List.mem_map.mp hx
      have hboth := hall.of_ok hmembers m hm
      exact (sound_buildKey (hbuild _ hboth.1)).both (hbuild _ hboth.2) _

theorem sound_items (hbuild : ∀ n, Bounded all fuel n → (build n).Sound all) (h : ∀ n ∈ items, Bounded all fuel n) :
    (Built.all (items.map build)).Sound all := by
  refine Built.sound_all fun x hx => ?_
  obtain ⟨n, hn, rfl⟩ := List.mem_map.mp hx
  exact hbuild n (h n hn)

theorem sound_buildPair (hbuild : ∀ n, Bounded all fuel n → (build n).Sound all) {n : Node} (h : Bounded all fuel n) :
    (buildPair build level n).Sound all := by
  unfold buildPair
  split
  · obtain ⟨hk, hv⟩ := (hereditary_bounded all fuel).members h _ List.mem_cons_self
    exact (hbuild _ hk).both (hbuild _ hv) _
  · exact Built.sound_malformed

theorem sound_buildSequence (hbuild : ∀ n, Bounded all fuel n → (build n).Sound all)
    (h : ∀ n ∈ items, Bounded all fuel n) (kind : Kind) : (buildSequence build level kind items).Sound all := by
  unfold buildSequence
  split
  · exact (sound_items hbuild h).map _
  · exact (sound_items (fun n => sound_buildPair hbuild) h).map _
  all_goals exact Built.sound_malformed

/-- The text that stands for a mapping is that of a scalar below it. -/
theorem written_of_scalarText? {n : Node} (h : Node.From all n) (htext : n.scalarText? fuel = some text) :
    Node.Written all text := by
  induction fuel generalizing n with
  | zero =>
      cases h with
      | scalar _ hwritten => exact Option.some.inj htext ▸ hwritten
      | _ => cases htext
  | succ fuel ih =>
      cases h with
      | scalar _ hwritten => exact Option.some.inj htext ▸ hwritten
      | mapping _ _ hvalues =>
          obtain ⟨m, hfind, htext⟩ := Option.bind_eq_some_iff.mp htext
          exact ih (hvalues m (List.mem_of_find?_eq_some hfind)) htext
      | _ => cases htext

/-- A scalar of a document is read or is at fault itself. -/
theorem sound_readScalar (h : Given all kind text) : (Built.ofExcept level (Schema.readScalar kind text)).Sound all := by
  cases hread : Schema.readScalar kind text with
  | ok v => trivial
  | error f => exact .inr ⟨kind, text, h, hread⟩

theorem sound_buildMapping (hbuild : ∀ n, Bounded all fuel n → (build n).Sound all)
    (h : Bounded all (fuel + 1) (.mapping tag members)) (hkind : (Node.mapping tag members).kind? = some kind) :
    (buildMapping build level kind (.mapping tag members) members).Sound all := by
  unfold buildMapping
  split
  · exact (sound_buildMembers hbuild h.below_mapping).map _
  · exact (sound_buildMembers hbuild h.below_mapping).map _
  · exact Built.sound_malformed
  · exact Built.sound_malformed
  case h_5 hmap _ _ _ =>
    split
    case h_1 text htext =>
      refine sound_readScalar ⟨written_of_scalarText? h.tokens htext, .inr ?_⟩
      cases tag with
      | none => exact absurd (Option.some.inj hkind).symm hmap
      | some name =>
          cases h.tokens with
          | mapping htag _ _ => exact htag name rfl
    case h_2 => exact Built.sound_malformed

/-- **A node is built**, down to its last level, unless its form is wrong or one of its scalars is. -/
theorem sound_buildNode (fuel level : Nat) (n : Node) (h : Bounded all fuel n) :
    (buildNode fuel level n).Sound all := by
  induction fuel generalizing level n with
  | zero =>
      have hheight := h.height
      cases n <;> simp [Node.height] at hheight
  | succ fuel ih =>
      have hbuild : ∀ n, Bounded all fuel n → (buildNode fuel (level + 1) n).Sound all :=
        fun n hn => ih (level + 1) n hn
      unfold buildNode
      dsimp only
      split
      · trivial
      · exact Built.sound_malformed
      case h_3 mark text kind hkind =>
        cases h.tokens with
        | scalar hmark hwritten =>
            cases mark with
            | plain => exact sound_readScalar ⟨hwritten, .inl (Option.some.inj hkind).symm⟩
            | quoted =>
                obtain rfl : Kind.str = kind := Option.some.inj hkind
                trivial
            | tagged name => exact sound_readScalar ⟨hwritten, .inr (hmark name rfl)⟩
      case h_4 tag items kind hkind => exact sound_buildSequence hbuild h.below_sequence kind
      case h_5 tag members kind hkind => exact sound_buildMapping hbuild h hkind

end Builders

/-! ## Texts -/

/-- What is to be seen in the tokens of a text that gives no value. -/
inductive Blames (tokens : List Token) : Fault → Prop
  | malformed : Blames tokens .malformed
  | codePoint {n : Nat} (hn : 0x110000 ≤ n) (h : .fault (.codePoint n) ∈ tokens) : Blames tokens (.codePoint n)
  | version {count : Nat} (hcount : Json.digitLimit < count) (h : .fault (.tooManyDigits count) ∈ tokens) :
      Blames tokens (.tooManyDigits count)
  | tooDeep (h : Node.depthLimit < tokens.countP Token.opens) : Blames tokens .tooDeep
  | scalar {kind : Kind} {text : String} {f : Fault} (h : Given tokens kind text)
      (hread : Schema.readScalar kind text = .error f) : Blames tokens f

theorem blames_of_scanned {tokens : List Token} {f : Fault} (h : Scanned f) (hf : .fault f ∈ tokens) :
    Blames tokens f := by
  cases f with
  | malformed => exact .malformed
  | codePoint n => exact .codePoint h hf
  | tooManyDigits count => exact .version h hf
  | _ => exact h.elim

/-- **What is wrong with a text that gives no YAML value is to be seen in its tokens.** -/
theorem blames_of_read {text : List Char} {f : Fault} (h : read text = .error f) :
    Blames (Token.scan (Text.unifyLines text)) f := by
  have hnodes := Node.ends_ofTokens (Token.scan (Text.unifyLines text))
  unfold read at h
  cases hnode : Node.ofTokens (Token.scan (Text.unifyLines text)) with
  | error g =>
      rw [hnode] at h
      obtain rfl : g = f := Except.error.inj h
      obtain rfl | hfault | ⟨rfl, hdeep⟩ := hnodes.of_error hnode
      · exact .malformed
      · exact blames_of_scanned (scanned_of_mem_scan hfault) hfault
      · exact .tooDeep hdeep
  | ok found =>
      rw [hnode] at h
      cases found with
      | none => cases h
      | some n =>
          have hbuilt := sound_buildNode n.height 0 n ⟨Nat.le_refl _, hnodes.of_ok hnode n rfl⟩
          have hvalue : (buildNode n.height 0 n).toExcept = .error f := h
          cases hbuild : buildNode n.height 0 n with
          | ok v =>
              rw [hbuild] at hvalue
              cases hvalue
          | faulty level g =>
              rw [hbuild] at hvalue hbuilt
              obtain rfl : g = f := Except.error.inj hvalue
              obtain rfl | ⟨kind, text, hgiven, hread⟩ := hbuilt
              · exact .malformed
              · exact .scalar hgiven hread

end Runbook.Yaml
