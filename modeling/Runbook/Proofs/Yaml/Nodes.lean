import Runbook.Proofs.Yaml.Stream
import Runbook.Yaml.Reader

/-!
# Values from tokens

The tokens of a value are read as its node, in front of any others (`readsNode`), and its
node stands for the value (`buildNode_nodeOf`). Main statement: `read_write`.
-/

namespace Runbook.Yaml

open Yaml.Node

/-! ## Nodes -/

mutual

/-- The node of a value. -/
def nodeOf : Value → Node
  | .list items => .sequence none (itemNodes items)
  | .map entries => .mapping none (entryNodes entries)
  | v => leafNode v

def itemNodes : List Value → List Node
  | [] => []
  | v :: rest => nodeOf v :: itemNodes rest

def entryNodes : List (Value × Value) → List Member
  | [] => []
  | (k, v) :: rest => (leafNode k, nodeOf v) :: entryNodes rest

end

/-- Tokens behind a mark or a key are read as a node. Dashes in the column of a key end where another token
comes. -/
def ReadsNode (read : Reader) (underKey : Bool) (tokens : List Token) (n : Node) : Prop :=
  ∀ (context : Context) (rest : List Token), context.allowsBlock = true →
    (underKey = true → context = .underKey ∧ rest.head? ≠ some .dash) →
    read context ⟨tokens ++ rest, []⟩ = .ok (n, ⟨rest, []⟩)

section Reading

variable {read : Reader} {handles : Handles} {depth : Nat} {context : Context} {underKey : Bool} {t : Token}
  {tokens rest : List Token} {n : Node} {v : Value}

/-- A token that starts a collection. -/
def startsCollection : Token → Bool
  | .dash | .flowSequence | .flowMapping | .blockSequence | .blockMapping => true
  | _ => false

theorem read_collection (ht : startsCollection t = true)
    (h : collection? (Node.read handles depth) context none ⟨t :: tokens, []⟩ = some (.ok (n, ⟨rest, []⟩))) :
    Node.read handles (depth + 1) context ⟨t :: tokens, []⟩ = .ok (n, ⟨rest, []⟩) := by
  cases t with
  | dash | flowSequence | flowMapping | blockSequence | blockMapping =>
      simp [Node.read, content, properties, tagName, collectionTag, Feed.name, h, bind, Except.bind]
  | _ => cases ht

theorem read_leaf (v : Value) (depth : Nat) (underKey : Bool) :
    ReadsNode (Node.read handles depth) underKey [leafToken v] (leafNode v) := by
  intro context rest _ _
  cases depth <;> simp [Node.read, content, properties, tagName, Feed.name, leafToken, leafNode, bind, Except.bind]

/-- What the tokens of a value start with. -/
theorem exists_valueTokens (underKey : Bool) (v : Value) : ∃ t tokens, valueTokens underKey v = t :: tokens ∧
    t ∉ [Token.key, .value, .blockEnd] ∧ (underKey = false → t ≠ .dash) := by
  cases v with
  | list items =>
      cases items with
      | nil => exact ⟨_, _, by rw [valueTokens], by simp, by simp⟩
      | cons u rest =>
          cases underKey with
          | false => exact ⟨.blockSequence, _, by rw [valueTokens]; rfl, by simp, by simp⟩
          | true => exact ⟨.dash, _, by rw [valueTokens, if_pos rfl, itemTokens], by simp, by simp⟩
  | map entries =>
      cases entries with
      | nil => exact ⟨_, _, by rw [valueTokens], by simp, by simp⟩
      | cons e rest => exact ⟨_, _, by rw [valueTokens], by simp, by simp⟩
  | _ => exact ⟨_, _, valueTokens_leaf rfl underKey, by simp [leafToken], by simp [leafToken]⟩

/-- A value is read where other tokens would stand for none. -/
theorem orEmpty_value (h : ReadsNode read underKey (valueTokens underKey v) n) (hcontext : context.allowsBlock = true)
    (hdash : underKey = true → context = .underKey ∧ rest.head? ≠ some .dash) {stops : Token → Bool}
    (hstops : ∀ t, t ∉ [Token.key, .value, .blockEnd] → (underKey = false → t ≠ .dash) → stops t = false) :
    orEmpty read context stops ⟨valueTokens underKey v ++ rest, []⟩ = .ok (n, ⟨rest, []⟩) := by
  have hread := h context rest hcontext hdash
  obtain ⟨t, tokens, heq, ht, hdash⟩ := exists_valueTokens underKey v
  rw [heq, List.cons_append] at hread ⊢
  rw [orEmpty]
  simp only [hstops t ht hdash, Bool.false_eq_true, if_false, hread]

section Items

variable {items : List Value} (h : ∀ v ∈ items, ReadsNode read false (valueTokens false v) (nodeOf v))

include h

/-- The items of a block sequence. -/
theorem blockItems_eq : ∀ (before : List Yaml.Node) (fuel : Nat), items.length < fuel →
    blockItems read fuel ⟨itemTokens items ++ .blockEnd :: rest, []⟩ before =
      .ok (before.reverse ++ itemNodes items, ⟨rest, []⟩) := by
  induction items with
  | nil =>
      rintro before (_ | fuel) hfuel
      · cases hfuel
      · rw [itemTokens, itemNodes, List.append_nil]
        rfl
  | cons v items ih =>
      rintro before (_ | fuel) hfuel
      · cases hfuel
      obtain ⟨hv, hitems⟩ := List.forall_mem_cons.mp h
      have hitem := @orEmpty_value read .block false (itemTokens items ++ .blockEnd :: rest) (nodeOf v) v hv rfl
        (fun h => by cases h) (fun t => t == .dash || t == .blockEnd) (fun t ht hdash => by simp_all)
      rw [itemTokens, itemNodes, List.cons_append, List.append_assoc, blockItems]
      simp only [hitem, bind, Except.bind]
      rw [ih hitems _ _ (Nat.lt_of_succ_lt_succ hfuel)]
      simp

/-- The items of a sequence under a key. -/
theorem dashItems_eq (hrest : rest.head? ≠ some .dash) : ∀ (before : List Yaml.Node) (fuel : Nat), items.length < fuel →
    dashItems read fuel ⟨itemTokens items ++ rest, []⟩ before =
      .ok (before.reverse ++ itemNodes items, ⟨rest, []⟩) := by
  induction items with
  | nil =>
      rintro before (_ | fuel) hfuel
      · cases hfuel
      · rw [itemTokens, itemNodes, List.append_nil, List.nil_append, dashItems]
        split
        · next heq => exact absurd (by rw [show rest = _ from heq]; rfl) hrest
        · rfl
  | cons v items ih =>
      rintro before (_ | fuel) hfuel
      · cases hfuel
      obtain ⟨hv, hitems⟩ := List.forall_mem_cons.mp h
      have hitem := @orEmpty_value read .block false (itemTokens items ++ rest) (nodeOf v) v hv rfl
        (fun h => by cases h) (fun t => t == .dash || t == .key || t == .value || t == .blockEnd)
        (fun t ht hdash => by simp_all)
      rw [itemTokens, itemNodes, List.cons_append, List.append_assoc, dashItems]
      simp only [hitem, bind, Except.bind]
      rw [ih hitems _ _ (Nat.lt_of_succ_lt_succ hfuel)]
      simp

end Items

/-- A key, its colon and its value. -/
theorem member_eq {k : Value} {feed : Feed} {stops : Token → Bool}
    (hkey : ReadsNode read false [leafToken k] (leafNode k)) (hcontext : context.allowsBlock = true)
    (hstops : stops (leafToken k) = false) (hvalue : orEmpty read context stops ⟨tokens, []⟩ = .ok (n, feed)) :
    member read context stops ⟨leafToken k :: .value :: tokens, []⟩ = .ok ((leafNode k, n), feed) := by
  have hread := hkey context (.value :: tokens) hcontext fun h => by cases h
  have hgo : ((leafToken k == .value) || stops (leafToken k)) = false := by
    rw [hstops, Bool.or_false]
    rfl
  rw [member, orEmpty]
  simp only [hgo, Bool.false_eq_true, if_false]
  rw [List.singleton_append] at hread
  simp only [hread, bind, Except.bind, valueOrEmpty, hvalue, pure, Except.pure]

/-- The members of a block mapping. -/
theorem blockMembers_eq {entries : Entries} (hkey : ∀ k, ReadsNode read false [leafToken k] (leafNode k))
    (h : ∀ e ∈ entries, ReadsNode read (isShort e.1) (valueTokens (isShort e.1) e.2) (nodeOf e.2)) :
    ∀ (before : List Member) (fuel : Nat), entries.length < fuel →
      blockMembers read fuel ⟨entryTokens entries ++ .blockEnd :: rest, []⟩ before =
        .ok (before.reverse ++ entryNodes entries, ⟨rest, []⟩) := by
  induction entries with
  | nil =>
      rintro before (_ | fuel) hfuel
      · cases hfuel
      · rw [entryTokens, entryNodes, List.append_nil]
        rfl
  | cons e entries ih =>
      rintro before (_ | fuel) hfuel
      · cases hfuel
      obtain ⟨k, v⟩ := e
      obtain ⟨hv, hentries⟩ := List.forall_mem_cons.mp h
      -- a key or the end comes next, so a sequence under this key ends where it should
      have hdash : (entryTokens entries ++ .blockEnd :: rest).head? ≠ some .dash := by
        cases entries with
        | nil => simp [entryTokens]
        | cons e entries => simp [entryTokens]
      have hvalue := @orEmpty_value read .underKey _ (entryTokens entries ++ .blockEnd :: rest) (nodeOf v) v hv rfl
        (fun _ => ⟨rfl, hdash⟩) (fun t => t == .key || t == .value || t == .blockEnd) (fun t ht _ => by simp_all)
      have hmember := member_eq (hkey k) rfl rfl hvalue
      rw [entryTokens, entryNodes, List.cons_append, List.cons_append, List.cons_append, List.append_assoc,
        blockMembers]
      simp only [hmember, bind, Except.bind]
      rw [ih hentries _ _ (Nat.lt_of_succ_lt_succ hfuel)]
      simp

theorem length_itemTokens (items : List Value) : items.length ≤ (itemTokens items).length := by
  induction items with
  | nil => exact Nat.zero_le _
  | cons v items ih =>
      rw [itemTokens, List.length_cons, List.length_cons, List.length_append]
      omega

theorem length_entryTokens (entries : Entries) : entries.length ≤ (entryTokens entries).length := by
  induction entries with
  | nil => exact Nat.zero_le _
  | cons e entries ih =>
      obtain ⟨k, v⟩ := e
      rw [entryTokens]
      simp only [List.length_cons, List.length_append]
      omega

section Collections

variable {items : List Value} {entries : Entries}

theorem readsNode_sequence
    (h : ∀ v ∈ items, ReadsNode (Node.read handles depth) false (valueTokens false v) (nodeOf v)) :
    ReadsNode (Node.read handles (depth + 1)) underKey (.blockSequence :: (itemTokens items ++ [.blockEnd]))
      (.sequence none (itemNodes items)) := by
  intro context rest hcontext _
  -- the fuel counts tokens, of which each item has one at least
  have hitems := @blockItems_eq _ rest _ h [] ((itemTokens items ++ .blockEnd :: rest).length + 2) (by
    have := length_itemTokens items
    rw [List.length_append]
    omega)
  rw [List.cons_append, List.append_assoc, List.singleton_append]
  refine read_collection rfl ?_
  rw [collection?]
  simp only [hcontext, if_true, List.length_cons, hitems]
  rfl

theorem readsNode_dashes
    (h : ∀ v ∈ items, ReadsNode (Node.read handles depth) false (valueTokens false v) (nodeOf v)) (hne : items ≠ []) :
    ReadsNode (Node.read handles (depth + 1)) true (itemTokens items) (.sequence none (itemNodes items)) := by
  intro context rest _ hdash
  obtain ⟨rfl, hrest⟩ := hdash rfl
  have hitems := @dashItems_eq _ rest _ h hrest [] ((itemTokens items ++ rest).length + 1) (by
    have := length_itemTokens items
    rw [List.length_append]
    omega)
  obtain ⟨v, more, rfl⟩ := List.exists_cons_of_ne_nil hne
  rw [itemTokens, List.cons_append] at hitems ⊢
  refine read_collection rfl ?_
  rw [collection?]
  simp only [hitems]
  rfl

theorem readsNode_mapping
    (h : ∀ e ∈ entries,
      ReadsNode (Node.read handles depth) (isShort e.1) (valueTokens (isShort e.1) e.2) (nodeOf e.2)) :
    ReadsNode (Node.read handles (depth + 1)) underKey (.blockMapping :: (entryTokens entries ++ [.blockEnd]))
      (.mapping none (entryNodes entries)) := by
  intro context rest hcontext _
  have hentries := @blockMembers_eq _ rest _ (fun k => read_leaf k depth false) h []
    ((entryTokens entries ++ .blockEnd :: rest).length + 2) (by
      have := length_entryTokens entries
      rw [List.length_append]
      omega)
  rw [List.cons_append, List.append_assoc, List.singleton_append]
  refine read_collection rfl ?_
  rw [collection?]
  simp only [hcontext, if_true, List.length_cons, hentries]
  rfl

end Collections

mutual

/-- **The tokens of a value are read as its node.** -/
theorem readsNode : ∀ (v : Value) (underKey : Bool) (depth : Nat), v.depth ≤ depth →
    ReadsNode (Node.read handles depth) underKey (valueTokens underKey v) (nodeOf v)
  | .null, underKey, depth, _ | .bool _, underKey, depth, _ | .int _, underKey, depth, _ | .float _, underKey, depth, _
  | .str _, underKey, depth, _ | .day _, underKey, depth, _ | .moment _, underKey, depth, _ =>
      read_leaf _ depth underKey
  | .list _, _, 0, hdepth | .map _, _, 0, hdepth => by simp [Value.depth] at hdepth
  | .list [], _, depth + 1, _ => by
      rw [valueTokens, nodeOf]
      exact fun context rest _ _ => read_collection rfl rfl
  | .map [], _, depth + 1, _ => by
      rw [valueTokens, nodeOf]
      exact fun context rest _ _ => read_collection rfl rfl
  | .list (v :: more), underKey, depth + 1, hdepth => by
      rw [Value.depth, Nat.add_le_add_iff_right] at hdepth
      have hitems := readsNode_items (v :: more) depth hdepth
      rw [valueTokens, nodeOf]
      cases underKey with
      | false => exact readsNode_sequence hitems
      | true => exact readsNode_dashes hitems (List.cons_ne_nil _ _)
  | .map (e :: more), underKey, depth + 1, hdepth => by
      rw [Value.depth, Nat.add_le_add_iff_right] at hdepth
      rw [valueTokens, nodeOf]
      exact readsNode_mapping (readsNode_entries (e :: more) depth hdepth)

theorem readsNode_items : ∀ (items : List Value) (depth : Nat), Value.itemsDepth items ≤ depth →
    ∀ v ∈ items, ReadsNode (Node.read handles depth) false (valueTokens false v) (nodeOf v)
  | [], _, _ => fun _ h => absurd h List.not_mem_nil
  | v :: rest, depth, hdepth => by
      rw [Value.itemsDepth, Nat.max_le] at hdepth
      exact List.forall_mem_cons.mpr ⟨readsNode v false depth hdepth.1, readsNode_items rest depth hdepth.2⟩

theorem readsNode_entries : ∀ (entries : Entries) (depth : Nat), Value.entriesDepth entries ≤ depth →
    ∀ e ∈ entries, ReadsNode (Node.read handles depth) (isShort e.1) (valueTokens (isShort e.1) e.2) (nodeOf e.2)
  | [], _, _ => fun _ h => absurd h List.not_mem_nil
  | (k, v) :: rest, depth, hdepth => by
      rw [Value.entriesDepth, Nat.max_le] at hdepth
      exact List.forall_mem_cons.mpr ⟨readsNode v _ depth hdepth.1, readsNode_entries rest depth hdepth.2⟩

end

end Reading

/-! ## Values of nodes -/

section Building

variable {build : Builder} {fuel level : Nat}

theorem height_pos (n : Yaml.Node) : 0 < n.height := by
  cases n <;> simp [height]

theorem buildNode_leaf {v : Value} (hleaf : isLeaf v = true) (hjson : v.isJson = true)
    (hshort : v.hasShortIntegers = true) (fuel level : Nat) : buildNode (fuel + 1) level (leafNode v) = .ok v := by
  obtain ⟨kind, hkind, hread⟩ := exists_kind_leaf hjson hshort hleaf
  rw [buildNode.eq_def]
  simp only [leafNode] at hkind ⊢
  simp only [hkind, hread]
  rfl

theorem buildNode_sequence (items : List Yaml.Node) : buildNode (fuel + 1) level (.sequence none items) =
    (Built.all (items.map (buildNode fuel (level + 1)))).map .list := by
  rw [buildNode.eq_def]
  rfl

theorem buildNode_mapping (members : List Member) : buildNode (fuel + 1) level (.mapping none members) =
    (buildMembers (buildNode fuel (level + 1)) (level + 1) members).map fun pairs => .map (Entries.ofPairs pairs) := by
  rw [buildNode.eq_def]
  rfl

theorem all_map_itemNodes {items : List Value} (h : ∀ v ∈ items, build (nodeOf v) = .ok v) :
    Built.all ((itemNodes items).map build) = .ok items := by
  induction items with
  | nil => rfl
  | cons v items ih =>
      obtain ⟨hv, hitems⟩ := List.forall_mem_cons.mp h
      rw [itemNodes, List.map_cons, Built.all, hv, ih hitems]
      rfl

/-- No key is that of members to merge in. -/
theorem allMembers_entryNodes {entries : Entries} (hjson : Value.entriesAreJson entries = true) :
    allMembers (entryNodes entries) = .ok (entryNodes entries) := by
  have hsplit : splitMerged (entryNodes entries) = .ok ([], entryNodes entries) := by
    induction entries with
    | nil => rfl
    | cons e entries ih =>
        obtain ⟨k, v, rfl, -, -, hrest⟩ := Value.entriesAreJson_cons hjson
        have hmerge : (leafNode (.str k)).isMerge = false := by
          rw [isMerge, kind?_text]
          rfl
        rw [entryNodes, splitMerged, hmerge, ih hrest]
        rfl
  rw [allMembers, hsplit]
  rfl

theorem buildKey_text (k : String) (hbuild : build (leafNode (.str k)) = .ok (.str k)) :
    buildKey build level (leafNode (.str k)) = .ok (.str k) := by
  have hkind := kind?_text k
  rw [buildKey.eq_def, hkind]
  simp only [leafNode] at hbuild ⊢
  rw [hbuild]
  rfl

theorem buildMembers_entryNodes {entries : Entries} (hjson : Value.entriesAreJson entries = true)
    (h : ∀ e ∈ entries, build (leafNode e.1) = .ok e.1 ∧ build (nodeOf e.2) = .ok e.2) :
    buildMembers build level (entryNodes entries) = .ok entries := by
  have hall : Built.all ((entryNodes entries).map fun e => .both Prod.mk (buildKey build level e.1) (build e.2)) =
      .ok entries := by
    induction entries with
    | nil => rfl
    | cons e entries ih =>
        obtain ⟨k, v, rfl, -, -, hrest⟩ := Value.entriesAreJson_cons hjson
        obtain ⟨⟨hkey, hv⟩, hentries⟩ := List.forall_mem_cons.mp h
        rw [entryNodes, List.map_cons, Built.all, ih hrest hentries]
        dsimp only at hkey hv ⊢
        rw [buildKey_text k hkey, hv]
        rfl
  rw [buildMembers, allMembers_entryNodes hjson]
  exact hall

mutual

/-- **The node of JSON data stands for it.** -/
theorem buildNode_nodeOf : ∀ (v : Value) (fuel level : Nat), v.isJson = true → v.hasShortIntegers = true →
    (nodeOf v).height ≤ fuel → buildNode fuel level (nodeOf v) = .ok v
  | v, 0, _, _, _, hheight => absurd (height_pos (nodeOf v)) (Nat.not_lt.mpr hheight)
  | .null, fuel + 1, level, hjson, hshort, _ | .bool _, fuel + 1, level, hjson, hshort, _
  | .int _, fuel + 1, level, hjson, hshort, _ | .float _, fuel + 1, level, hjson, hshort, _
  | .str _, fuel + 1, level, hjson, hshort, _ => buildNode_leaf rfl hjson hshort fuel level
  | .day _, _ + 1, _, hjson, _, _ | .moment _, _ + 1, _, hjson, _, _ => by cases hjson
  | .list items, fuel + 1, level, hjson, hshort, hheight => by
      rw [Value.isJson] at hjson
      rw [Value.hasShortIntegers] at hshort
      rw [nodeOf, height, Nat.add_le_add_iff_right] at hheight
      have hitems := all_map_itemNodes (buildNode_items items fuel (level + 1) hjson hshort hheight)
      rw [nodeOf, buildNode_sequence, hitems]
      rfl
  | .map entries, fuel + 1, level, hjson, hshort, hheight => by
      rw [Value.isJson] at hjson
      rw [Value.hasShortIntegers] at hshort
      rw [nodeOf, height, Nat.add_le_add_iff_right] at hheight
      have hentries := @buildMembers_entryNodes _ (level + 1) entries hjson
        (buildNode_entries entries fuel (level + 1) hjson hshort hheight)
      have hpairs : Entries.ofPairs entries = entries := Value.foldl_insert_eq_append hjson [] fun _ _ => rfl
      rw [nodeOf, buildNode_mapping, hentries, Built.map, hpairs]

theorem buildNode_items : ∀ (items : List Value) (fuel level : Nat), Value.itemsAreJson items = true →
    Value.itemsHaveShortIntegers items = true → itemsHeight (itemNodes items) ≤ fuel →
    ∀ v ∈ items, buildNode fuel level (nodeOf v) = .ok v
  | [], _, _, _, _, _ => fun _ h => absurd h List.not_mem_nil
  | v :: rest, fuel, level, hjson, hshort, hheight => by
      rw [Value.itemsAreJson, Bool.and_eq_true] at hjson
      rw [Value.itemsHaveShortIntegers, Bool.and_eq_true] at hshort
      rw [itemNodes, itemsHeight, Nat.max_le] at hheight
      exact List.forall_mem_cons.mpr ⟨buildNode_nodeOf v fuel level hjson.1 hshort.1 hheight.1,
        buildNode_items rest fuel level hjson.2 hshort.2 hheight.2⟩

theorem buildNode_entries : ∀ (entries : Entries) (fuel level : Nat), Value.entriesAreJson entries = true →
    Value.entriesHaveShortIntegers entries = true → membersHeight (entryNodes entries) ≤ fuel →
    ∀ e ∈ entries, buildNode fuel level (leafNode e.1) = .ok e.1 ∧ buildNode fuel level (nodeOf e.2) = .ok e.2
  | [], _, _, _, _, _ => fun _ h => absurd h List.not_mem_nil
  | (k, v) :: rest, fuel, level, hjson, hshort, hheight => by
      obtain ⟨k, _, heq, hv, -, hrest⟩ := Value.entriesAreJson_cons hjson
      obtain ⟨rfl, rfl⟩ := Prod.mk.inj heq
      rw [Value.entriesHaveShortIntegers, Bool.and_eq_true, Bool.and_eq_true] at hshort
      rw [entryNodes, membersHeight, Nat.max_le, Nat.max_le] at hheight
      obtain ⟨⟨hkeyHeight, hvHeight⟩, hrestHeight⟩ := hheight
      have hvalue := buildNode_nodeOf v fuel level hv hshort.1.2 hvHeight
      have hentries := buildNode_entries rest fuel level hrest hshort.2 hrestHeight
      obtain ⟨fuel, rfl⟩ := Nat.exists_eq_add_of_lt (Nat.lt_of_lt_of_le (height_pos _) hkeyHeight)
      rw [Nat.zero_add] at hvalue hentries ⊢
      exact List.forall_mem_cons.mpr ⟨⟨buildNode_leaf rfl rfl rfl fuel level, hvalue⟩, hentries⟩

end

end Building

/-- **A document of JSON data is read back**, if all of its texts are kept, no integer in it is too long and
it nests no deeper than the reader allows. -/
theorem read_write {e : Value × Value} {rest : Entries} (hjson : Value.entriesAreJson (e :: rest) = true)
    (hshort : (Value.map (e :: rest)).hasShortIntegers = true) (hdepth : (Value.map (e :: rest)).depth ≤ depthLimit)
    (hkeeps : keepsEntries 0 (e :: rest) = true) :
    read (write (.map (e :: rest))).toList = .ok (.map (e :: rest)) := by
  have hline : '\r' ∉ (write (.map (e :: rest))).toList := fun h => by
    have := isWritten_write hjson _ h
    exact absurd this (by decide)
  have hread := @readsNode defaultHandles (.map (e :: rest)) false depthLimit hdepth .block [] rfl fun h => by cases h
  rw [valueTokens, List.append_nil] at hread
  have hroot : root defaultHandles (.blockMapping :: (entryTokens (e :: rest) ++ [.blockEnd])) =
      .ok (nodeOf (.map (e :: rest)), []) := by
    rw [root, hread]
    rfl
  have hnode : ofTokens (.blockMapping :: (entryTokens (e :: rest) ++ [.blockEnd])) =
      .ok (some (nodeOf (.map (e :: rest)))) := by
    simp only [ofTokens, hroot, bind, Except.bind, skipEnds, pure, Except.pure]
  have hbuild := buildNode_nodeOf (.map (e :: rest)) _ 0 (by rwa [Value.isJson]) hshort (Nat.le_refl _)
  rw [read, Text.unifyLines_of_not_mem hline, scan_write hjson hkeeps, hnode]
  simp only [bind, Except.bind, Node.toValue, hbuild]
  rfl

end Runbook.Yaml
