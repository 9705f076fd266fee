import Runbook.Proofs.Json.Faults
import Runbook.Yaml.Node

/-!
# Nodes and the tokens they come from

Each scalar of a node has its text from a token, or no text, and a tag only if one is among the
tokens (`Node.From`). What is wrong with a node is its form, or a fault among the tokens, or
nesting too deep, which takes as many tokens that open a collection (`Composed`). Both are kept by
every reader of nodes (`reads_read`). Main statement: `ends_ofTokens`.
-/

namespace Runbook.Yaml

/-- A token that opens a collection, or an item of a sequence. -/
def Token.opens : Token → Bool
  | .flowSequence | .flowMapping | .blockSequence | .blockMapping | .dash => true
  | _ => false

namespace Node

/-- A tag stands among the tokens. -/
def HasTag (all : List Token) : Prop := ∃ name, .tag name ∈ all

/-- A text that a scalar among the tokens has, or none. -/
def Written (all : List Token) (text : String) : Prop := text = "" ∨ ∃ plain, .scalar plain text ∈ all

/-- A node whose texts and tags come from tokens. -/
inductive From (all : List Token) : Node → Prop
  | scalar {mark : Mark} {text : String} (hmark : ∀ name, mark = .tagged name → HasTag all)
      (htext : Written all text) : From all (.scalar mark text)
  | sequence {tag : Option String} {items : List Node} (htag : ∀ name, tag = some name → HasTag all)
      (hitems : ∀ n ∈ items, From all n) : From all (.sequence tag items)
  | mapping {tag : Option String} {members : List Member} (htag : ∀ name, tag = some name → HasTag all)
      (hkeys : ∀ m ∈ members, From all m.1) (hvalues : ∀ m ∈ members, From all m.2) :
      From all (.mapping tag members)
  | cycle : From all .cycle

theorem from_empty (all : List Token) : From all empty := .scalar (fun _ h => by cases h) (.inl rfl)

/-- What can be wrong with a node whose tokens come next, if each level of nesting below `depth` has had a token
that opens it. -/
def Composed (all : List Token) (depth : Nat) (tokens : List Token) (f : Fault) : Prop :=
  f = .malformed ∨ .fault f ∈ all ∨ f = .tooDeep ∧ depth ≤ tokens.countP Token.opens

/-- What is left of the tokens, and the nodes that have anchors. -/
structure Feed.Sound (all : List Token) (feed : Feed) : Prop where
  rest : feed.tokens <:+ all
  named : ∀ a n, (a, some n) ∈ feed.anchors → From all n

/-- A result that is read from the front of some tokens. -/
def Gives {α : Type} (all : List Token) (depth : Nat) (tokens : List Token) (P : α → Prop) :
    Except Fault (α × Feed) → Prop :=
  Ends (Composed all depth tokens) fun r => P r.1 ∧ r.2.Sound all ∧ r.2.tokens <:+ tokens

/-- A reader of nodes that come from tokens. -/
def Reads (all : List Token) (depth : Nat) (read : Reader) : Prop :=
  ∀ context feed, feed.Sound all → Gives all depth feed.tokens (From all) (read context feed)

section Gives

variable {α β : Type} {all tokens rest : List Token} {depth : Nat} {P : α → Prop} {Q : β → Prop} {feed : Feed}
  {x : Except Fault (α × Feed)}

theorem composed_malformed : Composed all depth tokens .malformed := .inl rfl

theorem composed_tooDeep (h : depth ≤ tokens.countP Token.opens) : Composed all depth tokens .tooDeep :=
  .inr (.inr ⟨rfl, h⟩)

theorem Composed.of_suffix {f : Fault} (h : Composed all depth rest f) (hrest : rest <:+ tokens) :
    Composed all depth tokens f := by
  obtain h | h | ⟨h, hdeep⟩ := h
  · exact .inl h
  · exact .inr (.inl h)
  · exact .inr (.inr ⟨h, Nat.le_trans hdeep hrest.sublist.countP_le⟩)

/-- Behind a token that opens a collection there is room for one level less. -/
theorem Composed.of_inside {f : Fault} {t : Token} (h : Composed all depth rest f) (hopen : tokens = t :: rest)
    (ht : t.opens = true) : Composed all (depth + 1) tokens f := by
  obtain h | h | ⟨h, hdeep⟩ := h
  · exact .inl h
  · exact .inr (.inl h)
  · refine .inr (.inr ⟨h, ?_⟩)
    rw [hopen, List.countP_cons_of_pos ht]
    exact Nat.succ_le_succ hdeep

theorem Gives.of_suffix (h : Gives all depth rest P x) (hrest : rest <:+ tokens) : Gives all depth tokens P x :=
  h.mono (fun _ hf => hf.of_suffix hrest) fun _ hr => ⟨hr.1, hr.2.1, hr.2.2.trans hrest⟩

theorem Gives.of_inside {t : Token} (h : Gives all depth rest P x) (hopen : tokens = t :: rest)
    (ht : t.opens = true) : Gives all (depth + 1) tokens P x :=
  h.mono (fun _ hf => hf.of_inside hopen ht) fun _ hr =>
    ⟨hr.1, hr.2.1, hr.2.2.trans (hopen ▸ List.suffix_cons t rest)⟩

/-- What is read of the tokens that a reading leaves. -/
theorem Gives.bind {f : α × Feed → Except Fault (β × Feed)} (h : Gives all depth tokens P x)
    (hf : ∀ a feed, P a → feed.Sound all → feed.tokens <:+ tokens → Gives all depth feed.tokens Q (f (a, feed))) :
    Gives all depth tokens Q (x >>= f) :=
  Ends.bind h fun r hr => (hf r.1 r.2 hr.1 hr.2.1 hr.2.2).of_suffix hr.2.2

theorem gives_ok {a : α} (ha : P a) (hfeed : feed.Sound all) (hrest : feed.tokens <:+ tokens) :
    Gives all depth tokens P (.ok (a, feed)) :=
  ⟨ha, hfeed, hrest⟩

theorem Feed.Sound.of_suffix (h : feed.Sound all) (hrest : rest <:+ feed.tokens) :
    Feed.Sound all { feed with tokens := rest } :=
  ⟨hrest.trans h.rest, h.named⟩

theorem Feed.Sound.name (h : feed.Sound all) (anchor : Option String) {n : Option Node}
    (hn : ∀ m, n = some m → From all m) : (feed.name anchor n).Sound all := by
  cases anchor with
  | none => exact h
  | some a =>
      refine ⟨h.rest, fun b m hm => ?_⟩
      obtain heq | hm := List.mem_cons.mp hm
      · exact hn m (Prod.mk.inj heq).2.symm
      · exact h.named b m hm

/-- The parts of a collection, in their order, behind the token that closes it. -/
theorem gives_closed {P : α → Prop} {parts : List α} {t : Token} (hfeed : feed.Sound all)
    (hend : feed.tokens = t :: rest) (hparts : ∀ a ∈ parts, P a) :
    Gives all depth feed.tokens (fun parts => ∀ a ∈ parts, P a)
      (.ok (parts.reverse, { feed with tokens := rest })) := by
  have hrest : rest <:+ feed.tokens := hend ▸ List.suffix_cons _ _
  exact gives_ok (fun a ha => hparts a (List.mem_reverse.mp ha)) (hfeed.of_suffix hrest) hrest

theorem tokens_name (feed : Feed) (anchor : Option String) (n : Option Node) :
    (feed.name anchor n).tokens = feed.tokens := by
  cases anchor <;> rfl

theorem gives_refuse (h : feed.Sound all) : Gives all depth feed.tokens P (refuse feed) := by
  unfold refuse unexpected
  split
  case h_1 f rest hfault => exact .inr (.inl (h.rest.subset (hfault ▸ List.mem_cons_self)))
  case h_2 => exact .inl rfl

end Gives

/-! ## Collections -/

section Collections

variable {all : List Token} {depth : Nat} {read : Reader} {context : Context} {stops : Token → Bool} {feed : Feed}

theorem gives_orEmpty (hread : Reads all depth read) (hfeed : feed.Sound all) :
    Gives all depth feed.tokens (From all) (orEmpty read context stops feed) := by
  unfold orEmpty
  split
  · split
    · exact gives_ok (from_empty all) hfeed List.suffix_rfl
    · exact hread context feed hfeed
  · exact hread context feed hfeed

theorem gives_valueOrEmpty (hread : Reads all depth read) (hfeed : feed.Sound all) :
    Gives all depth feed.tokens (From all) (valueOrEmpty read context stops feed) := by
  unfold valueOrEmpty
  split
  case h_1 rest hvalue =>
    have hrest : rest <:+ feed.tokens := hvalue ▸ List.suffix_cons _ _
    exact (gives_orEmpty hread (hfeed.of_suffix hrest)).of_suffix hrest
  case h_2 => exact gives_ok (from_empty all) hfeed List.suffix_rfl

/-- A member whose key and value come from tokens. -/
def MemberFrom (all : List Token) (m : Member) : Prop := From all m.1 ∧ From all m.2

theorem gives_member (hread : Reads all depth read) (hfeed : feed.Sound all) :
    Gives all depth feed.tokens (MemberFrom all) (member read context stops feed) := by
  refine (gives_orEmpty hread hfeed).bind fun key feed hkey hfeed _ => ?_
  refine (gives_valueOrEmpty hread hfeed).bind fun value feed hvalue hfeed _ => ?_
  exact gives_ok ⟨hkey, hvalue⟩ hfeed List.suffix_rfl

theorem gives_blockItems (hread : Reads all depth read) (fuel : Nat) (hfeed : feed.Sound all) {items : List Node}
    (hitems : ∀ n ∈ items, From all n) :
    Gives all depth feed.tokens (fun items => ∀ n ∈ items, From all n) (blockItems read fuel feed items) := by
  induction fuel generalizing feed items with
  | zero => exact gives_refuse hfeed
  | succ fuel ih =>
      rw [blockItems]
      split
      case h_1 rest hdash =>
        have hrest : rest <:+ feed.tokens := hdash ▸ List.suffix_cons _ _
        refine ((gives_orEmpty hread (hfeed.of_suffix hrest)).bind fun item feed hitem hfeed _ => ?_).of_suffix hrest
        exact ih hfeed (List.forall_mem_cons.mpr ⟨hitem, hitems⟩)
      case h_2 rest hend => exact gives_closed hfeed hend hitems
      case h_3 => exact gives_refuse hfeed

/-- Each item stands behind a dash, which is one of the tokens that open. -/
theorem gives_dashItems (hread : Reads all depth read) (fuel : Nat) (hfeed : feed.Sound all) {items : List Node}
    (hitems : ∀ n ∈ items, From all n) :
    Gives all (depth + 1) feed.tokens (fun items => ∀ n ∈ items, From all n) (dashItems read fuel feed items) := by
  induction fuel generalizing feed items with
  | zero => exact gives_refuse hfeed
  | succ fuel ih =>
      rw [dashItems]
      split
      case h_1 rest hdash =>
        have hrest : rest <:+ feed.tokens := hdash ▸ List.suffix_cons _ _
        refine Gives.bind ((gives_orEmpty hread (hfeed.of_suffix hrest)).of_inside hdash rfl)
          fun item feed hitem hfeed _ => ?_
        exact ih hfeed (List.forall_mem_cons.mpr ⟨hitem, hitems⟩)
      case h_2 => exact gives_ok (fun n hn => hitems n (List.mem_reverse.mp hn)) hfeed List.suffix_rfl

theorem gives_blockMembers (hread : Reads all depth read) (fuel : Nat) (hfeed : feed.Sound all)
    {members : List Member} (hmembers : ∀ m ∈ members, MemberFrom all m) :
    Gives all depth feed.tokens (fun members => ∀ m ∈ members, MemberFrom all m)
      (blockMembers read fuel feed members) := by
  induction fuel generalizing feed members with
  | zero => exact gives_refuse hfeed
  | succ fuel ih =>
      rw [blockMembers]
      split
      case h_1 rest hkey =>
        have hrest : rest <:+ feed.tokens := hkey ▸ List.suffix_cons _ _
        refine ((gives_member hread (hfeed.of_suffix hrest)).bind fun m feed hm hfeed _ => ?_).of_suffix hrest
        exact ih hfeed (List.forall_mem_cons.mpr ⟨hm, hmembers⟩)
      case h_2 rest hend => exact gives_closed hfeed hend hmembers
      case h_3 => exact gives_refuse hfeed

theorem gives_flowItem (hread : Reads all depth read) (hfeed : feed.Sound all) :
    Gives all depth feed.tokens (From all) (flowItem read feed) := by
  unfold flowItem
  split
  case h_1 rest hkey =>
    have hrest : rest <:+ feed.tokens := hkey ▸ List.suffix_cons _ _
    refine ((gives_member hread (hfeed.of_suffix hrest)).bind fun m feed hm hfeed _ => ?_).of_suffix hrest
    refine gives_ok (.mapping (fun _ h => by cases h) ?_ ?_) hfeed List.suffix_rfl
    · exact List.forall_mem_singleton.mpr hm.1
    · exact List.forall_mem_singleton.mpr hm.2
  case h_2 => exact hread .flow feed hfeed

theorem gives_flowItems (hread : Reads all depth read) (fuel : Nat) (hfeed : feed.Sound all) {items : List Node}
    (hitems : ∀ n ∈ items, From all n) :
    Gives all depth feed.tokens (fun items => ∀ n ∈ items, From all n) (flowItems read fuel feed items) := by
  induction fuel generalizing feed items with
  | zero => exact gives_refuse hfeed
  | succ fuel ih =>
      rw [flowItems]
      split
      case h_1 rest hend => exact gives_closed hfeed hend hitems
      case h_2 =>
        refine (gives_flowItem hread hfeed).bind fun item feed hitem hfeed _ => ?_
        have hall : ∀ n ∈ item :: items, From all n := List.forall_mem_cons.mpr ⟨hitem, hitems⟩
        dsimp only
        split
        case h_1 rest hcomma =>
          have hrest : rest <:+ feed.tokens := hcomma ▸ List.suffix_cons _ _
          exact (ih (hfeed.of_suffix hrest) hall).of_suffix hrest
        case h_2 rest hend => exact gives_closed hfeed hend hall
        case h_3 => exact gives_refuse hfeed

theorem gives_flowMember (hread : Reads all depth read) (hfeed : feed.Sound all) :
    Gives all depth feed.tokens (MemberFrom all) (flowMember read feed) := by
  unfold flowMember
  split
  case h_1 rest hkey =>
    have hrest : rest <:+ feed.tokens := hkey ▸ List.suffix_cons _ _
    exact (gives_member hread (hfeed.of_suffix hrest)).of_suffix hrest
  case h_2 =>
    refine (hread .flow feed hfeed).bind fun key feed hkey hfeed _ => ?_
    exact gives_ok ⟨hkey, from_empty all⟩ hfeed List.suffix_rfl

theorem gives_flowMembers (hread : Reads all depth read) (fuel : Nat) (hfeed : feed.Sound all)
    {members : List Member} (hmembers : ∀ m ∈ members, MemberFrom all m) :
    Gives all depth feed.tokens (fun members => ∀ m ∈ members, MemberFrom all m)
      (flowMembers read fuel feed members) := by
  induction fuel generalizing feed members with
  | zero => exact gives_refuse hfeed
  | succ fuel ih =>
      rw [flowMembers]
      split
      case h_1 rest hend => exact gives_closed hfeed hend hmembers
      case h_2 =>
        refine (gives_flowMember hread hfeed).bind fun m feed hm hfeed _ => ?_
        have hall : ∀ m' ∈ m :: members, MemberFrom all m' := List.forall_mem_cons.mpr ⟨hm, hmembers⟩
        dsimp only
        split
        case h_1 rest hcomma =>
          have hrest : rest <:+ feed.tokens := hcomma ▸ List.suffix_cons _ _
          exact (ih (hfeed.of_suffix hrest) hall).of_suffix hrest
        case h_2 rest hend => exact gives_closed hfeed hend hall
        case h_3 => exact gives_refuse hfeed

theorem gives_sequence {tag : Option String} (htag : ∀ name, tag = some name → HasTag all)
    {items : Except Fault (List Node × Feed)}
    (h : Gives all depth tokens (fun items => ∀ n ∈ items, From all n) items) :
    Gives all depth tokens (From all) (items.map fun r => (.sequence tag r.1, r.2)) :=
  Ends.map h fun _ hr => ⟨.sequence htag hr.1, hr.2⟩

theorem gives_mapping {tag : Option String} (htag : ∀ name, tag = some name → HasTag all)
    {members : Except Fault (List Member × Feed)}
    (h : Gives all depth tokens (fun members => ∀ m ∈ members, MemberFrom all m) members) :
    Gives all depth tokens (From all) (members.map fun r => (.mapping tag r.1, r.2)) :=
  Ends.map h fun _ hr => ⟨.mapping htag (fun m hm => (hr.1 m hm).1) (fun m hm => (hr.1 m hm).2), hr.2⟩

/-- Every collection starts with a token that opens it. -/
theorem gives_collection (hread : Reads all depth read) (hfeed : feed.Sound all) {tag : Option String}
    (htag : ∀ name, tag = some name → HasTag all) {result : Except Fault (Node × Feed)}
    (h : collection? read context tag feed = some result) :
    Gives all (depth + 1) feed.tokens (From all) result := by
  unfold collection? at h
  split at h
  case h_1 rest hdash =>
    split at h
    · cases h
      exact gives_sequence htag (gives_dashItems hread _ hfeed (List.forall_mem_nil _))
    · cases h
  case h_2 rest hopen =>
    cases h
    have hrest : rest <:+ feed.tokens := hopen ▸ List.suffix_cons _ _
    refine Gives.of_inside ?_ hopen rfl
    exact gives_sequence htag (gives_flowItems hread _ (hfeed.of_suffix hrest) (List.forall_mem_nil _))
  case h_3 rest hopen =>
    cases h
    have hrest : rest <:+ feed.tokens := hopen ▸ List.suffix_cons _ _
    refine Gives.of_inside ?_ hopen rfl
    exact gives_mapping htag (gives_flowMembers hread _ (hfeed.of_suffix hrest) (List.forall_mem_nil _))
  case h_4 rest hopen =>
    split at h
    · cases h
      have hrest : rest <:+ feed.tokens := hopen ▸ List.suffix_cons _ _
      refine Gives.of_inside ?_ hopen rfl
      exact gives_sequence htag (gives_blockItems hread _ (hfeed.of_suffix hrest) (List.forall_mem_nil _))
    · cases h
  case h_5 rest hopen =>
    split at h
    · cases h
      have hrest : rest <:+ feed.tokens := hopen ▸ List.suffix_cons _ _
      refine Gives.of_inside ?_ hopen rfl
      exact gives_mapping htag (gives_blockMembers hread _ (hfeed.of_suffix hrest) (List.forall_mem_nil _))
    · cases h
  case h_6 => cases h

end Collections

/-! ## Documents -/

section Documents

variable {all tokens rest : List Token} {depth : Nat} {feed : Feed} {given : Properties} {handles : Handles}

/-- The tag before a node is one of the tokens. -/
theorem properties_suffix (tokens : List Token) :
    (properties tokens).2 <:+ tokens ∧ ∀ t, (properties tokens).1.tag = some t → .tag t ∈ tokens := by
  have htwo : ∀ (t u : Token) (more : List Token), more <:+ t :: u :: more := fun t u more =>
    (List.suffix_cons u more).trans (List.suffix_cons t _)
  unfold properties
  split
  · exact ⟨htwo _ _ _, by simp⟩
  · exact ⟨htwo _ _ _, by simp⟩
  · exact ⟨List.suffix_cons _ _, by simp⟩
  · exact ⟨List.suffix_cons _ _, by simp⟩
  · exact ⟨List.suffix_rfl, by simp⟩

theorem ends_tagName {given : Option Lexeme.TagName} (hgiven : ∀ t, given = some t → .tag t ∈ all) :
    Ends (Composed all depth tokens) (fun tag => ∀ name, tag = some name → HasTag all) (tagName handles given) := by
  unfold tagName
  split
  · exact fun _ h => by cases h
  · exact fun _ _ => ⟨_, hgiven _ rfl⟩
  · split
    · exact fun _ _ => ⟨_, hgiven _ rfl⟩
    · exact composed_malformed

theorem hasTag_of_scalarMark {plain : Bool} {tag : Option String} (htag : ∀ name, tag = some name → HasTag all) :
    ∀ name, scalarMark plain tag = .tagged name → HasTag all := by
  intro name h
  cases tag with
  | none => cases plain <;> cases h
  | some name => exact htag name rfl

/-- A node that is no alias. The nodes inside it have room for one level less. -/
theorem gives_content {read : Option Reader} (hread : Reads all depth (read.getD fun _ _ => .error .tooDeep))
    (context : Context) (hfeed : feed.Sound all) :
    Gives all (depth + 1) feed.tokens (From all) (content handles read context feed) := by
  have hproperties := properties_suffix feed.tokens
  unfold content
  generalize properties feed.tokens = found at hproperties ⊢
  obtain ⟨given, tokens⟩ := found
  obtain ⟨hrest, hgiven⟩ := hproperties
  have hrest' : Feed.Sound all { feed with tokens := tokens } := hfeed.of_suffix hrest
  refine Ends.bind (ends_tagName fun t ht => hfeed.rest.subset (hgiven t ht)) fun tag htag => ?_
  dsimp only
  split
  · exact composed_malformed
  split
  case h_1 plain text rest =>
    have hsuffix : rest <:+ .scalar plain text :: rest := List.suffix_cons _ _
    have hwritten : Written all text := .inr ⟨plain, hrest'.rest.subset List.mem_cons_self⟩
    have hnode : From all (.scalar (scalarMark plain tag) text) := .scalar (hasTag_of_scalarMark htag) hwritten
    refine gives_ok hnode ((hrest'.of_suffix hsuffix).name _ fun m hm => Option.some.inj hm ▸ hnode) ?_
    rw [tokens_name]
    exact hsuffix.trans hrest
  case h_2 =>
    split
    case h_1 result hresult =>
      have hfilter : ∀ name, collectionTag tag = some name → HasTag all := fun name h =>
        htag name (Option.filter_eq_some_iff.mp h).1
      have hcollection := gives_collection hread (hrest'.name _ fun m hm => by cases hm) hfilter hresult
      rw [tokens_name] at hcollection
      refine Gives.bind (hcollection.of_suffix hrest) fun n feed hn hfeed _ => ?_
      exact gives_ok hn (hfeed.name _ fun m hm => Option.some.inj hm ▸ hn) (by simp only [tokens_name, List.suffix_rfl])
    case h_2 =>
      split
      · exact (gives_refuse hrest').of_suffix hrest
      · have hnode : From all (.scalar (scalarMark true tag) "") := .scalar (hasTag_of_scalarMark htag) (.inl rfl)
        refine gives_ok hnode (hrest'.name _ fun m hm => Option.some.inj hm ▸ hnode) ?_
        rw [tokens_name]
        exact hrest

theorem ends_aliased (hfeed : feed.Sound all) (name : String) :
    Ends (Composed all depth tokens) (From all) (aliased feed name) := by
  unfold aliased
  split
  · exact composed_malformed
  · exact .cycle
  case h_3 n hlookup =>
    obtain ⟨before, after, hanchors, -⟩ := List.lookup_eq_some_iff.mp hlookup
    exact hfeed.named name n (by simp [hanchors])

/-- **Every node that is read comes from tokens**, and nesting that is too deep for a reader is to be seen in
them. -/
theorem reads_read (handles : Handles) (depth : Nat) : Reads all (depth + 1) (read handles depth) := by
  induction depth with
  | zero =>
      intro context feed hfeed
      rw [read]
      split
      case h_1 name rest halias =>
        have hrest : rest <:+ feed.tokens := halias ▸ List.suffix_cons _ _
        exact Ends.map (ends_aliased hfeed name) fun n hn => ⟨hn, hfeed.of_suffix hrest, hrest⟩
      case h_2 =>
        have hnone : Reads all 0 ((none : Option Reader).getD fun _ _ => .error .tooDeep) := fun _ _ _ =>
          composed_tooDeep (Nat.zero_le _)
        exact gives_content hnone context hfeed
  | succ depth ih =>
      intro context feed hfeed
      rw [read]
      split
      case h_1 name rest halias =>
        have hrest : rest <:+ feed.tokens := halias ▸ List.suffix_cons _ _
        exact Ends.map (ends_aliased hfeed name) fun n hn => ⟨hn, hfeed.of_suffix hrest, hrest⟩
      case h_2 => exact gives_content ih context hfeed

theorem ends_root (handles : Handles) (hrest : tokens <:+ all) :
    Ends (Composed all (depthLimit + 1) all) (fun r => From all r.1 ∧ r.2 <:+ all) (root handles tokens) := by
  have hread := reads_read handles depthLimit .block ⟨tokens, []⟩ ⟨hrest, fun _ _ h => absurd h List.not_mem_nil⟩
  exact Ends.map (hread.of_suffix hrest) fun r hr => ⟨hr.1, hr.2.2⟩

theorem ends_declared (versioned : Bool) (handles : Handles) (hrest : tokens <:+ all) :
    Ends (Composed all depth all) (fun r => r.2 <:+ all) (declared versioned handles tokens) := by
  fun_induction declared versioned handles tokens with
  | case1 | case3 => exact composed_malformed
  | case2 | case4 | case5 => rename_i ih; exact ih ((List.suffix_cons _ _).trans hrest)
  | case6 => exact hrest

theorem composed_unexpected (hrest : tokens <:+ all) : Composed all depth all (unexpected tokens) := by
  unfold unexpected
  split
  case h_1 f rest => exact .inr (.inl (hrest.subset List.mem_cons_self))
  case h_2 => exact .inl rfl

theorem ends_markedDocument (tokens : List Token) :
    Ends (Composed tokens (depthLimit + 1) tokens) (fun r => From tokens r.1 ∧ r.2 <:+ tokens)
      (markedDocument tokens) := by
  refine Ends.bind (ends_declared false [] List.suffix_rfl) fun r hrest => ?_
  obtain ⟨handles, rest⟩ := r
  dsimp only
  split
  case h_1 more =>
    have hmore : more <:+ tokens := (List.suffix_cons _ _).trans hrest
    split
    case h_5 => exact ends_root handles hmore
    all_goals exact ⟨from_empty tokens, hmore⟩
  case h_2 => exact composed_unexpected hrest

theorem skipEnds_suffix (tokens : List Token) : skipEnds tokens <:+ tokens := by
  fun_induction skipEnds tokens with
  | case1 rest ih => exact ih.trans (List.suffix_cons _ _)
  | case2 => exact List.suffix_rfl

/-- **The node of a document comes from its tokens.** What is wrong with it is its form, or a fault among the
tokens, or nesting that is too deep, for which there are more tokens that open than may nest. -/
theorem ends_ofTokens (tokens : List Token) :
    Ends (Composed tokens (depthLimit + 1) tokens) (fun n => ∀ m, n = some m → From tokens m) (ofTokens tokens) := by
  unfold ofTokens
  split
  · exact fun m hm => by cases hm
  · split
    -- wherever the node starts, the tokens behind it are looked at in one way
    all_goals
      first
        | refine Ends.bind (ends_markedDocument _) fun r hr => ?_
        | refine Ends.bind (ends_root _ List.suffix_rfl) fun r hr => ?_
      dsimp only
      split
      · exact fun m hm => Option.some.inj hm ▸ hr.1
      · exact composed_unexpected ((skipEnds_suffix _).trans hr.2)

end Documents

end Node

end Runbook.Yaml
