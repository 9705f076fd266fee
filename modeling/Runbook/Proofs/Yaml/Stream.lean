import Runbook.Proofs.Yaml.Block
import Runbook.Proofs.Yaml.Leaves

/-!
# The tokens of a value

What a run takes from the text of a value behind a mark or a key (`Takes`), and from lines
of a block collection (`TakesBlock`). Collections are put together line by line; a value of
JSON data, all of whose texts are kept (`keepsValue`), is taken as its tokens
(`takes_value`). Main statement: `scan_write`.
-/

namespace Runbook.Yaml

open Scanner

/-! ## Tokens -/

mutual

/-- The tokens of a value behind a mark or behind a key, in whose column the dashes of a sequence stand. -/
def valueTokens (underKey : Bool) : Value → List Token
  | .list [] => [.flowSequence, .flowSequenceEnd]
  | .list (v :: rest) =>
    if underKey then itemTokens (v :: rest) else .blockSequence :: (itemTokens (v :: rest) ++ [.blockEnd])
  | .map [] => [.flowMapping, .flowMappingEnd]
  | .map (e :: rest) => .blockMapping :: (entryTokens (e :: rest) ++ [.blockEnd])
  | v => [leafToken v]

def itemTokens : List Value → List Token
  | [] => []
  | v :: rest => .dash :: (valueTokens false v ++ itemTokens rest)

def entryTokens : List (Value × Value) → List Token
  | [] => []
  | (k, v) :: rest => .key :: leafToken k :: .value :: (valueTokens (isShort k) v ++ entryTokens rest)

end

/-- The column of the dashes of a sequence. -/
def dashColumn (underKey : Bool) (indent : Nat) : Nat := if underKey then indent else indent + 2

/-- A key that stands before its colon is short enough to be read. -/
def keepsKey (indent : Nat) (key : Value) : Bool := (writeScalar true (indent + 2) indent key).length ≤ keyLimit

mutual

/-- Every text in a value behind a mark or a key in a column is read back as it was. -/
def keepsValue (underKey : Bool) (indent : Nat) : Value → Bool
  | .list items => keepsItems (dashColumn underKey indent) items
  | .map entries => keepsEntries (indent + 2) entries
  | v => keepsLeaf (indent + 2) v

def keepsItems (indent : Nat) : List Value → Bool
  | [] => true
  | v :: rest => keepsValue false indent v && keepsItems indent rest

def keepsEntries (indent : Nat) : List (Value × Value) → Bool
  | [] => true
  | (k, v) :: rest =>
    (if isShort k then keepsKey indent k else keepsLeaf (indent + 2) k) && keepsValue (isShort k) indent v &&
      keepsEntries indent rest

end

/-! ## Text behind a mark or a key -/

/-- A value behind a mark or a key in a column. -/
def behind (underKey : Bool) (indent column : Nat) (v : Value) : List Char :=
  if underKey then behindKey indent column v else behindMark indent v

/-- What stands before a block collection in a column. -/
def gapBefore (underKey : Bool) (column : Nat) : List Char := if underKey then newLine column else [' ']

section Behind

variable {underKey : Bool} {indent column : Nat} {v : Value}

theorem behind_leaf (h : isLeaf v = true) :
    ∃ column', behind underKey indent column v = ' ' :: writeScalar false (indent + 2) column' v := by
  cases underKey with
  | false => exact ⟨indent + 2, by cases v <;> first | rfl | cases h⟩
  | true => exact ⟨column + 1, by cases v <;> first | rfl | cases h⟩

theorem behind_list (v : Value) (rest : List Value) : behind underKey indent column (.list (v :: rest)) =
    gapBefore underKey (dashColumn underKey indent) ++
      (newLine (dashColumn underKey indent)).intercalate (itemTexts (dashColumn underKey indent) (v :: rest)) := by
  cases underKey <;> rfl

theorem behind_map (e : Value × Value) (rest : Entries) : behind underKey indent column (.map (e :: rest)) =
    gapBefore underKey (indent + 2) ++ (newLine (indent + 2)).intercalate (entryTexts (indent + 2) (e :: rest)) := by
  cases underKey <;> rfl

theorem behind_nil : behind underKey indent column (.list []) = [' ', '[', ']'] := by
  cases underKey <;> rfl

theorem behind_empty : behind underKey indent column (.map []) = [' ', '\x7b', '\x7d'] := by
  cases underKey <;> rfl

end Behind

/-! ## What a run takes -/

/-- From the text behind a mark or a key in a column, a run takes tokens up to the next line. -/
def Takes (underKey : Bool) (indent : Nat) (text : List Char) (given : List Token) : Prop :=
  ∀ ⦃p : Place⦄ ⦃tokens : List Token⦄ ⦃outer : List Nat⦄ ⦃allowed : Bool⦄ ⦃tail : List Char⦄,
    p.rest = text ++ tail → NextLine indent tail → indent ≤ p.column →
    (underKey = false → allowed = true ∧ p.column = indent + 1) →
    ∃ q : Place, q.rest = tail ∧ Leads ⟨p, tokens, indent :: outer, allowed, none, []⟩
      ⟨q, given.reverse ++ tokens, indent :: outer, true, none, []⟩

/-- From lines in the column of a block collection, a run takes tokens behind what opens it. -/
structure TakesBlock (opening : Token) (column : Nat) (text : List Char) (given : List Token) : Prop where
  starts : ∀ tail, StartsLine (text ++ tail)
  leads : ∀ ⦃p : Place⦄ ⦃tokens tokens' : List Token⦄ ⦃columns outer : List Nat⦄ ⦃tail : List Char⦄,
    Opens opening column tokens columns tokens' outer → p.rest = text ++ tail → p.column = column →
    NextLine column tail → ∃ q : Place, q.rest = tail ∧ Leads ⟨p, tokens, columns, true, none, []⟩
      ⟨q, given.reverse ++ tokens', column :: outer, true, none, []⟩

variable {underKey : Bool} {indent column : Nat} {text more : List Char} {given given' : List Token} {t t' : Token}
  {opening closing : Char} {v : Value}

theorem takes_scalar (h : IsScalar (indent + 1) text t) : Takes underKey indent (' ' :: text) [t] :=
  fun _ _ _ _ _ hrest htail hcolumn _ =>
    ⟨_, Place.rest_skip_of_append hrest, leads_scalar h htail hrest hcolumn⟩

theorem takes_brackets (h : IsBrackets opening closing t t') : Takes underKey indent [' ', opening, closing] [t, t'] :=
  fun _ _ _ _ _ hrest htail hcolumn _ =>
    ⟨_, Place.rest_skip_of_append hrest, leads_brackets h htail hrest hcolumn⟩

/-- The first line of a block collection is reached. -/
theorem leads_gapBefore {p : Place} {tokens : List Token} {columns : List Nat} {allowed : Bool} {tail : List Char}
    (hrest : p.rest = gapBefore underKey column ++ tail) (htail : StartsToken tail)
    (hmark : underKey = false → allowed = true ∧ p.column + 1 = column) :
    ∃ q : Place, q.rest = tail ∧ q.column = column ∧
      Leads ⟨p, tokens, columns, allowed, none, []⟩ ⟨q, tokens, columns, true, none, []⟩ := by
  cases underKey with
  | false =>
      obtain ⟨rfl, hcolumn⟩ := hmark rfl
      have hnext : p.skip 1 = ⟨p.index + 1, p.line, p.column + 1, tail⟩ := Place.next_of_inline hrest rfl
      exact ⟨p.skip 1, Place.rest_skip_one hrest, by rw [hnext, hcolumn], leads_blank hrest htail⟩
  | true =>
      have hnext := Place.skip_of_newLine hrest rfl
      exact ⟨p.skip (column + 1), by rw [hnext], by rw [hnext], leads_newLine hrest htail⟩

/-- A block collection that is indented deeper is opened and closed. -/
theorem TakesBlock.takes (h : TakesBlock t column text given) (hcolumn : column = indent + 2) :
    Takes underKey indent (gapBefore underKey column ++ text) (t :: (given ++ [.blockEnd])) := by
  intro p tokens outer allowed tail hrest htail _ hmark
  rw [List.append_assoc] at hrest
  obtain ⟨q, hq, hqcolumn, hgap⟩ := @leads_gapBefore underKey column p tokens (indent :: outer) allowed _ hrest
    (h.starts tail).token fun hunder => by
      obtain ⟨hallowed, hplace⟩ := hmark hunder
      exact ⟨hallowed, by omega⟩
  have hopens : Opens t column tokens (indent :: outer) (t :: tokens) (indent :: outer) := .deeper fun c hc => by
    have := Option.some.inj hc
    omega
  obtain ⟨r, hr, hblock⟩ := h.leads hopens hq hqcolumn (htail.mono (by omega))
  -- the line behind the block is indented less, and closes it
  obtain @⟨n, next, hn, hcontent, hnext⟩ := htail
  have hclose := @leads_close r (given.reverse ++ t :: tokens) (indent :: outer) true next n hr hnext column (by omega)
  refine ⟨r, hr, (hgap.trans hblock).trans ?_⟩
  simpa using hclose

/-- The dashes of a sequence under a key stand in the key's column, and open nothing. -/
theorem TakesBlock.takes_underKey (h : TakesBlock t indent text given) :
    Takes true indent (newLine indent ++ text) given := by
  intro p tokens outer allowed tail hrest htail _ _
  rw [List.append_assoc] at hrest
  obtain ⟨q, hq, hqcolumn, hgap⟩ := @leads_gapBefore true indent p tokens (indent :: outer) allowed _ hrest
    (h.starts tail).token fun hunder => by cases hunder
  obtain ⟨r, hr, hblock⟩ := h.leads (.inside outer) hq hqcolumn htail
  exact ⟨r, hr, hgap.trans hblock⟩

/-- Lines after other ones. -/
theorem TakesBlock.append (h : TakesBlock t column text given) (h' : TakesBlock t column more given') :
    TakesBlock t column (text ++ newLine column ++ more) (given ++ given') where
  starts tail := by
    rw [List.append_assoc, List.append_assoc]
    exact h.starts _
  leads := by
    intro p tokens tokens' columns outer tail hopens hrest hcolumn htail
    rw [List.append_assoc, List.append_assoc] at hrest
    obtain ⟨q, hq, hfirst⟩ := h.leads hopens hrest hcolumn ((h'.starts tail).nextLine (Nat.le_refl _))
    obtain ⟨r, hr, hrcolumn, hgap⟩ := @leads_gapBefore true column q (given.reverse ++ tokens') (column :: outer) true _
      hq (h'.starts tail).token fun hunder => by cases hunder
    obtain ⟨u, hu, hlast⟩ := h'.leads (.inside outer) hr hrcolumn htail
    refine ⟨u, hu, (hfirst.trans hgap).trans ?_⟩
    simpa using hlast

/-- From each of the lines in the column of a block collection, a run takes tokens. -/
inductive TakesLines (opening : Token) (column : Nat) : List (List Char) → List Token → Prop where
  | nil : TakesLines opening column [] []
  | cons {line lines given given'} : TakesBlock opening column line given → TakesLines opening column lines given' →
      TakesLines opening column (line :: lines) (given ++ given')

/-- The lines are a block. -/
theorem TakesLines.takesBlock {lines : List (List Char)} (h : TakesLines t column lines given) (hne : lines ≠ []) :
    TakesBlock t column ((newLine column).intercalate lines) given := by
  induction h with
  | nil => exact absurd rfl hne
  | @cons line lines given given' hline hlines ih =>
      cases lines with
      | nil =>
          cases hlines
          rwa [List.intercalate_singleton, List.append_nil]
      | cons next lines =>
          rw [List.intercalate_cons_cons]
          exact hline.append (ih (List.cons_ne_nil _ _))

/-! ## Lines of collections -/

/-- A mark and a blank start a line. -/
theorem startsLine_mark {mark : Char} (h : isSkipped mark = false) (tail : List Char) :
    StartsLine (mark :: ' ' :: tail) := by
  refine ⟨startsToken_cons h _, fun s hs => ?_⟩
  have hno : ∀ c, [c, c, c].isPrefixOf (mark :: ' ' :: tail) = true → c = ' ' := fun c hc => by
    simp [List.isPrefixOf] at hc
    exact hc.2.1
  have hdash : s.startsMark ['-', '-', '-'] = false :=
    startsMark_eq_false hs (eq_false_of_ne_true fun hc => by cases hno _ hc)
  have hdot : s.startsMark ['.', '.', '.'] = false :=
    startsMark_eq_false hs (eq_false_of_ne_true fun hc => by cases hno _ hc)
  rw [Place.atSeparator, hdash, hdot]
  rfl

/-- An item. -/
theorem takesBlock_item (h : Takes false column (' ' :: text) given) :
    TakesBlock .blockSequence column ('-' :: ' ' :: text) (.dash :: given) where
  starts tail := startsLine_mark rfl _
  leads := by
    intro p tokens tokens' columns outer tail hopens hrest hcolumn htail
    subst hcolumn
    have hplace : p.skip 1 = ⟨p.index + 1, p.line, p.column + 1, _⟩ := Place.next_of_inline hrest rfl
    have hafter : (p.skip 1).column = p.column + 1 := by rw [hplace]
    obtain ⟨q, hq, hvalue⟩ := h (Place.rest_skip_one hrest) htail (by omega) fun _ => ⟨rfl, hafter⟩
    refine ⟨q, hq, (leads_dash hopens hrest).trans ?_⟩
    simpa using hvalue

/-- An entry whose key stands before its colon. -/
theorem takesBlock_short (hkey : IsScalar (column + 1) text t) (hinline : ∀ c ∈ text, isInline c = true)
    (hlength : text.length ≤ keyLimit) (hends : ∀ tail, endsWord (more ++ tail) = true)
    (hvalue : Takes true column more given) :
    TakesBlock .blockMapping column (text ++ ':' :: more) (.key :: t :: .value :: given) where
  starts tail := by
    rw [List.append_assoc]
    exact hkey.startsLine (.inr rfl)
  leads := by
    intro p tokens tokens' columns outer tail hopens hrest hcolumn htail
    subst hcolumn
    rw [List.append_assoc] at hrest
    have hcolon : p.rest = (text ++ [':']) ++ (more ++ tail) := by
      rw [hrest, List.append_assoc]
      rfl
    have hplace := Place.skip_of_inline hcolon
      (List.forall_mem_append.mpr ⟨hinline, List.forall_mem_singleton.mpr rfl⟩)
    rw [List.length_append, List.length_singleton] at hplace
    have hcolumn : p.column ≤ (p.skip (text.length + 1)).column := by
      rw [hplace]
      exact Nat.le_add_right _ _
    obtain ⟨q, hq, hmore⟩ := @hvalue (p.skip (text.length + 1)) (.value :: t :: .key :: tokens') outer false tail
      (by rw [hplace]) htail hcolumn fun h => by cases h
    refine ⟨q, hq, (leads_key hopens hkey hinline hlength hrest (hends tail)).trans ?_⟩
    simpa using hmore

/-- An entry whose key has a mark, and the colon a line of its own. -/
theorem takesBlock_long (hkey : IsScalar (column + 1) text t) (hends : ∀ tail, endsWord (more ++ tail) = true)
    (hvalue : Takes false column more given) :
    TakesBlock .blockMapping column ('?' :: ' ' :: (text ++ newLine column ++ ':' :: more))
      (.key :: t :: .value :: given) where
  starts tail := startsLine_mark rfl _
  leads := by
    intro p tokens tokens' columns outer tail hopens hrest hcolumn htail
    subst hcolumn
    simp only [List.cons_append, List.append_assoc] at hrest
    have hplace : p.skip 1 = ⟨p.index + 1, p.line, p.column + 1, _⟩ := Place.next_of_inline hrest rfl
    have hafter : (p.skip 1).column = p.column + 1 := by rw [hplace]
    have hcolonLine : StartsLine (':' :: (more ++ tail)) :=
      ⟨startsToken_cons rfl _, isContent_cons (by decide) (by decide) _⟩
    -- the key
    obtain ⟨q, hq, hscalar⟩ := @takes_scalar false p.column text t hkey (p.skip 1) (.key :: tokens') outer true _
      (Place.rest_skip_one hrest) (hcolonLine.nextLine (Nat.le_refl _)) (by omega) fun _ => ⟨rfl, hafter⟩
    obtain ⟨r, hr, hrcolumn, hgap⟩ := @leads_gapBefore true p.column q (t :: .key :: tokens') (p.column :: outer) true _
      hq hcolonLine.token fun hunder => by cases hunder
    -- its value
    have hopened : Opens .blockMapping r.column (t :: .key :: tokens') (p.column :: outer) (t :: .key :: tokens')
        outer := hrcolumn ▸ .inside outer
    have hcolonPlace : r.skip 1 = ⟨r.index + 1, r.line, r.column + 1, _⟩ := Place.next_of_inline hr rfl
    have hcolonColumn : (r.skip 1).column = p.column + 1 := by rw [hcolonPlace, hrcolumn]
    obtain ⟨u, hu, hmore⟩ := @hvalue (r.skip 1) (.value :: t :: .key :: tokens') outer true tail
      (Place.rest_skip_one hr) htail (by omega) fun _ => ⟨rfl, hcolonColumn⟩
    have hcolon := leads_colon hopened hr (hends tail)
    rw [hrcolumn] at hcolon
    refine ⟨u, hu, ((((leads_mark hopens hrest).trans hscalar).trans hgap).trans hcolon).trans ?_⟩
    simpa using hmore

/-! ## Values -/

theorem exists_behindMark (indent : Nat) (v : Value) : ∃ text, behindMark indent v = ' ' :: text := by
  cases v with
  | list items => cases items <;> exact ⟨_, rfl⟩
  | map entries => cases entries <;> exact ⟨_, rfl⟩
  | _ => exact ⟨_, rfl⟩

theorem endsWord_behind (underKey : Bool) (column : Nat) (tail : List Char) :
    endsWord (behind underKey indent column v ++ tail) = true := by
  have hgap : ∃ c text, behind underKey indent column v = c :: text ∧ isGap c = true := by
    cases underKey with
    | false =>
        obtain ⟨text, h⟩ := exists_behindMark indent v
        exact ⟨' ', text, h, rfl⟩
    | true =>
        cases v with
        | list items => cases items <;> exact ⟨_, _, rfl, rfl⟩
        | map entries => cases entries <;> exact ⟨_, _, rfl, rfl⟩
        | _ => exact ⟨_, _, rfl, rfl⟩
  obtain ⟨c, text, heq, hc⟩ := hgap
  rw [heq]
  exact endsWord_of_isGap hc _

theorem entryTexts_ne_nil (indent : Nat) (e : Value × Value) (rest : Entries) : entryTexts indent (e :: rest) ≠ [] := by
  obtain ⟨k, v⟩ := e
  rw [entryTexts]
  exact List.cons_ne_nil _ _

theorem valueTokens_leaf (h : isLeaf v = true) (underKey : Bool) : valueTokens underKey v = [leafToken v] := by
  cases v <;> first | rfl | cases h

theorem keepsValue_leaf (h : isLeaf v = true) : keepsValue underKey indent v = keepsLeaf (indent + 2) v := by
  cases v <;> first | rfl | cases h

theorem takes_leaf (hleaf : isLeaf v = true) (hjson : v.isJson = true) (hkeeps : keepsValue underKey indent v = true)
    (column : Nat) : Takes underKey indent (behind underKey indent column v) (valueTokens underKey v) := by
  obtain ⟨column', heq⟩ := @behind_leaf underKey indent column v hleaf
  rw [keepsValue_leaf hleaf] at hkeeps
  rw [heq, valueTokens_leaf hleaf]
  exact takes_scalar (isScalar_leaf hjson hleaf (Nat.succ_pos _) (Nat.le_succ _) hkeeps column')

theorem takesBlock_value (h : Takes false indent (behind false indent 0 v) given) :
    TakesBlock .blockSequence indent ('-' :: behindMark indent v) (.dash :: given) := by
  obtain ⟨text, heq⟩ := exists_behindMark indent v
  have htext : behind false indent 0 v = ' ' :: text := heq
  rw [htext] at h
  rw [heq]
  exact takesBlock_item h

/-- The line that an entry starts on, and what is behind its key. -/
theorem takesBlock_entry {k : String} (hkey : (if isShort (.str k) then keepsKey indent (.str k)
      else keepsLeaf (indent + 2) (.str k)) = true)
    (hvalue : ∀ column, Takes (isShort (.str k)) indent (behind (isShort (.str k)) indent column v) given) :
    ∃ line, (∀ rest, entryTexts indent ((.str k, v) :: rest) = line :: entryTexts indent rest) ∧
      TakesBlock .blockMapping indent line (.key :: leafToken (.str k) :: .value :: given) := by
  refine ⟨_, fun rest => by rw [entryTexts], ?_⟩
  by_cases hshort : isShort (.str k) = true
  · rw [if_pos hshort] at hkey ⊢
    rw [hshort] at hvalue
    exact takesBlock_short (isScalar_key hshort (Nat.succ_pos _) (Nat.le_succ _)) (isInline_key hshort)
      (by simpa [keepsKey] using hkey) (endsWord_behind true _) (hvalue _)
  · rw [if_neg hshort] at hkey ⊢
    rw [eq_false_of_ne_true hshort] at hvalue
    have hlong := takesBlock_long (isScalar_leaf rfl rfl (Nat.succ_pos _) (Nat.le_succ _) hkey (indent + 2))
      (endsWord_behind false 0) (hvalue 0)
    exact hlong

mutual

/-- **A value is taken as its tokens.** -/
theorem takes_value : ∀ (v : Value) (underKey : Bool) (indent : Nat), v.isJson = true →
    keepsValue underKey indent v = true → ∀ column,
    Takes underKey indent (behind underKey indent column v) (valueTokens underKey v)
  | .null, underKey, indent, hjson, hkeeps, column | .bool _, underKey, indent, hjson, hkeeps, column
  | .int _, underKey, indent, hjson, hkeeps, column | .float _, underKey, indent, hjson, hkeeps, column
  | .str _, underKey, indent, hjson, hkeeps, column => takes_leaf rfl hjson hkeeps column
  | .day _, _, _, hjson, _, _ | .moment _, _, _, hjson, _, _ => by cases hjson
  | .list [], underKey, indent, _, _, column => by
      rw [behind_nil, valueTokens]
      exact takes_brackets .sequence
  | .list (v :: rest), underKey, indent, hjson, hkeeps, column => by
      rw [Value.isJson] at hjson
      rw [keepsValue] at hkeeps
      have hlines := takes_items (v :: rest) (dashColumn underKey indent) hjson hkeeps
      have hitems := hlines.takesBlock (by simp [itemTexts])
      rw [behind_list, valueTokens]
      -- under a key the dashes open no block of their own
      cases underKey with
      | false => exact hitems.takes rfl
      | true => exact hitems.takes_underKey
  | .map [], underKey, indent, _, _, column => by
      rw [behind_empty, valueTokens]
      exact takes_brackets .mapping
  | .map (e :: rest), underKey, indent, hjson, hkeeps, column => by
      rw [Value.isJson] at hjson
      rw [keepsValue] at hkeeps
      have hentries := (takes_entries (e :: rest) (indent + 2) hjson hkeeps).takesBlock (entryTexts_ne_nil _ _ _)
      rw [behind_map, valueTokens]
      exact hentries.takes rfl

theorem takes_items : ∀ (items : List Value) (indent : Nat), Value.itemsAreJson items = true →
    keepsItems indent items = true → TakesLines .blockSequence indent (itemTexts indent items) (itemTokens items)
  | [], _, _, _ => .nil
  | v :: rest, indent, hjson, hkeeps => by
      rw [Value.itemsAreJson, Bool.and_eq_true] at hjson
      rw [keepsItems, Bool.and_eq_true] at hkeeps
      have hvalue := takesBlock_value (takes_value v false indent hjson.1 hkeeps.1 0)
      rw [itemTexts, itemTokens]
      exact .cons hvalue (takes_items rest indent hjson.2 hkeeps.2)

theorem takes_entries : ∀ (entries : Entries) (indent : Nat), Value.entriesAreJson entries = true →
    keepsEntries indent entries = true →
    TakesLines .blockMapping indent (entryTexts indent entries) (entryTokens entries)
  | [], _, _, _ => .nil
  | (k, v) :: rest, indent, hjson, hkeeps => by
      obtain ⟨k, _, heq, hv, -, hjsonRest⟩ := Value.entriesAreJson_cons hjson
      obtain ⟨rfl, rfl⟩ := Prod.mk.inj heq
      rw [keepsEntries, Bool.and_eq_true, Bool.and_eq_true] at hkeeps
      obtain ⟨line, hline, hentry⟩ := takesBlock_entry hkeeps.1.1 (takes_value v _ indent hv hkeeps.1.2)
      rw [hline, entryTokens]
      exact .cons hentry (takes_entries rest indent hjsonRest hkeeps.2)

end

/-! ## Characters -/

theorem isWritten_behind_leaf (hleaf : isLeaf v = true) (hjson : v.isJson = true) :
    ∀ c ∈ behind underKey indent column v, isWritten c = true := by
  obtain ⟨column', heq⟩ := @behind_leaf underKey indent column v hleaf
  rw [heq]
  exact List.forall_mem_cons.mpr ⟨rfl, isWritten_leaf hjson hleaf false _ _⟩

theorem isWritten_newLine (column : Nat) : ∀ c ∈ newLine column, isWritten c = true :=
  forall_mem_newLine (fun _ => isWritten_of_isAscii) rfl column

theorem isWritten_gapBefore (underKey : Bool) (column : Nat) : ∀ c ∈ gapBefore underKey column, isWritten c = true := by
  cases underKey with
  | false => exact List.forall_mem_singleton.mpr rfl
  | true => exact isWritten_newLine column

mutual

/-- Whatever a value is, its text has these characters alone. -/
theorem isWritten_value : ∀ (v : Value) (underKey : Bool) (indent column : Nat), v.isJson = true →
    ∀ c ∈ behind underKey indent column v, isWritten c = true
  | .null, underKey, indent, column, hjson | .bool _, underKey, indent, column, hjson
  | .int _, underKey, indent, column, hjson | .float _, underKey, indent, column, hjson
  | .str _, underKey, indent, column, hjson => isWritten_behind_leaf rfl hjson
  | .day _, _, _, _, hjson | .moment _, _, _, _, hjson => by cases hjson
  | .list [], underKey, indent, column, _ => by
      rw [behind_nil]
      decide
  | .list (v :: rest), underKey, indent, column, hjson => by
      rw [Value.isJson] at hjson
      rw [behind_list]
      exact List.forall_mem_append.mpr ⟨isWritten_gapBefore _ _,
        Text.forall_mem_intercalate (isWritten_newLine _) (isWritten_items (v :: rest) _ hjson)⟩
  | .map [], underKey, indent, column, _ => by
      rw [behind_empty]
      decide
  | .map (e :: rest), underKey, indent, column, hjson => by
      rw [Value.isJson] at hjson
      rw [behind_map]
      exact List.forall_mem_append.mpr ⟨isWritten_gapBefore _ _,
        Text.forall_mem_intercalate (isWritten_newLine _) (isWritten_entries (e :: rest) _ hjson)⟩

theorem isWritten_items : ∀ (items : List Value) (indent : Nat), Value.itemsAreJson items = true →
    ∀ line ∈ itemTexts indent items, ∀ c ∈ line, isWritten c = true
  | [], _, _ => fun _ h => absurd h List.not_mem_nil
  | v :: rest, indent, hjson => by
      rw [Value.itemsAreJson, Bool.and_eq_true] at hjson
      rw [itemTexts]
      exact List.forall_mem_cons.mpr ⟨List.forall_mem_cons.mpr ⟨rfl, isWritten_value v false indent 0 hjson.1⟩,
        isWritten_items rest indent hjson.2⟩

theorem isWritten_entries : ∀ (entries : Entries) (indent : Nat), Value.entriesAreJson entries = true →
    ∀ line ∈ entryTexts indent entries, ∀ c ∈ line, isWritten c = true
  | [], _, _ => fun _ h => absurd h List.not_mem_nil
  | (k, v) :: rest, indent, hjson => by
      obtain ⟨k, _, heq, hv, -, hrest⟩ := Value.entriesAreJson_cons hjson
      obtain ⟨rfl, rfl⟩ := Prod.mk.inj heq
      have hkey := fun isKey column => @isWritten_leaf (.str k) rfl rfl isKey (indent + 2) column
      rw [entryTexts]
      refine List.forall_mem_cons.mpr ⟨?_, isWritten_entries rest indent hrest⟩
      split
      · exact List.forall_mem_append.mpr ⟨hkey true _,
          List.forall_mem_cons.mpr ⟨rfl, isWritten_value v true indent _ hv⟩⟩
      · refine List.forall_mem_append.mpr ⟨List.forall_mem_append.mpr ⟨List.forall_mem_append.mpr ⟨by decide, ?_⟩, ?_⟩,
          List.forall_mem_cons.mpr ⟨rfl, isWritten_value v false indent 0 hv⟩⟩
        · exact hkey false _
        · exact isWritten_newLine indent

end

/-! ## Documents -/

section Documents

variable {e : Value × Value} {rest : Entries}

theorem toList_write (e : Value × Value) (rest : Entries) :
    (write (.map (e :: rest))).toList = (newLine 0).intercalate (entryTexts 0 (e :: rest)) ++ ['\n'] := by
  rw [write, String.toList_ofList]

theorem isWritten_write (hjson : Value.entriesAreJson (e :: rest) = true) :
    ∀ c ∈ (write (.map (e :: rest))).toList, isWritten c = true := by
  rw [toList_write]
  exact List.forall_mem_append.mpr
    ⟨Text.forall_mem_intercalate (isWritten_newLine 0) (isWritten_entries _ 0 hjson), List.forall_mem_singleton.mpr rfl⟩

/-- At the end of a document what is open is closed. -/
theorem run_end {q : Place} (hq : q.rest = ['\n']) (tokens : List Token) (fuel : Nat) :
    run (fuel + 1) ⟨q, tokens, [0], true, none, []⟩ = (.blockEnd :: tokens).reverse := by
  have hwithin : Within [0] 0 := fun c hc => Nat.le_of_eq (Option.some.inj hc).symm
  have hsettle := @settle_newLine q tokens [0] true [] 0 hq (Text.stops_nil _) none fun _ h => by cases h
  rw [unwindTo_of_within hwithin] at hsettle
  have hend : (q.skip 1).rest = [] := Place.rest_skip_one hq
  rw [run, hsettle]
  simp only [Nat.zero_add, hend]
  rfl

/-- **A document of JSON data, all of whose texts are kept, is taken as its tokens.** -/
theorem scan_write (hjson : Value.entriesAreJson (e :: rest) = true) (hkeeps : keepsEntries 0 (e :: rest) = true) :
    Token.scan (write (.map (e :: rest))).toList = .blockMapping :: (entryTokens (e :: rest) ++ [.blockEnd]) := by
  have hblock := (takes_entries (e :: rest) 0 hjson hkeeps).takesBlock (entryTexts_ne_nil 0 e rest)
  have hallowed : (write (.map (e :: rest))).toList.all isAllowed = true := List.all_eq_true.mpr fun c hc => by
    have := isWritten_write hjson c hc
    simp only [isWritten, Bool.and_eq_true] at this
    exact this.1
  have hopens : Opens .blockMapping 0 [] [] [.blockMapping] [] := .deeper fun _ h => by cases h
  have hnext : NextLine 0 ['\n'] := .mk (Nat.le_refl 0) (fun s hs => by
    rw [Place.atSeparator, Place.startsMark, Place.startsMark, hs]
    rfl) (Text.stops_nil _)
  obtain ⟨q, hq, n, hn, hrun⟩ := @TakesBlock.leads _ _ _ _ hblock (Place.ofText (write (.map (e :: rest))).toList)
    _ _ _ _ _ hopens (toList_write e rest) rfl hnext
  -- the fuel is the length of the text, and the last step is at its last character
  have hlength : n + 1 ≤ (write (.map (e :: rest))).toList.length := by
    rw [hq] at hn
    exact hn
  rw [Token.scan, if_pos hallowed]
  obtain ⟨fuel, hfuel⟩ := Nat.exists_eq_add_of_le' (Nat.le_of_succ_le hlength)
  rw [hfuel]
  refine (hrun fuel).trans ((run_end hq _ fuel).trans ?_)
  simp

end Documents

end Runbook.Yaml
