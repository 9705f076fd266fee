import Runbook.Proofs.Json.Faults
import Runbook.Yaml.Token

/-!
# What is wrong with the tokens of a text

A text is cut into tokens or is malformed. Two faults are not of form: an escape between double
quotes may write a number that is no code point, and the version in a directive may have too many
digits (`Scanned`). A fault stands behind the tokens before it, and no token is one by itself.
Main statement: `scanned_of_mem_scan`.
-/

namespace Runbook.Yaml

/-- The faults of tokens. -/
def Scanned : Fault → Prop
  | .malformed => True
  | .codePoint n => 0x110000 ≤ n
  | .tooManyDigits count => Json.digitLimit < count
  | _ => False

/-- Nothing else is wrong with a result. -/
abbrev Scans {α : Type} (x : Except Fault α) : Prop := Ends Scanned (fun _ => True) x

theorem Scans.bind {α β : Type} {x : Except Fault α} {f : α → Except Fault β} (hx : Scans x) (hf : ∀ a, Scans (f a)) :
    Scans (x >>= f) :=
  Ends.bind hx fun a _ => hf a

theorem Scans.map {α β : Type} {x : Except Fault α} (hx : Scans x) (f : α → β) : Scans (x.map f) :=
  Ends.map hx fun _ _ => trivial

theorem scans_pure {α : Type} (a : α) : Scans (pure a) := trivial

/-! ## Names and scalars -/

namespace Lexeme

theorem scans_word (s : Place) : Scans (word s) := by
  unfold word
  split <;> trivial

theorem scans_anchor (s : Place) : Scans (anchor s) := by
  refine (scans_word s.next).bind fun r => ?_
  dsimp only
  split <;> trivial

theorem scans_percentBytes (cs : List Char) : Scans (percentBytes cs) := by
  fun_induction percentBytes cs with
  | case1 a b rest high low hhigh hlow ih => exact ih.map _
  | case2 | case3 | case4 => trivial

theorem scans_tagTextFrom (fuel : Nat) (s : Place) (read : List Char) : Scans (tagTextFrom fuel s read) := by
  induction fuel generalizing s read with
  | zero => trivial
  | succ fuel ih =>
      rw [tagTextFrom]
      split
      · cases hbytes : percentBytes s.rest with
        | error f => exact (scans_percentBytes s.rest).of_error hbytes
        | ok r =>
            dsimp only
            split
            · trivial
            · exact ih _ _
      · split
        · exact ih _ _
        · trivial
      · trivial

theorem scans_tagText (s : Place) : Scans (tagText s) := by
  unfold tagText
  cases htext : tagTextFrom (s.rest.length + 1) s [] with
  | error f => exact (scans_tagTextFrom _ _ _).of_error htext
  | ok r =>
      dsimp only
      split <;> trivial

theorem scans_handle (s : Place) : Scans (handle s) := by
  unfold handle
  split
  · trivial
  · dsimp only
    split <;> trivial
  · trivial

theorem scans_tag (s : Place) : Scans (tag s) := by
  have hending : ∀ r : TagName × Place,
      Scans (if endsField r.2.rest = true then pure (r.1, r.2) else throw .malformed) := by
    intro r
    split <;> trivial
  unfold tag
  split
  · refine (scans_tagText _).bind fun ⟨text, after⟩ => ?_
    dsimp only
    split
    · exact (scans_pure _).bind hending
    · trivial
  · split
    · exact (scans_pure _).bind hending
    · have htext : ∀ r : String × Place, Scans (tagText r.2 >>= fun t =>
          pure ((⟨some r.1, t.1⟩, t.2) : TagName × Place) >>= fun r =>
            if endsField r.2.rest = true then pure (r.1, r.2) else throw .malformed) :=
        fun r => (scans_tagText r.2).bind fun t => (scans_pure _).bind hending
      split
      · exact (scans_handle s).bind htext
      · exact (scans_pure _).bind htext

theorem scans_versionNumber (s : Place) : Scans (versionNumber s) := by
  unfold versionNumber
  split
  · trivial
  · split
    case isTrue hlong => exact hlong
    case isFalse => trivial

theorem scans_versionDirective (s : Place) : Scans (versionDirective s) := by
  refine (scans_versionNumber _).bind fun r => ?_
  dsimp only
  split
  · refine (scans_versionNumber _).bind fun r => ?_
    split <;> trivial
  · trivial

theorem scans_handleDirective (s : Place) : Scans (handleDirective s) := by
  refine (scans_handle _).bind fun r => ?_
  dsimp only
  split
  · refine (scans_tagText _).bind fun r => ?_
    split <;> trivial
  · trivial

theorem scans_finishLine (s : Place) : Scans s.finishLine := by
  unfold Place.finishLine
  dsimp only
  split <;> trivial

theorem scans_directive (s : Place) : Scans (directive s) := by
  have hending : ∀ r : Directive × Place, Scans (r.2.finishLine >>= fun s => pure (r.1, s)) :=
    fun r => (scans_finishLine r.2).bind fun _ => trivial
  refine (scans_word _).bind fun r => ?_
  dsimp only
  split
  · trivial
  · split
    · exact (scans_versionDirective _).bind hending
    · split
      · exact (scans_handleDirective _).bind hending
      · exact (scans_pure _).bind hending

theorem scans_foldedBreaks (fuel : Nat) (s : Place) : Scans (foldedBreaks fuel s) := by
  induction fuel generalizing s with
  | zero => trivial
  | succ fuel ih =>
      rw [foldedBreaks]
      split
      · trivial
      · dsimp only
        split
        · split
          · exact (ih _).map _
          · trivial
        · trivial

theorem scans_inlineSpace (s : Place) : Scans (inlineSpace s) := by
  unfold inlineSpace
  dsimp only
  split
  · trivial
  · split
    · exact (scans_foldedBreaks _ _).map _
    · trivial

theorem scans_charOfCode (n : Nat) : Scans (charOfCode n) := by
  unfold charOfCode
  split
  case isTrue => trivial
  case isFalse hlarge => exact Nat.le_of_not_lt hlarge

theorem scans_escape (s : Place) : Scans (escape s) := by
  unfold escape
  split
  · trivial
  · split
    · trivial
    · unfold codeEscape
      dsimp only
      split
      · trivial
      · split
        · trivial
        · exact (scans_charOfCode _).map _
    · split
      · exact scans_foldedBreaks _ _
      · trivial

theorem scans_quotedPiece (double : Bool) (s : Place) : Scans (quotedPiece double s) := by
  unfold quotedPiece
  split
  case h_5 =>
    split
    · exact (scans_escape _).map _
    · trivial
  case h_6 =>
    split
    · exact (scans_inlineSpace _).map _
    · trivial
  all_goals trivial

theorem scans_quotedFrom (double : Bool) (fuel : Nat) (s : Place) (read : List Char) :
    Scans (quotedFrom double fuel s read) := by
  induction fuel generalizing s read with
  | zero => trivial
  | succ fuel ih =>
      rw [quotedFrom]
      cases hpiece : quotedPiece double s with
      | error f => exact (scans_quotedPiece double s).of_error hpiece
      | ok piece =>
          cases piece with
          | none => trivial
          | some piece => exact ih _ _

theorem scans_quoted (double : Bool) (s : Place) : Scans (quoted double s) := scans_quotedFrom _ _ _ _

theorem scans_blockHeader (s : Place) : Scans (blockHeader s) := by
  unfold blockHeader
  dsimp only
  repeat' split
  all_goals trivial

theorem scans_block (folds : Bool) (least : Nat) (s : Place) : Scans (block folds least s) :=
  (scans_blockHeader _).bind fun _ => (scans_finishLine _).bind fun _ => trivial

end Lexeme

/-! ## Scanners -/

/-- No token stands for a fault. -/
def Clean (tokens : List Token) : Prop := ∀ f, Token.fault f ∉ tokens

section Clean

variable {tokens more : List Token} {t : Token}

theorem clean_nil : Clean [] := fun _ => List.not_mem_nil

theorem Clean.cons (ht : ∀ f, t ≠ .fault f) (h : Clean tokens) : Clean (t :: tokens) := by
  intro f hf
  obtain heq | hf := List.mem_cons.mp hf
  · exact ht f heq.symm
  · exact h f hf

theorem Clean.append (h : Clean tokens) (hmore : Clean more) : Clean (tokens ++ more) := fun f hf =>
  (List.mem_append.mp hf).elim (h f) (hmore f)

theorem Clean.of_subset (h : Clean tokens) (hmore : more ⊆ tokens) : Clean more := fun f hf => h f (hmore hf)

theorem clean_replicate (n : Nat) (ht : ∀ f, t ≠ .fault f) : Clean (List.replicate n t) := fun f hf =>
  ht f (List.eq_of_mem_replicate hf).symm

end Clean

namespace Scanner

/-- Whatever is wrong with a step is a fault of tokens, and no token that it takes is a fault. -/
abbrev Keeps (x : Except Fault Scanner) : Prop := Ends Scanned (fun s => Clean s.tokens) x

variable {s : Scanner} {t : Token}

theorem tokens_toNextToken (fuel : Nat) (s : Scanner) : (toNextToken fuel s).tokens = s.tokens := by
  induction fuel generalizing s with
  | zero => rfl
  | succ fuel ih =>
      rw [toNextToken]
      split
      · split
        · exact ih _
        · rfl
      · rfl

theorem tokens_skipSeparation (s : Scanner) : s.skipSeparation.tokens = s.tokens := by
  rw [skipSeparation, tokens_toNextToken]
  split <;> rfl

theorem scans_fresh (place : Place) (k : Option KeySpot) : Scans (fresh place k) := by
  unfold fresh
  split
  · trivial
  · split
    · split <;> trivial
    · trivial

theorem scans_mapM {α β : Type} {f : α → Except Fault β} (hf : ∀ a, Scans (f a)) (items : List α) :
    Scans (items.mapM f) := by
  induction items with
  | nil => trivial
  | cons a rest ih =>
      rw [List.mapM_cons]
      exact (hf a).bind fun _ => ih.bind fun _ => trivial

theorem keeps_dropStale (hs : Clean s.tokens) : Keeps s.dropStale :=
  Ends.bind (scans_fresh _ _) fun _ _ => Ends.bind (scans_mapM (scans_fresh _) _) fun _ _ => hs

theorem clean_unwindTo (hs : Clean s.tokens) (column : Nat) : Clean (s.unwindTo column).tokens :=
  (clean_replicate _ (by simp)).append hs

theorem clean_unwindAll (hs : Clean s.tokens) : Clean s.unwindAll.tokens := (clean_replicate _ (by simp)).append hs

theorem keeps_settle (hs : Clean s.tokens) : Keeps s.settle := by
  refine Ends.map (keeps_dropStale (s := s.skipSeparation) (tokens_skipSeparation s ▸ hs)) fun s hs => ?_
  unfold unwind
  split
  · exact hs
  · exact clean_unwindTo hs _

theorem keeps_dropSpot (hs : Clean s.tokens) : Keeps s.dropSpot := by
  unfold dropSpot
  split
  · split
    · trivial
    · exact hs
  · exact hs

theorem keeps_noteSpot (hs : Clean s.tokens) : Keeps s.noteSpot := by
  unfold noteSpot
  split
  · exact (keeps_dropSpot hs).bind fun _ h => h
  · exact hs

theorem clean_openBlock (ht : ∀ f, t ≠ .fault f) (hs : Clean s.tokens) : Clean (s.openBlock t).tokens := by
  unfold openBlock
  split
  · exact hs.cons ht
  · exact hs

theorem keeps_ofDocument (ht : ∀ f, t ≠ .fault f) (hs : Clean s.tokens) (place : Place) :
    Keeps (s.ofDocument t place) :=
  (keeps_dropSpot (clean_unwindAll hs)).bind fun _ h => h.cons ht

theorem keeps_openFlow (ht : ∀ f, t ≠ .fault f) (hs : Clean s.tokens) : Keeps (s.openFlow t) :=
  (keeps_noteSpot hs).bind fun _ h => h.cons ht

theorem keeps_closeFlow (ht : ∀ f, t ≠ .fault f) (hs : Clean s.tokens) : Keeps (s.closeFlow t) := by
  refine (keeps_dropSpot hs).bind fun s h => ?_
  split
  · trivial
  · exact h.cons ht

theorem keeps_takeComma (hs : Clean s.tokens) : Keeps s.takeComma :=
  (keeps_dropSpot hs).bind fun _ h => h.cons (by simp)

theorem keeps_enterBlock (ht : ∀ f, t ≠ .fault f) (hs : Clean s.tokens) : Keeps (s.enterBlock t) := by
  unfold enterBlock
  split
  · exact hs
  · split
    · exact clean_openBlock ht hs
    · trivial

theorem keeps_takeDash (hs : Clean s.tokens) : Keeps s.takeDash :=
  (keeps_enterBlock (by simp) hs).bind fun _ h => (keeps_dropSpot h).bind fun _ h => h.cons (by simp)

theorem keeps_takeKey (hs : Clean s.tokens) : Keeps s.takeKey :=
  (keeps_enterBlock (by simp) hs).bind fun _ h => (keeps_dropSpot h).bind fun _ h => h.cons (by simp)

theorem clean_insertAt {given : List Token} (hgiven : Clean given) (hs : Clean s.tokens) (number : Nat) :
    Clean (s.insertAt number given).tokens :=
  ((hs.of_subset (List.take_subset _ _)).append hgiven).append (hs.of_subset (List.drop_subset _ _))

theorem clean_keyAt (hs : Clean s.tokens) (k : KeySpot) : Clean (s.keyAt k).tokens := by
  unfold keyAt
  dsimp only
  split
  · exact clean_insertAt ((clean_nil.cons (by simp)).cons (by simp)) hs _
  · exact clean_insertAt (clean_nil.cons (by simp)) hs _

theorem keeps_takeColon (hs : Clean s.tokens) : Keeps s.takeColon := by
  unfold takeColon
  dsimp only
  split
  · exact (clean_keyAt hs _).cons (by simp)
  · exact (keeps_enterBlock (by simp) hs).bind fun _ h => h.cons (by simp)

theorem keeps_takeNode {read : Place → Except Fault (Token × Place)}
    (hread : ∀ place, Ends Scanned (fun r => ∀ f, r.1 ≠ .fault f) (read place)) (hs : Clean s.tokens) :
    Keeps (s.takeNode read) :=
  (keeps_noteSpot hs).bind fun s h => (hread s.place).bind fun _ ht => h.cons ht

theorem keeps_takePlain (hs : Clean s.tokens) : Keeps s.takePlain :=
  (keeps_noteSpot hs).bind fun _ h => h.cons (by simp)

theorem keeps_takeQuoted (double : Bool) (hs : Clean s.tokens) : Keeps (s.takeQuoted double) :=
  keeps_takeNode (fun place => Ends.map (Lexeme.scans_quoted double place) fun _ _ => by simp) hs

theorem keeps_takeBlock (folds : Bool) (hs : Clean s.tokens) : Keeps (s.takeBlock folds) := by
  refine (keeps_dropSpot hs).bind fun s h => ?_
  exact Ends.bind (Lexeme.scans_block _ _ _) fun _ _ => h.cons (by simp)

theorem keeps_take (hs : Clean s.tokens) (c : Char) (after : List Char) : Keeps (s.take c after) := by
  unfold take
  refine Ends.ite (Ends.bind (Lexeme.scans_directive _) fun r _ => keeps_ofDocument (by simp) hs _) ?_
  refine Ends.ite (keeps_ofDocument (by simp) hs _) ?_
  refine Ends.ite (keeps_ofDocument (by simp) hs _) ?_
  refine Ends.ite (keeps_openFlow (by simp) hs) ?_
  refine Ends.ite (keeps_openFlow (by simp) hs) ?_
  refine Ends.ite (keeps_closeFlow (by simp) hs) ?_
  refine Ends.ite (keeps_closeFlow (by simp) hs) ?_
  refine Ends.ite (keeps_takeComma hs) ?_
  refine Ends.ite (keeps_takeDash hs) ?_
  refine Ends.ite (keeps_takeKey hs) ?_
  refine Ends.ite (keeps_takeColon hs) ?_
  refine Ends.ite (keeps_takeNode (fun place => Ends.map (Lexeme.scans_anchor place) fun _ _ => by simp) hs) ?_
  refine Ends.ite (keeps_takeNode (fun place => Ends.map (Lexeme.scans_anchor place) fun _ _ => by simp) hs) ?_
  refine Ends.ite (keeps_takeNode (fun place => Ends.map (Lexeme.scans_tag place) fun _ _ => by simp) hs) ?_
  refine Ends.ite (keeps_takeBlock _ hs) ?_
  refine Ends.ite (keeps_takeQuoted _ hs) ?_
  refine Ends.ite (keeps_takePlain hs) ?_
  trivial

/-- Only the last token of a run can be a fault. -/
theorem scanned_of_mem_run (fuel : Nat) (hs : Clean s.tokens) {f : Fault} (hf : .fault f ∈ run fuel s) : Scanned f := by
  have hbroken : ∀ {s : Scanner} {g : Fault}, Clean s.tokens → Scanned g → .fault f ∈ s.broken g → Scanned f := by
    intro s g hs hg hf
    obtain heq | hf := List.mem_cons.mp (List.mem_reverse.mp hf)
    · exact Token.fault.inj heq ▸ hg
    · exact absurd hf (hs f)
  induction fuel generalizing s with
  | zero => exact hbroken hs (show Scanned .malformed from trivial) hf
  | succ fuel ih =>
      rw [run] at hf
      have hsettle := keeps_settle hs
      cases hnext : s.settle with
      | error g =>
          rw [hnext] at hf
          exact hbroken hs (hsettle.of_error hnext) hf
      | ok next =>
          rw [hnext] at hf
          have hclean : Clean next.tokens := hsettle.of_ok hnext
          dsimp only at hf
          split at hf
          · have hfinish : Keeps next.finish := keeps_dropSpot (clean_unwindAll hclean)
            split at hf
            case h_1 hok => exact absurd (List.mem_reverse.mp hf) (hfinish.of_ok hok f)
            case h_2 herror => exact hbroken hclean (hfinish.of_error herror) hf
          · split at hf
            case h_1 hok => exact ih ((keeps_take hclean _ _).of_ok hok) hf
            case h_2 herror => exact hbroken hclean ((keeps_take hclean _ _).of_error herror) hf

end Scanner

/-- **What is wrong with the tokens of a text** is its form, a number that is no code point, or a version with
too many digits. -/
theorem scanned_of_mem_scan {text : List Char} {f : Fault} (hf : .fault f ∈ Token.scan text) : Scanned f := by
  rw [Token.scan] at hf
  split at hf
  · exact Scanner.scanned_of_mem_run _ clean_nil hf
  · obtain rfl := Token.fault.inj (List.mem_singleton.mp hf)
    trivial

end Runbook.Yaml
