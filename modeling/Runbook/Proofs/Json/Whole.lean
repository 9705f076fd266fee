import Runbook.Proofs.Json.Reread

/-!
# JSON with bytes

The JSON of a value has no half of a surrogate pair, and so has bytes, if no text in the
value has one (`isWhole_text`). All else that is written is ASCII (`isStored`).
-/

namespace Runbook.Json

variable {form : Form} {level : Nat}

theorem isWhole_iff {s : String} : Text.isWhole s = true ↔ ∀ c ∈ s.toList, Text.half? c = none := by
  simp [Text.isWhole]

theorem isWhole_of_isStored {s : String} (h : ∀ c ∈ s.toList, isStored c = true) : Text.isWhole s = true := by
  refine isWhole_iff.mpr fun c hc => Text.half?_eq_none (.inl ?_)
  have hstored := h c hc
  simp only [isStored, Bool.or_eq_true, beq_iff_eq, Bool.and_eq_true, decide_eq_true_eq] at hstored
  obtain rfl | hstored := hstored
  · decide
  · omega

/-- Where not only ASCII is written, a character that need not be escaped is written as it is. -/
theorem charText_false (c : Char) : charText false c = charText true c ∨ charText false c = c.toString := by
  by_cases hletter : ∃ letter, (letter, c) ∈ letterEscapes
  · obtain ⟨letter, hmem⟩ := hletter
    have hsame : ∀ p ∈ letterEscapes, charText false p.2 = charText true p.2 := by decide
    exact .inl (hsame _ hmem)
  · simp only [letterEscapes, List.mem_cons, Prod.mk.injEq, List.not_mem_nil, or_false, exists_or,
      exists_eq_left, not_or] at hletter
    obtain ⟨hquote, hslash, hfeed, hreturn, htab, hback, hform⟩ := hletter
    by_cases hcontrol : c.toNat < 0x20
    · exact .inl (by simp only [charText, hquote, hslash, hfeed, hreturn, htab, hback, hform, hcontrol,
        if_true, if_false])
    · exact .inr (by simp [charText, hquote, hslash, hfeed, hreturn, htab, hback, hform, hcontrol])

theorem isWhole_charText {c : Char} (h : Text.half? c = none) (ascii : Bool) :
    Text.isWhole (charText ascii c) = true := by
  have hascii : Text.isWhole (charText true c) = true := isWhole_of_isStored (isStored_written (written_charText c))
  cases ascii with
  | true => exact hascii
  | false =>
      obtain hsame | hself := charText_false c
      · rwa [hsame]
      · rw [hself]
        simp [isWhole_iff, h]

theorem isWhole_stringText {s : String} (h : Text.isWhole s = true) (ascii : Bool) :
    Text.isWhole (stringText ascii s) = true := by
  have hinner : (s.toList.map (charText ascii)).all Text.isWhole = true := by
    rw [List.all_map, List.all_eq_true]
    exact fun c hc => isWhole_charText (isWhole_iff.mp h c hc) ascii
  rw [stringText, Text.isWhole_append, Text.isWhole_append, Text.isWhole_join, hinner]
  rfl

theorem isWhole_lineStart (form : Form) (level : Nat) : Text.isWhole (form.lineStart level) = true := by
  rw [Form.lineStart]
  cases form.indent with
  | none => rfl
  | some width =>
      refine isWhole_iff.mpr fun c hc => ?_
      simp only [String.toList_append, List.mem_append, String.toList_ofList] at hc
      obtain hc | hc := hc
      · obtain rfl := List.mem_singleton.mp hc
        rfl
      · obtain rfl := List.eq_of_mem_replicate hc
        rfl

theorem isWhole_enclose {opening closing : String} {items : List String} (hopening : Text.isWhole opening = true)
    (hclosing : Text.isWhole closing = true) (hitems : ∀ item ∈ items, Text.isWhole item = true) :
    Text.isWhole (enclose form level opening closing items) = true := by
  have hcomma : Text.isWhole ("," ++ form.lineStart (level + 1)) = true := by
    rw [Text.isWhole_append, isWhole_lineStart]
    rfl
  have hinner : Text.isWhole (("," ++ form.lineStart (level + 1)).intercalate items) = true := by
    rw [isWhole_iff, String.toList_intercalate]
    exact Text.forall_mem_intercalate (isWhole_iff.mp hcomma)
      (List.forall_mem_map.mpr fun item hitem => isWhole_iff.mp (hitems item hitem))
  rw [enclose]
  split
  · rw [Text.isWhole_append, hopening, hclosing]
    rfl
  · simp only [Text.isWhole_append, hopening, hclosing, hinner, isWhole_lineStart, Bool.and_self]

theorem isWhole_colon (form : Form) : Text.isWhole form.colon = true := by
  rw [Form.colon]
  split <;> decide

mutual

theorem isWhole_write : ∀ v : Value, v.isJson = true → (∀ s ∈ v.allTexts, Text.isWhole s = true) → ∀ level : Nat,
    Text.isWhole (write form level v) = true
  | .null, _, _, _ => by
      rw [write]
      decide
  | .bool b, _, _, _ => by
      rw [write]
      cases b <;> decide
  | .int n, _, _, _ => by
      refine isWhole_of_isStored ?_
      rw [write, Numeral.toList_ofInt]
      exact isStored_numeral (Numeral.proper_ofInt n)
  | .float x, hjson, _, _ => by
      obtain ⟨n, hn, -, htext, -⟩ := exists_numeral_of_double numberStyle hjson
      refine isWhole_of_isStored ?_
      rw [write, htext]
      exact isStored_numeral hn
  | .str s, _, htexts, _ => by
      rw [Value.allTexts] at htexts
      rw [write]
      exact isWhole_stringText (htexts _ List.mem_cons_self) _
  | .day _, hjson, _, _ | .moment _, hjson, _, _ => by cases hjson
  | .list items, hjson, htexts, level => by
      rw [Value.isJson] at hjson
      rw [Value.allTexts] at htexts
      rw [write]
      exact isWhole_enclose rfl rfl (isWhole_items items hjson htexts (level + 1))
  | .map entries, hjson, htexts, level => by
      rw [Value.isJson] at hjson
      rw [Value.allTexts] at htexts
      rw [write]
      exact isWhole_enclose (by decide) (by decide) (isWhole_entries entries hjson htexts (level + 1))

theorem isWhole_items : ∀ items : List Value, Value.itemsAreJson items = true →
    (∀ s ∈ Value.itemsAllTexts items, Text.isWhole s = true) → ∀ level : Nat,
    ∀ text ∈ writeItems form level items, Text.isWhole text = true
  | [], _, _, _ => by
      rw [writeItems]
      exact List.forall_mem_nil _
  | v :: rest, hjson, htexts, level => by
      rw [Value.itemsAreJson, Bool.and_eq_true] at hjson
      rw [Value.itemsAllTexts, List.forall_mem_append] at htexts
      rw [writeItems]
      exact List.forall_mem_cons.mpr ⟨isWhole_write v hjson.1 htexts.1 level,
        isWhole_items rest hjson.2 htexts.2 level⟩

theorem isWhole_entries : ∀ entries : Entries, Value.entriesAreJson entries = true →
    (∀ s ∈ Value.entriesAllTexts entries, Text.isWhole s = true) → ∀ level : Nat,
    ∀ text ∈ writeEntries form level entries, Text.isWhole text = true
  | [], _, _, _ => by
      rw [writeEntries]
      exact List.forall_mem_nil _
  | (k, v) :: rest, hjson, htexts, level => by
      obtain ⟨key, _, heq, hv, -, hrest⟩ := Value.entriesAreJson_cons hjson
      obtain ⟨rfl, rfl⟩ := Prod.mk.inj heq
      rw [Value.entriesAllTexts, List.forall_mem_append, List.forall_mem_append, Value.allTexts] at htexts
      have hkey : Text.isWhole (stringText form.ascii (Value.str key).plainKey) = true :=
        isWhole_stringText (htexts.1 _ List.mem_cons_self) _
      rw [writeEntries]
      refine List.forall_mem_cons.mpr ⟨?_, isWhole_entries rest hrest htexts.2.2 level⟩
      rw [Text.isWhole_append, Text.isWhole_append, hkey, isWhole_colon, isWhole_write v hv htexts.2.1 level]
      rfl

end

/-- The JSON of a value has bytes if the texts in the value have. -/
theorem isWhole_text {v : Value} (hjson : v.isJson = true) (htexts : ∀ s ∈ v.allTexts, Text.isWhole s = true) :
    Text.isWhole (form.text v) = true := isWhole_write v hjson htexts 0

end Runbook.Json
