import Runbook.Proofs.Json.Numeral
import Runbook.Proofs.Json.Quoted
import Runbook.Proofs.Value.Json
import Runbook.Workflow.Encode
import Runbook.Workflow.File

/-!
# JSON read back

A value that is JSON data is read back from its text (`read_text`), if it nests no deeper than
the reader allows and its texts are read back. The items between brackets are read one by one
(`readItems_intercalate`, `readMembers_intercalate`), each with what follows it, which is
a comma or a line end and so ends a number.
-/

namespace Runbook.Json

/-! ## White space -/

theorem skipSpace_of_stops {rest : List Char} (h : Text.Stops isSpace rest) (position : Nat) :
    skipSpace ⟨position, rest⟩ = ⟨position, rest⟩ := by
  rw [skipSpace, Text.takeWhile_of_stops h]
  rfl

/-- Where white space ends. -/
theorem skipSpace_append {blanks rest : List Char} (hblanks : ∀ c ∈ blanks, isSpace c = true)
    (h : Text.Stops isSpace rest) (position : Nat) :
    skipSpace ⟨position, blanks ++ rest⟩ = ⟨position + blanks.length, rest⟩ := by
  rw [skipSpace, Text.takeWhile_append hblanks h, Spot.skip, List.drop_left]

/-- What stands in front of an item on a line of its own. -/
def lineStart (level : Nat) : List Char := '\n' :: List.replicate (2 * level) ' '

theorem toList_lineStart (level : Nat) : (Form.stored.lineStart level).toList = lineStart level := by
  simp [Form.lineStart, Form.stored, lineStart]

theorem isSpace_of_mem_lineStart {level : Nat} : ∀ c ∈ lineStart level, isSpace c = true := by
  intro c hc
  obtain rfl | hc := List.mem_cons.mp hc
  · rfl
  · obtain rfl := List.eq_of_mem_replicate hc
    rfl

theorem endsNumeral_comma (rest : List Char) : EndsNumeral (',' :: rest) := endsNumeral_cons (by decide) rest

theorem endsNumeral_lineStart (level : Nat) (rest : List Char) : EndsNumeral (lineStart level ++ rest) :=
  endsNumeral_cons (by decide) _

/-! ## Items -/

/-- A reader gives a value back from a text, whatever follows that does not run on as a number. -/
def ReadsBack (read : Spot → Except Fault (Value × Spot)) (text : List Char) (v : Value) : Prop :=
  ∀ position rest, EndsNumeral rest → ∃ q, read ⟨position, text ++ rest⟩ = .ok (v, ⟨q, rest⟩)

/-- A text starts neither with white space nor with a closing bracket or brace. -/
def StartsPlainly (text : List Char) : Prop :=
  ∃ c rest, text = c :: rest ∧ isSpace c = false ∧ c ≠ ']' ∧ c ≠ '\x7d'

theorem StartsPlainly.stops {text : List Char} (h : StartsPlainly text) : Text.Stops isSpace text := by
  obtain ⟨c, more, rfl, hc, -⟩ := h
  exact Text.stops_cons hc _

theorem StartsPlainly.append {text : List Char} (h : StartsPlainly text) (rest : List Char) :
    StartsPlainly (text ++ rest) := by
  obtain ⟨c, more, rfl, hc⟩ := h
  exact ⟨c, more ++ rest, rfl, hc⟩

theorem StartsPlainly.intercalate {text : List Char} (h : StartsPlainly text) (separator : List Char)
    (more : List (List Char)) : StartsPlainly (separator.intercalate (text :: more)) := by
  cases more with
  | nil => rwa [List.intercalate_singleton]
  | cons next more =>
      rw [List.intercalate_cons_cons, List.append_assoc]
      exact h.append _

section Items

variable {read : Spot → Except Fault (Value × Spot)} {text : Value → List Char} {level : Nat}

/-- Items that are read back one by one are read back together, up to the closing bracket. -/
theorem readItems_intercalate (rest : List Char) (v : Value) (more : List Value)
    (hread : ∀ u ∈ v :: more, ReadsBack read (text u) u) (hstart : ∀ u ∈ v :: more, StartsPlainly (text u)) :
    ∀ (count position : Nat) (acc : List Value), more.length < count → ∃ q,
      readItems read count ⟨position,
          (',' :: lineStart (level + 1)).intercalate ((v :: more).map text) ++ (lineStart level ++ ']' :: rest)⟩ acc =
        .ok (.list (acc.reverse ++ v :: more), ⟨q, rest⟩) := by
  induction more generalizing v with
  | nil =>
      rintro (_ | count) position acc hcount
      · cases hcount
      obtain ⟨q, hq⟩ := hread v List.mem_cons_self position (lineStart level ++ ']' :: rest)
        (endsNumeral_lineStart _ _)
      refine ⟨q + (lineStart level).length + 1, ?_⟩
      rw [List.map_singleton, List.intercalate_singleton, readItems, hq]
      dsimp only
      rw [skipSpace_append isSpace_of_mem_lineStart (Text.stops_cons rfl _)]
      simp [Spot.skip]
  | cons u more ih =>
      rintro (_ | count) position acc hcount
      · cases hcount
      have htext : (',' :: lineStart (level + 1)).intercalate ((v :: u :: more).map text) ++
          (lineStart level ++ ']' :: rest) = text v ++ (',' :: (lineStart (level + 1) ++
            ((',' :: lineStart (level + 1)).intercalate ((u :: more).map text) ++
              (lineStart level ++ ']' :: rest)))) := by
        rw [List.map_cons, List.map_cons, List.intercalate_cons_cons]
        simp only [List.append_assoc, List.cons_append]
      have hnext : Text.Stops isSpace ((',' :: lineStart (level + 1)).intercalate ((u :: more).map text) ++
          (lineStart level ++ ']' :: rest)) :=
        (((hstart u (List.mem_cons_of_mem _ List.mem_cons_self)).intercalate _ _).append _).stops
      obtain ⟨q, hq⟩ := hread v List.mem_cons_self position _ (endsNumeral_comma _)
      obtain ⟨q', hq'⟩ := ih u (fun w hw => hread w (List.mem_cons_of_mem _ hw))
        (fun w hw => hstart w (List.mem_cons_of_mem _ hw)) count (q + 1 + (lineStart (level + 1)).length) (v :: acc)
        (Nat.lt_of_succ_lt_succ hcount)
      refine ⟨q', ?_⟩
      rw [htext, readItems, hq]
      dsimp only
      rw [skipSpace_of_stops (Text.stops_cons rfl _)]
      simp only [Spot.skip, List.drop_succ_cons, List.drop_zero]
      rw [skipSpace_append isSpace_of_mem_lineStart hnext, hq', List.reverse_cons, List.append_assoc]
      rfl

/-- A member of an object as it is written. -/
def memberText (text : Value → List Char) (e : String × Value) : List Char :=
  '"' :: (innerChars e.1.toList ++ '"' :: ':' :: ' ' :: text e.2)

/-- The map with one more member. -/
def addMember (entries : Entries) (e : String × Value) : Entries := entries.insert (.str e.1) e.2

/-- One member is read back, and what follows it decides how to go on. -/
theorem readMembers_memberText {e : String × Value} (hkey : isUnpaired e.1 = true)
    (hread : ReadsBack read (text e.2) e.2)
    (hstart : StartsPlainly (text e.2)) {tail : List Char} (htail : EndsNumeral tail) (count position : Nat)
    (acc : Entries) : ∃ q, readMembers read (count + 1) ⟨position, memberText text e ++ tail⟩ acc =
      (let s := skipSpace ⟨q, tail⟩
       match s.rest with
       | '\x7d' :: _ => .ok (.map (addMember acc e), s.skip 1)
       | ',' :: _ => readMembers read count (skipSpace (s.skip 1)) (addMember acc e)
       | _ => s.fault .expectedComma) := by
  obtain ⟨name, v⟩ := e
  obtain ⟨q, hq⟩ := readString_stringText hkey (position + 1) (':' :: ' ' :: (text v ++ tail))
  obtain ⟨q', hq'⟩ := hread (q + 2) tail htail
  refine ⟨q', ?_⟩
  have htext : memberText text (name, v) ++ tail =
      '"' :: (innerChars name.toList ++ '"' :: ':' :: ' ' :: (text v ++ tail)) := by
    simp [memberText]
  have hblank : skipSpace ⟨q + 1, ' ' :: (text v ++ tail)⟩ = ⟨q + 2, text v ++ tail⟩ :=
    @skipSpace_append [' '] _ (by decide) (hstart.append tail).stops (q + 1)
  have hcolon : skipSpace ⟨q, ':' :: ' ' :: (text v ++ tail)⟩ = ⟨q, ':' :: ' ' :: (text v ++ tail)⟩ :=
    skipSpace_of_stops (Text.stops_cons rfl _) q
  rw [htext, readMembers]
  simp only [Spot.skip, List.drop_succ_cons, List.drop_zero, hq, hcolon, hblank, hq']
  rfl

theorem startsPlainly_memberText (text : Value → List Char) (e : String × Value) :
    StartsPlainly (memberText text e) := ⟨_, _, rfl, rfl, by decide, by decide⟩

/-- Members that are read back one by one are read back together, up to the closing brace. -/
theorem readMembers_intercalate (rest : List Char) (e : String × Value) (more : List (String × Value))
    (hkeys : ∀ d ∈ e :: more, isUnpaired d.1 = true)
    (hread : ∀ d ∈ e :: more, ReadsBack read (text d.2) d.2) (hstart : ∀ d ∈ e :: more, StartsPlainly (text d.2)) :
    ∀ (count position : Nat) (acc : Entries), more.length < count → ∃ q,
      readMembers read count ⟨position, (',' :: lineStart (level + 1)).intercalate
          ((e :: more).map (memberText text)) ++ (lineStart level ++ '\x7d' :: rest)⟩ acc =
        .ok (.map ((e :: more).foldl addMember acc), ⟨q, rest⟩) := by
  induction more generalizing e with
  | nil =>
      rintro (_ | count) position acc hcount
      · cases hcount
      obtain ⟨q, hq⟩ := readMembers_memberText (hkeys e List.mem_cons_self) (hread e List.mem_cons_self)
        (hstart e List.mem_cons_self) (endsNumeral_lineStart level ('\x7d' :: rest)) count position acc
      refine ⟨q + (lineStart level).length + 1, ?_⟩
      rw [List.map_singleton, List.intercalate_singleton, hq]
      dsimp only
      rw [skipSpace_append isSpace_of_mem_lineStart (Text.stops_cons rfl _)]
      rfl
  | cons d more ih =>
      rintro (_ | count) position acc hcount
      · cases hcount
      have htext : (',' :: lineStart (level + 1)).intercalate ((e :: d :: more).map (memberText text)) ++
          (lineStart level ++ '\x7d' :: rest) = memberText text e ++ (',' :: (lineStart (level + 1) ++
            ((',' :: lineStart (level + 1)).intercalate ((d :: more).map (memberText text)) ++
              (lineStart level ++ '\x7d' :: rest)))) := by
        rw [List.map_cons, List.map_cons, List.intercalate_cons_cons]
        simp only [List.append_assoc, List.cons_append]
      have hnext : Text.Stops isSpace ((',' :: lineStart (level + 1)).intercalate
          ((d :: more).map (memberText text)) ++ (lineStart level ++ '\x7d' :: rest)) :=
        (((startsPlainly_memberText text d).intercalate _ _).append _).stops
      obtain ⟨q, hq⟩ := readMembers_memberText (hkeys e List.mem_cons_self) (hread e List.mem_cons_self)
        (hstart e List.mem_cons_self) (endsNumeral_comma _) count position acc
      obtain ⟨q', hq'⟩ := ih d (fun w hw => hkeys w (List.mem_cons_of_mem _ hw))
        (fun w hw => hread w (List.mem_cons_of_mem _ hw)) (fun w hw => hstart w (List.mem_cons_of_mem _ hw))
        count (q + 1 + (lineStart (level + 1)).length) (addMember acc e) (Nat.lt_of_succ_lt_succ hcount)
      refine ⟨q', ?_⟩
      rw [htext, hq]
      dsimp only
      rw [skipSpace_of_stops (Text.stops_cons rfl _)]
      simp only [Spot.skip, List.drop_succ_cons, List.drop_zero]
      rw [skipSpace_append isSpace_of_mem_lineStart hnext, hq']
      rfl

end Items

/-! ## Scalars -/

/-- A numeral starts with a digit, after its sign if it has one. -/
theorem Numeral.chars_cases {n : Numeral} (hn : n.Proper) (rest : List Char) : ∃ d tail, d.isDigit = true ∧
    (n.chars ++ rest = d :: tail ∨ n.chars ++ rest = '-' :: d :: tail) := by
  obtain ⟨d, ds, hwhole⟩ := List.exists_cons_of_ne_nil hn.whole.1
  refine ⟨d, ds ++ (n.fractionChars ++ n.exponentChars) ++ rest, hn.whole.2 d (by simp [hwhole]), ?_⟩
  rw [chars_eq, hwhole]
  cases n.negative with
  | true => exact .inr rfl
  | false => exact .inl rfl

theorem ne_of_isDigit {c d : Char} (hc : c.isDigit = true) (hd : d.isDigit = false) : c ≠ d := by
  rintro rfl
  rw [hc] at hd
  cases hd

/-- No word is a number. -/
theorem word?_numeral {n : Numeral} (hn : n.Proper) (rest : List Char) : word? (n.chars ++ rest) = none := by
  obtain ⟨d, tail, hd, h | h⟩ := n.chars_cases hn rest <;>
  · have hne : ∀ c : Char, c.isDigit = false → ¬ c = d := fun c hc => (ne_of_isDigit hd hc).symm
    rw [h]
    simp [word?, words, hne _ (show 'n'.isDigit = false from rfl), hne _ (show 't'.isDigit = false from rfl),
      hne _ (show 'f'.isDigit = false from rfl), hne _ (show 'N'.isDigit = false from rfl),
      hne _ (show 'I'.isDigit = false from rfl), hne _ (show '-'.isDigit = false from rfl)]

/-- What starts with none of the marks is a word or a number. -/
theorem readValue_eq_readScalar {c : Char} (hquote : c ≠ '"') (hbracket : c ≠ '[') (hbrace : c ≠ '\x7b')
    (depth position : Nat) (rest : List Char) :
    readValue depth ⟨position, c :: rest⟩ = readScalar ⟨position, c :: rest⟩ := by
  rw [readValue.eq_def]
  dsimp only
  split
  · next heq => exact absurd (List.cons.inj heq).1 hquote
  · next heq => exact absurd (List.cons.inj heq).1 hbracket
  · next heq => exact absurd (List.cons.inj heq).1 hbrace
  · rfl

theorem readValue_numeral {n : Numeral} (hn : n.Proper) {v : Value} (hv : n.value = .ok v) (depth : Nat) :
    ReadsBack (readValue depth) n.chars v := by
  intro position rest hrest
  have hscalar : readScalar ⟨position, n.chars ++ rest⟩ =
      .ok (v, ⟨position + ((n.chars ++ rest).length - rest.length), rest⟩) := by
    rw [readScalar, word?_numeral hn]
    dsimp only
    rw [Numeral.numeral?_chars hn hrest]
    dsimp only
    rw [hv]
  refine ⟨_, Eq.trans ?_ hscalar⟩
  obtain ⟨d, tail, hd, h | h⟩ := n.chars_cases hn rest
  · rw [h, readValue_eq_readScalar (ne_of_isDigit hd rfl) (ne_of_isDigit hd rfl) (ne_of_isDigit hd rfl)]
  · rw [h, readValue_eq_readScalar (by decide) (by decide) (by decide)]

theorem readValue_string {s : String} (hs : isUnpaired s = true) (depth : Nat) :
    ReadsBack (readValue depth) (stringText true s).toList (.str s) := by
  intro position rest _
  obtain ⟨q, hq⟩ := readString_stringText hs (position + 1) rest
  refine ⟨q, ?_⟩
  have htext : (stringText true s).toList ++ rest = '"' :: (innerChars s.toList ++ '"' :: rest) := by
    simp [toList_stringText]
  rw [htext, readValue.eq_def]
  simp only [Spot.skip, List.drop_succ_cons, List.drop_zero, hq]

theorem readValue_word {word : String} {v : Value} (h : (word, v) ∈ words) (depth : Nat) :
    ReadsBack (readValue depth) word.toList v := by
  intro position rest _
  simp only [words, List.mem_cons, Prod.mk.injEq, List.not_mem_nil, or_false] at h
  refine ⟨position + word.length, ?_⟩
  obtain ⟨rfl, rfl⟩ | ⟨rfl, rfl⟩ | ⟨rfl, rfl⟩ | ⟨rfl, rfl⟩ | ⟨rfl, rfl⟩ | ⟨rfl, rfl⟩ := h <;>
  · exact (readValue_eq_readScalar (by decide) (by decide) (by decide) _ _ _).trans rfl

/-! ## Values -/

/-- A value at a level as it is stored. -/
def storedText (level : Nat) (v : Value) : List Char := (write .stored level v).toList

theorem writeItems_eq_map (form : Form) (level : Nat) (items : List Value) :
    writeItems form level items = items.map (write form level) := by
  induction items with
  | nil => rfl
  | cons v rest ih => rw [writeItems, ih, List.map_cons]

theorem toList_enclose (level : Nat) (opening closing item : String) (more : List String) :
    (enclose .stored level opening closing (item :: more)).toList = opening.toList ++ (lineStart (level + 1) ++
      ((',' :: lineStart (level + 1)).intercalate ((item :: more).map String.toList) ++
        (lineStart level ++ closing.toList))) := by
  rw [enclose, if_neg (by simp)]
  simp only [String.toList_append, String.toList_intercalate, toList_lineStart, List.append_assoc]
  rfl

theorem storedText_nil (level : Nat) : storedText level (.list []) = ['[', ']'] := by
  rw [storedText, write, writeItems, enclose, if_pos List.isEmpty_nil]
  rfl

theorem storedText_empty (level : Nat) : storedText level (.map []) = ['\x7b', '\x7d'] := by
  rw [storedText, write, writeEntries, enclose, if_pos List.isEmpty_nil]
  rfl

theorem storedText_list (level : Nat) (v : Value) (more : List Value) : storedText level (.list (v :: more)) =
    '[' :: (lineStart (level + 1) ++ ((',' :: lineStart (level + 1)).intercalate
      ((v :: more).map (storedText (level + 1))) ++ (lineStart level ++ [']']))) := by
  rw [storedText, write, writeItems_eq_map, List.map_cons, toList_enclose, List.map_cons, List.map_map]
  rfl

theorem storedText_map (level : Nat) (e : String × Value) (more : List (String × Value)) :
    storedText level (.record (e :: more)) = '\x7b' :: (lineStart (level + 1) ++
      ((',' :: lineStart (level + 1)).intercalate ((e :: more).map (memberText (storedText (level + 1)))) ++
        (lineStart level ++ ['\x7d']))) := by
  have hmembers : ∀ fields : List (String × Value),
      (writeEntries .stored (level + 1) (fields.map fun f => (.str f.1, f.2))).map String.toList =
        fields.map (memberText (storedText (level + 1))) := by
    intro fields
    induction fields with
    | nil => rfl
    | cons f fields ih =>
        rw [List.map_cons, writeEntries, List.map_cons, ih, List.map_cons]
        refine List.cons_eq_cons.mpr ⟨?_, rfl⟩
        simp only [String.toList_append]
        rw [show Form.stored.ascii = true from rfl, toList_stringText]
        simp [memberText, Form.colon, Form.stored, storedText, Value.plainKey, Value.display]
  rw [storedText, Value.record, write, List.map_cons, writeEntries, toList_enclose]
  rw [← hmembers]
  rfl

theorem startsPlainly_numeral {n : Numeral} (hn : n.Proper) : StartsPlainly n.chars := by
  obtain ⟨d, tail, hd, h | h⟩ := n.chars_cases hn []
  · refine ⟨d, tail, by simpa using h, ?_, ne_of_isDigit hd rfl, ne_of_isDigit hd rfl⟩
    simp [isSpace, ne_of_isDigit hd (show ' '.isDigit = false from rfl),
      ne_of_isDigit hd (show '\t'.isDigit = false from rfl), ne_of_isDigit hd (show '\n'.isDigit = false from rfl),
      ne_of_isDigit hd (show '\r'.isDigit = false from rfl)]
  · exact ⟨'-', d :: tail, by simpa using h, rfl, by decide, by decide⟩

/-- The fields of a map that is JSON data. -/
theorem exists_fields {entries : Entries} (h : Value.entriesAreJson entries = true) :
    ∃ fields : List (String × Value), entries = fields.map fun (k, v) => (.str k, v) := by
  induction entries with
  | nil => exact ⟨[], rfl⟩
  | cons e rest ih =>
      obtain ⟨k, v, rfl, -, -, hrest⟩ := Value.entriesAreJson_cons h
      obtain ⟨fields, rfl⟩ := ih hrest
      exact ⟨(k, v) :: fields, rfl⟩

/-- The names of a map are texts in it. -/
theorem forall_name_of_forall_text {fields : List (String × Value)} {P : String → Prop}
    (h : ∀ s ∈ Value.entriesAllTexts (fields.map fun (k, v) => (.str k, v)), P s) : ∀ d ∈ fields, P d.1 := by
  induction fields with
  | nil => exact List.forall_mem_nil _
  | cons d rest ih =>
      rw [List.map_cons, Value.entriesAllTexts, Value.allTexts, List.forall_mem_append, List.forall_mem_append] at h
      exact List.forall_mem_cons.mpr ⟨h.1 d.1 List.mem_cons_self, ih h.2.2⟩

theorem startsPlainly_storedText {v : Value} (h : v.isJson = true) (level : Nat) :
    StartsPlainly (storedText level v) := by
  cases v with
  | null => exact ⟨'n', ['u', 'l', 'l'], by rw [storedText, write]; rfl, rfl, by decide, by decide⟩
  | bool b =>
      cases b with
      | true => exact ⟨'t', ['r', 'u', 'e'], by rw [storedText, write]; rfl, rfl, by decide, by decide⟩
      | false => exact ⟨'f', ['a', 'l', 's', 'e'], by rw [storedText, write]; rfl, rfl, by decide, by decide⟩
  | int n =>
      rw [storedText, write, Numeral.toList_ofInt]
      exact startsPlainly_numeral (Numeral.proper_ofInt n)
  | float x =>
      obtain ⟨n, hn, -, htext, -⟩ := exists_numeral_of_double numberStyle h
      rw [storedText, write, htext]
      exact startsPlainly_numeral hn
  | str s =>
      rw [storedText, write, show Form.stored.ascii = true from rfl, toList_stringText]
      exact ⟨'"', _, rfl, rfl, by decide, by decide⟩
  | day | moment => cases h
  | list items =>
      cases items with
      | nil => exact ⟨'[', [']'], storedText_nil level, rfl, by decide, by decide⟩
      | cons v more => exact ⟨'[', _, storedText_list level v more, rfl, by decide, by decide⟩
  | map entries =>
      obtain ⟨fields, rfl⟩ := exists_fields (by rwa [Value.isJson] at h)
      cases fields with
      | nil => exact ⟨'\x7b', ['\x7d'], storedText_empty level, rfl, by decide, by decide⟩
      | cons e more => exact ⟨'\x7b', _, storedText_map level e more, rfl, by decide, by decide⟩

/-- The number of items is no more than the number of characters between them. -/
theorem length_le_intercalate {separator : List Char} (hseparator : separator ≠ []) (item : List Char)
    (more : List (List Char)) : more.length ≤ (separator.intercalate (item :: more)).length := by
  have hpos : 0 < separator.length := List.length_pos_iff.mpr hseparator
  induction more generalizing item with
  | nil => exact Nat.zero_le _
  | cons next more ih =>
      rw [List.intercalate_cons_cons, List.length_append, List.length_append, List.length_cons]
      have := ih next
      omega

section Brackets

variable {level depth : Nat}

/-- Behind a bracket and white space come items. -/
theorem readValue_bracket {blanks inner : List Char} (hblanks : ∀ c ∈ blanks, isSpace c = true)
    (hinner : StartsPlainly inner) (position : Nat) : readValue (depth + 1) ⟨position, '[' :: (blanks ++ inner)⟩ =
      readItems (readValue depth) (inner.length + 1) ⟨position + 1 + blanks.length, inner⟩ [] := by
  have hspace : skipSpace ⟨position + 1, blanks ++ inner⟩ = ⟨position + 1 + blanks.length, inner⟩ :=
    skipSpace_append hblanks hinner.stops _
  obtain ⟨c, more, rfl, -, hc, -⟩ := hinner
  rw [readValue.eq_def]
  simp only [Spot.skip, List.drop_succ_cons, List.drop_zero, hspace]
  split
  · next heq => exact absurd (List.cons.inj heq).1 hc
  · rfl

theorem readValue_brace {blanks inner : List Char} (hblanks : ∀ c ∈ blanks, isSpace c = true)
    (hinner : StartsPlainly inner) (position : Nat) :
    readValue (depth + 1) ⟨position, '\x7b' :: (blanks ++ inner)⟩ =
      readMembers (readValue depth) (inner.length + 1) ⟨position + 1 + blanks.length, inner⟩ [] := by
  have hspace : skipSpace ⟨position + 1, blanks ++ inner⟩ = ⟨position + 1 + blanks.length, inner⟩ :=
    skipSpace_append hblanks hinner.stops _
  obtain ⟨c, more, rfl, -, -, hc⟩ := hinner
  rw [readValue.eq_def]
  simp only [Spot.skip, List.drop_succ_cons, List.drop_zero, hspace]
  split
  · next heq => exact absurd (List.cons.inj heq).1 hc
  · rfl

theorem readValue_list {v : Value} {more : List Value}
    (hread : ∀ u ∈ v :: more, ReadsBack (readValue depth) (storedText (level + 1) u) u)
    (hstart : ∀ u ∈ v :: more, StartsPlainly (storedText (level + 1) u)) :
    ReadsBack (readValue (depth + 1)) (storedText level (.list (v :: more))) (.list (v :: more)) := by
  intro position rest _
  have htext : storedText level (.list (v :: more)) ++ rest = '[' :: (lineStart (level + 1) ++
      ((',' :: lineStart (level + 1)).intercalate ((v :: more).map (storedText (level + 1))) ++
        (lineStart level ++ ']' :: rest))) := by
    rw [storedText_list]
    simp only [List.append_assoc, List.cons_append, List.nil_append]
  have hinner : StartsPlainly ((',' :: lineStart (level + 1)).intercalate
      ((v :: more).map (storedText (level + 1))) ++ (lineStart level ++ ']' :: rest)) :=
    ((hstart v List.mem_cons_self).intercalate _ _).append _
  have hcount : more.length ≤ ((',' :: lineStart (level + 1)).intercalate
      ((v :: more).map (storedText (level + 1)))).length := by
    rw [← more.length_map (storedText (level + 1))]
    exact length_le_intercalate (List.cons_ne_nil _ _) _ _
  rw [htext, readValue_bracket isSpace_of_mem_lineStart hinner]
  refine readItems_intercalate rest v more hread hstart _ _ [] ?_
  rw [List.length_append]
  omega

theorem readValue_map {e : String × Value} {more : List (String × Value)}
    (hjson : (Value.record (e :: more)).isJson = true) (hkeys : ∀ d ∈ e :: more, isUnpaired d.1 = true)
    (hread : ∀ d ∈ e :: more, ReadsBack (readValue depth) (storedText (level + 1) d.2) d.2)
    (hstart : ∀ d ∈ e :: more, StartsPlainly (storedText (level + 1) d.2)) :
    ReadsBack (readValue (depth + 1)) (storedText level (.record (e :: more))) (.record (e :: more)) := by
  intro position rest _
  have htext : storedText level (.record (e :: more)) ++ rest = '\x7b' :: (lineStart (level + 1) ++
      ((',' :: lineStart (level + 1)).intercalate ((e :: more).map (memberText (storedText (level + 1)))) ++
        (lineStart level ++ '\x7d' :: rest))) := by
    rw [storedText_map]
    simp only [List.append_assoc, List.cons_append, List.nil_append]
  have hinner : StartsPlainly ((',' :: lineStart (level + 1)).intercalate
      ((e :: more).map (memberText (storedText (level + 1)))) ++ (lineStart level ++ '\x7d' :: rest)) :=
    ((startsPlainly_memberText _ e).intercalate _ _).append _
  have hcount : more.length ≤ ((',' :: lineStart (level + 1)).intercalate
      ((e :: more).map (memberText (storedText (level + 1))))).length := by
    rw [← more.length_map (memberText (storedText (level + 1)))]
    exact length_le_intercalate (List.cons_ne_nil _ _) _ _
  have hmembers : (e :: more).foldl addMember [] = (e :: more).map fun (k, v) => (.str k, v) := by
    rw [Value.record, Value.isJson] at hjson
    have := Value.foldl_insert_eq_append hjson [] fun _ _ => rfl
    rw [List.foldl_map] at this
    exact this
  rw [htext, readValue_brace isSpace_of_mem_lineStart hinner, Value.record, ← hmembers]
  refine readMembers_intercalate rest e more hkeys hread hstart _ _ [] ?_
  rw [List.length_append]
  omega

end Brackets

mutual

theorem readsBack : ∀ v : Value, v.isJson = true → (∀ s ∈ v.allTexts, isUnpaired s = true) → v.hasShortIntegers = true →
    ∀ level depth : Nat, v.depth ≤ depth → ReadsBack (readValue depth) (storedText level v) v
  | .null, _, _, _, _, depth, _ => readValue_word (.head _) depth
  | .bool true, _, _, _, _, depth, _ => readValue_word (.tail _ (.head _)) depth
  | .bool false, _, _, _, _, depth, _ => readValue_word (.tail _ (.tail _ (.head _))) depth
  | .int n, _, _, hshort, level, depth, _ => by
      rw [storedText, write, Numeral.toList_ofInt]
      exact readValue_numeral (Numeral.proper_ofInt n)
        (Numeral.value_ofInt (by simpa [Value.hasShortIntegers] using hshort)) depth
  | .float x, hjson, _, _, level, depth, _ => by
      obtain ⟨n, hn, hfloat, htext, hvalue, -⟩ := exists_numeral_of_double numberStyle hjson
      rw [storedText, write, htext]
      refine readValue_numeral hn ?_ depth
      rw [Numeral.value_of_isFloat hfloat, hvalue]
  | .str _, _, htexts, _, _, depth, _ => by
      rw [Value.allTexts] at htexts
      exact readValue_string (htexts _ List.mem_cons_self) depth
  | .day _, hjson, _, _, _, _, _ | .moment _, hjson, _, _, _, _, _ => by cases hjson
  | .list [], _, _, _, level, 0, hdepth => by simp [Value.depth] at hdepth
  | .list [], _, _, _, level, depth + 1, _ => by
      rw [storedText_nil]
      exact fun position rest _ => ⟨position + 2, by rw [readValue.eq_def]; rfl⟩
  | .list (v :: more), _, _, _, level, 0, hdepth => by simp [Value.depth] at hdepth
  | .list (v :: more), hjson, htexts, hshort, level, depth + 1, hdepth => by
      have hitems : Value.itemsAreJson (v :: more) = true := by rwa [Value.isJson] at hjson
      rw [Value.allTexts] at htexts
      rw [Value.hasShortIntegers] at hshort
      rw [Value.depth, Nat.add_le_add_iff_right] at hdepth
      exact readValue_list (readsBack_items (v :: more) hitems htexts hshort (level + 1) depth hdepth)
        fun u hu => startsPlainly_storedText (Value.isJson_of_mem hjson hu) _
  | .map entries, _, _, _, level, 0, hdepth => by simp [Value.depth] at hdepth
  | .map [], _, _, _, level, depth + 1, _ => by
      rw [storedText_empty]
      exact fun position rest _ => ⟨position + 2, by rw [readValue.eq_def]; rfl⟩
  | .map (e :: more), hjson, htexts, hshort, level, depth + 1, hdepth => by
      have hentries : Value.entriesAreJson (e :: more) = true := by rwa [Value.isJson] at hjson
      rw [Value.allTexts] at htexts
      rw [Value.hasShortIntegers] at hshort
      rw [Value.depth, Nat.add_le_add_iff_right] at hdepth
      have hread := readsBack_entries (e :: more) hentries htexts hshort (level + 1) depth hdepth
      have hstart : ∀ d ∈ e :: more, StartsPlainly (storedText (level + 1) d.2) :=
        fun d hd => startsPlainly_storedText (Value.isJson_of_mem_entries hjson hd) _
      obtain ⟨_ | ⟨f, fields⟩, hfields⟩ := exists_fields hentries
      · cases hfields
      · rw [hfields] at hread hstart hjson htexts ⊢
        have hmem : ∀ d ∈ f :: fields, (Value.str d.1, d.2) ∈ (f :: fields).map fun (k, v) => (Value.str k, v) :=
          fun d hd => List.mem_map.mpr ⟨d, hd, rfl⟩
        exact readValue_map hjson (forall_name_of_forall_text htexts) (fun d hd => hread (.str d.1, d.2) (hmem d hd))
          fun d hd => hstart (.str d.1, d.2) (hmem d hd)

theorem readsBack_items : ∀ items : List Value, Value.itemsAreJson items = true →
    (∀ s ∈ Value.itemsAllTexts items, isUnpaired s = true) → Value.itemsHaveShortIntegers items = true → ∀ level depth : Nat,
    Value.itemsDepth items ≤ depth → ∀ v ∈ items, ReadsBack (readValue depth) (storedText level v) v
  | [], _, _, _, _, _, _ => fun _ hv => absurd hv List.not_mem_nil
  | v :: rest, hjson, htexts, hshort, level, depth, hdepth => by
      rw [Value.itemsAreJson, Bool.and_eq_true] at hjson
      rw [Value.itemsAllTexts, List.forall_mem_append] at htexts
      rw [Value.itemsHaveShortIntegers, Bool.and_eq_true] at hshort
      rw [Value.itemsDepth] at hdepth
      exact List.forall_mem_cons.mpr ⟨readsBack v hjson.1 htexts.1 hshort.1 level depth (by omega),
        readsBack_items rest hjson.2 htexts.2 hshort.2 level depth (by omega)⟩

theorem readsBack_entries : ∀ entries : Entries, Value.entriesAreJson entries = true →
    (∀ s ∈ Value.entriesAllTexts entries, isUnpaired s = true) → Value.entriesHaveShortIntegers entries = true →
    ∀ level depth : Nat, Value.entriesDepth entries ≤ depth →
    ∀ e ∈ entries, ReadsBack (readValue depth) (storedText level e.2) e.2
  | [], _, _, _, _, _, _ => fun _ he => absurd he List.not_mem_nil
  | (k, v) :: rest, hjson, htexts, hshort, level, depth, hdepth => by
      obtain ⟨_, _, heq, hv, -, hrest⟩ := Value.entriesAreJson_cons hjson
      obtain ⟨rfl, rfl⟩ := Prod.mk.inj heq
      rw [Value.entriesAllTexts, List.forall_mem_append, List.forall_mem_append] at htexts
      rw [Value.entriesHaveShortIntegers, Bool.and_eq_true, Bool.and_eq_true] at hshort
      rw [Value.entriesDepth] at hdepth
      exact List.forall_mem_cons.mpr ⟨readsBack v hv htexts.2.1 hshort.1.2 level depth (by omega),
        readsBack_entries rest hrest htexts.2.2 hshort.2 level depth (by omega)⟩

end

/-! ## Characters -/

theorem isStored_of_isDigit {c : Char} (h : c.isDigit = true) : isStored c = true := by
  simp only [Char.isDigit, Bool.and_eq_true, decide_eq_true_eq, UInt32.le_iff_toNat_le] at h
  have hrange : 0x20 ≤ c.toNat ∧ c.toNat < 0x7f := ⟨Nat.le_trans (by decide) h.1, Nat.lt_of_le_of_lt h.2 (by decide)⟩
  simp [isStored, hrange]

theorem isStored_numeral {n : Numeral} (hn : n.Proper) : ∀ c ∈ n.chars, isStored c = true := by
  have hdigits : ∀ digits, AreDigits digits → ∀ c ∈ digits, isStored c = true :=
    fun _ h c hc => isStored_of_isDigit (h.2 c hc)
  rw [Numeral.chars_eq]
  refine List.forall_mem_append.mpr ⟨by cases n.negative <;> decide,
    List.forall_mem_append.mpr ⟨hdigits _ hn.whole, List.forall_mem_append.mpr ⟨?_, ?_⟩⟩⟩
  · rw [Numeral.fractionChars]
    cases hfraction : n.fraction with
    | none => decide
    | some digits => exact List.forall_mem_cons.mpr ⟨rfl, hdigits _ (hn.fraction _ hfraction)⟩
  · rw [Numeral.exponentChars]
    cases hexponent : n.exponent with
    | none => decide
    | some e =>
        obtain ⟨negative, digits⟩ := e
        refine List.forall_mem_cons.mpr ⟨rfl, List.forall_mem_cons.mpr ⟨?_, hdigits _ (hn.exponent _ _ hexponent)⟩⟩
        cases negative <;> rfl

theorem isStored_lineStart (level : Nat) : ∀ c ∈ lineStart level, isStored c = true := by
  refine List.forall_mem_cons.mpr ⟨rfl, fun c hc => ?_⟩
  obtain rfl := List.eq_of_mem_replicate hc
  rfl

theorem isStored_intercalate (level : Nat) {texts : List (List Char)}
    (h : ∀ text ∈ texts, ∀ c ∈ text, isStored c = true) :
    ∀ c ∈ (',' :: lineStart level).intercalate texts, isStored c = true := by
  have hline : ∀ c ∈ ',' :: lineStart level, isStored c = true :=
    List.forall_mem_cons.mpr ⟨rfl, isStored_lineStart level⟩
  exact Text.forall_mem_intercalate hline h

mutual

/-- Whatever a text is about, it has these characters alone. -/
theorem isStored_storedText : ∀ v : Value, v.isJson = true → ∀ level : Nat,
    ∀ c ∈ storedText level v, isStored c = true
  | .null, _, level => by
      rw [storedText, write]
      decide
  | .bool b, _, level => by
      rw [storedText, write]
      cases b <;> decide
  | .int n, _, level => by
      rw [storedText, write, Numeral.toList_ofInt]
      exact isStored_numeral (Numeral.proper_ofInt n)
  | .float x, hjson, level => by
      obtain ⟨n, hn, -, htext, -⟩ := exists_numeral_of_double numberStyle hjson
      rw [storedText, write, htext]
      exact isStored_numeral hn
  | .str s, _, level => by
      rw [storedText, write, show Form.stored.ascii = true from rfl, toList_stringText]
      exact List.forall_mem_cons.mpr ⟨rfl, List.forall_mem_append.mpr ⟨isStored_innerChars _, by decide⟩⟩
  | .day _, hjson, _ | .moment _, hjson, _ => by cases hjson
  | .list [], _, level => by
      rw [storedText_nil]
      decide
  | .list (v :: more), hjson, level => by
      rw [Value.isJson] at hjson
      rw [storedText_list]
      refine List.forall_mem_cons.mpr ⟨rfl, List.forall_mem_append.mpr ⟨isStored_lineStart _,
        List.forall_mem_append.mpr ⟨isStored_intercalate _ ?_, List.forall_mem_append.mpr
          ⟨isStored_lineStart _, by decide⟩⟩⟩⟩
      exact List.forall_mem_map.mpr fun u hu => isStored_items (v :: more) hjson (level + 1) u hu
  | .map [], _, level => by
      rw [storedText_empty]
      decide
  | .map (e :: more), hjson, level => by
      rw [Value.isJson] at hjson
      have hentries := isStored_entries (e :: more) hjson (level + 1)
      obtain ⟨_ | ⟨f, fields⟩, hfields⟩ := exists_fields hjson
      · cases hfields
      rw [hfields] at hentries ⊢
      rw [← Value.record, storedText_map]
      refine List.forall_mem_cons.mpr ⟨rfl, List.forall_mem_append.mpr ⟨isStored_lineStart _,
        List.forall_mem_append.mpr ⟨isStored_intercalate _ ?_, List.forall_mem_append.mpr
          ⟨isStored_lineStart _, by decide⟩⟩⟩⟩
      refine List.forall_mem_map.mpr fun d hd => ?_
      refine List.forall_mem_cons.mpr ⟨rfl, List.forall_mem_append.mpr ⟨isStored_innerChars _,
        List.forall_mem_cons.mpr ⟨rfl, List.forall_mem_cons.mpr ⟨rfl, List.forall_mem_cons.mpr ⟨rfl, ?_⟩⟩⟩⟩⟩
      exact hentries _ (List.mem_map_of_mem hd)

theorem isStored_items : ∀ items : List Value, Value.itemsAreJson items = true → ∀ level : Nat,
    ∀ v ∈ items, ∀ c ∈ storedText level v, isStored c = true
  | [], _, _ => fun _ hv => absurd hv List.not_mem_nil
  | v :: rest, hjson, level => by
      rw [Value.itemsAreJson, Bool.and_eq_true] at hjson
      exact List.forall_mem_cons.mpr ⟨isStored_storedText v hjson.1 level, isStored_items rest hjson.2 level⟩

theorem isStored_entries : ∀ entries : Entries, Value.entriesAreJson entries = true → ∀ level : Nat,
    ∀ e ∈ entries, ∀ c ∈ storedText level e.2, isStored c = true
  | [], _, _ => fun _ he => absurd he List.not_mem_nil
  | (k, v) :: rest, hjson, level => by
      obtain ⟨_, _, heq, hv, -, hrest⟩ := Value.entriesAreJson_cons hjson
      obtain ⟨rfl, rfl⟩ := Prod.mk.inj heq
      exact List.forall_mem_cons.mpr ⟨isStored_storedText v hv level, isStored_entries rest hrest level⟩

end

/-! ## Whole texts -/

theorem toList_text (v : Value) : (Form.stored.text v ++ "\n").toList = storedText 0 v ++ ['\n'] :=
  String.toList_append

/-- No line of a stored text ends with a carriage return. -/
theorem not_mem_text {v : Value} (hjson : v.isJson = true) : '\r' ∉ (Form.stored.text v ++ "\n").toList := by
  rw [toList_text, List.mem_append, not_or]
  exact ⟨fun h => absurd (isStored_storedText v hjson 0 _ h) (by decide), by decide⟩

/-- A stored text with a line end behind it is read as the value that it stores. -/
theorem read_text {v : Value} (hjson : v.isJson = true) (htexts : ∀ s ∈ v.allTexts, isUnpaired s = true)
    (hshort : v.hasShortIntegers = true) (hdepth : v.depth ≤ depthLimit) :
    read (Form.stored.text v ++ "\n").toList = .ok v := by
  obtain ⟨q, hq⟩ := readsBack v hjson htexts hshort 0 depthLimit hdepth 0 ['\n'] (endsNumeral_cons (by decide) [])
  have hstart := startsPlainly_storedText hjson 0
  have hspace : skipSpace ⟨0, storedText 0 v ++ ['\n']⟩ = ⟨0, storedText 0 v ++ ['\n']⟩ :=
    skipSpace_of_stops (hstart.append _).stops 0
  have hend : skipSpace ⟨q, ['\n']⟩ = ⟨q + 1, []⟩ := rfl
  rw [toList_text, read.eq_def]
  split
  · next rest heq =>
    -- a stored text does not start with a byte order mark
    obtain ⟨c, more, htext, -⟩ := hstart
    rw [htext] at heq
    obtain rfl := (List.cons.inj heq).1
    exact absurd (isStored_storedText v hjson 0 '\ufeff' (by simp [htext])) (by decide)
  · rw [hspace, hq]
    dsimp only
    rw [hend]
    rfl

end Runbook.Json
