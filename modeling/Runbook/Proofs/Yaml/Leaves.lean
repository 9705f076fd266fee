import Runbook.Proofs.Value.Json
import Runbook.Proofs.Yaml.Characters
import Runbook.Proofs.Yaml.Numbers
import Runbook.Workflow.File

/-!
# Leaves

Values of JSON data that are no collections are written as scalars (`isScalar_leaf`), whose texts are
read as these values (`exists_kind_leaf`).
-/

namespace Runbook.Yaml

open Json (Numeral)

/-- A value that is no collection. -/
def isLeaf : Value → Bool
  | .list _ | .map _ => false
  | _ => true

/-- Whether a leaf is written without quotes, and its text. -/
def leaf : Value → Bool × String
  | .str s => (Style.allowsPlain s, s)
  | v => (true, String.ofList (writeScalar false 0 0 v))

/-- A leaf, written on lines that are indented by some blanks, is read back as it was. -/
def keepsLeaf (indent : Nat) : Value → Bool
  | .str s => keepsText indent s
  | _ => true

def leafToken (v : Value) : Token := .scalar (leaf v).1 (leaf v).2

def leafNode (v : Value) : Node := .scalar (Node.scalarMark (leaf v).1 none) (leaf v).2

/-! ## Numerals -/

theorem isPlainWord_chars {n : Numeral} (hn : n.Proper) : IsPlainWord n.chars where
  ne_nil h := by
    obtain ⟨c, rest, heq, -⟩ := startsNumeral_chars hn
    rw [heq] at h
    cases h
  plain c hc := by
    have hchar : ∀ c ∈ numeralChars, isPlainChar c = true := by decide
    exact hchar c (mem_chars hn c hc)
  colon h := by
    have hchar : ':' ∉ numeralChars := by decide
    exact hchar (mem_chars hn _ (List.mem_of_getLast? h))

theorem startsLikeMark_chars {n : Numeral} (hn : n.Proper) : Style.startsLikeMark n.chars = false := by
  have hdigit : ∀ i : Fin 10, let d := Char.ofNat (48 + i.val)
      "#,[]\x7b\x7d&*!|>'\"%@`".toList.contains d = false ∧ d ≠ '-' ∧ d ≠ '.' ∧ d ≠ '?' ∧ d ≠ ':' ∧
        isGap d = false := by
    decide
  obtain ⟨d, rest, hbody, hd⟩ := exists_body hn
  obtain ⟨i, rfl⟩ := exists_of_isDigit hd
  obtain ⟨hmark, hdash, hdot, hquestion, hcolon, hgap⟩ := hdigit i
  rw [chars_eq_body, hbody]
  cases n.negative with
  | false =>
      rw [if_neg Bool.false_ne_true, List.nil_append, Style.startsLikeMark,
        isPrefixOf_of_head (by simpa using hdash.symm) (by decide),
        isPrefixOf_of_head (by simpa using hdot.symm) (by decide)]
      simp only [hmark, beq_eq_false_iff_ne.mpr hquestion, beq_eq_false_iff_ne.mpr hcolon,
        beq_eq_false_iff_ne.mpr hdash]
      rfl
  | true => simp [Style.startsLikeMark, List.isPrefixOf, hdash.symm, endsWord_cons hgap]

theorem isScalar_chars {n : Numeral} (hn : n.Proper) (least : Nat) :
    IsScalar least n.chars (.scalar true (String.ofList n.chars)) :=
  .plain (.word (isPlainWord_chars hn)) (startsLikeMark_chars hn)

/-! ## Scalars -/

section Scalars

variable {v : Value}

theorem isScalar_word {word : String} (h : word ∈ ["null", "true", "false"]) (least : Nat) :
    IsScalar least word.toList (.scalar true (String.ofList word.toList)) := by
  have hword : ∀ word ∈ ["null", "true", "false"], (word.toList ≠ [] ∧ (∀ c ∈ word.toList, isPlainChar c = true) ∧
      word.toList.getLast? ≠ some ':') ∧ Style.startsLikeMark word.toList = false := by decide
  obtain ⟨⟨hne, hplain, hcolon⟩, hstart⟩ := hword word h
  exact .plain (.word ⟨hne, hplain, hcolon⟩) hstart

/-- A leaf is written as a scalar that stands for it. -/
theorem isScalar_leaf (hjson : v.isJson = true) (hleaf : isLeaf v = true) {indent least : Nat} (hindent : 0 < indent)
    (hleast : least ≤ indent) (hkeeps : keepsLeaf indent v = true) (column : Nat) :
    IsScalar least (writeScalar false indent column v) (leafToken v) := by
  cases v with
  | str s => exact isScalar_writeText hkeeps hindent hleast
  | int i =>
      have := isScalar_chars (Numeral.proper_ofInt i) least
      rwa [← Numeral.toList_ofInt] at this
  | float x =>
      obtain ⟨n, hn, -, htext, -, -⟩ := Json.exists_numeral_of_double numberStyle hjson
      have := isScalar_chars hn least
      rwa [← htext] at this
  | null => exact isScalar_word (by decide) least
  | bool b => cases b <;> exact isScalar_word (by decide) least
  | day | moment => cases hjson
  | list | map => cases hleaf

theorem isWritten_leaf (hjson : v.isJson = true) (hleaf : isLeaf v = true) (isKey : Bool) (indent column : Nat) :
    ∀ c ∈ writeScalar isKey indent column v, isWritten c = true := by
  have hnumeral : ∀ n : Numeral, n.Proper → ∀ c ∈ n.chars, isWritten c = true := fun n hn c hc => by
    have hchar : ∀ c ∈ numeralChars, isWritten c = true := by decide
    exact hchar c (mem_chars hn c hc)
  cases v with
  | str s => exact isWritten_writeText isKey s
  | int i =>
      have := hnumeral _ (Numeral.proper_ofInt i)
      rwa [← Numeral.toList_ofInt] at this
  | float x =>
      obtain ⟨n, hn, -, htext, -, -⟩ := Json.exists_numeral_of_double numberStyle hjson
      have := hnumeral n hn
      rwa [← htext] at this
  | null =>
      rw [writeScalar]
      decide
  | bool b =>
      rw [writeScalar]
      cases b <;> decide
  | day | moment => cases hjson
  | list | map => cases hleaf

/-- A text is read as text. -/
theorem kind?_text (s : String) : (leafNode (.str s)).kind? = some .str := by
  have hnode : leafNode (.str s) = .scalar (Node.scalarMark (Style.allowsPlain s) none) s := rfl
  rw [hnode]
  cases hplain : Style.allowsPlain s with
  | true => exact congrArg some (standsPlain hplain).kind
  | false => rfl

/-- The type of a leaf's text, as which it is read. -/
theorem exists_kind_leaf (hjson : v.isJson = true) (hshort : v.hasShortIntegers = true) (hleaf : isLeaf v = true) :
    ∃ kind, (leafNode v).kind? = some kind ∧ Schema.readScalar kind (leaf v).2 = .ok v := by
  cases v with
  | str s => exact ⟨.str, kind?_text s, rfl⟩
  | int i =>
      have htext : (leaf (.int i)).2 = toString i := String.ofList_toList
      have hwidth : Decimal.width i.natAbs ≤ Json.digitLimit := by simpa [Value.hasShortIntegers] using hshort
      refine ⟨.int, ?_, ?_⟩
      · exact congrArg some (htext ▸ kindOf_int i)
      · rw [htext]
        exact readInt_int hwidth
  | float x =>
      obtain ⟨n, hn, -, htext, hvalue, hfraction⟩ := Json.exists_numeral_of_double numberStyle hjson
      have htext : (leaf (.float x)).2 = String.ofList n.chars := congrArg String.ofList htext
      refine ⟨.float, ?_, ?_⟩
      · exact congrArg some (htext ▸ kindOf_fraction hn (hfraction rfl))
      · rw [htext]
        exact (readFloat_chars hn (hfraction rfl)).trans (by rw [hvalue])
  | null => exact ⟨.null, rfl, rfl⟩
  | bool b => cases b <;> exact ⟨.bool, rfl, rfl⟩
  | day | moment => cases hjson
  | list | map => cases hleaf

end Scalars

end Runbook.Yaml
