import Mathlib.Data.List.TakeWhile
import Runbook.Json.Reader

/-!
# Why a text is not JSON

Nearly all that can be wrong with a text is a matter of its form. Besides that, an integer may
have too many digits, and arrays and objects may nest too deep; either is to be seen in the text
(`Blames`). That a reader finds no other fault is proved together with what it leaves to be read,
which is the end of what it was given (`reads_readValue`). Main statement: `blames_of_read`.
-/

namespace Runbook

/-! ## Results -/

/-- A result meets one condition, and a fault meets another. -/
def Ends {ε α : Type} (wrong : ε → Prop) (right : α → Prop) : Except ε α → Prop
  | .ok a => right a
  | .error e => wrong e

namespace Ends

variable {ε ε' α β : Type} {wrong wrong' : ε → Prop} {right : α → Prop} {x : Except ε α}

theorem of_error (h : Ends wrong right x) {e : ε} (hx : x = .error e) : wrong e := by
  rw [hx] at h
  exact h

theorem of_ok (h : Ends wrong right x) {a : α} (hx : x = .ok a) : right a := by
  rw [hx] at h
  exact h

theorem bind {next : β → Prop} {f : α → Except ε β} (h : Ends wrong right x)
    (hf : ∀ a, right a → Ends wrong next (f a)) : Ends wrong next (x >>= f) := by
  cases x with
  | error e => exact h
  | ok a => exact hf a h

theorem map {next : β → Prop} {f : α → β} (h : Ends wrong right x) (hf : ∀ a, right a → next (f a)) :
    Ends wrong next (x.map f) := by
  cases x with
  | error e => exact h
  | ok a => exact hf a h

theorem ite {c : Prop} [Decidable c] {y : Except ε α} (hx : Ends wrong right x) (hy : Ends wrong right y) :
    Ends wrong right (if c then x else y) := by
  split
  · exact hx
  · exact hy

theorem mono {right' : α → Prop} (h : Ends wrong right x) (hwrong : ∀ e, wrong e → wrong' e)
    (hright : ∀ a, right a → right' a) : Ends wrong' right' x := by
  cases x with
  | error e => exact hwrong e h
  | ok a => exact hright a h

end Ends

namespace Json

/-! ## What is to be seen of a fault -/

/-- A character that opens an array or an object. -/
def opens (c : Char) : Bool := c == '[' || c == '\x7b'

/-- What is to be seen in a text that is at fault, where arrays and objects may nest at most `depth` deep: an
integer with too many digits is there digit by digit, and nesting too deep takes as many opening marks. -/
def Blames (depth : Nat) (text : List Char) : Fault → Prop
  | .malformed _ _ => True
  | .tooManyDigits count =>
    digitLimit < count ∧ ∃ digits, digits <:+: text ∧ digits.length = count ∧ ∀ c ∈ digits, c.isDigit = true
  | .tooDeep _ => depth < text.countP opens

section Faults

variable {depth : Nat} {text rest : List Char} {f : Fault}

theorem Blames.of_suffix (h : Blames depth rest f) (hrest : rest <:+ text) : Blames depth text f := by
  cases f with
  | malformed => trivial
  | tooManyDigits count =>
      obtain ⟨hlong, digits, hdigits, hrun⟩ := h
      exact ⟨hlong, digits, hdigits.trans hrest.isInfix, hrun⟩
  | tooDeep isArray => exact Nat.lt_of_lt_of_le h (hrest.sublist.countP_le)

/-- Behind an opening mark there is room for one level less. -/
theorem Blames.of_inside {c : Char} (h : Blames depth rest f) (hopen : text = c :: rest) (hc : opens c = true) :
    Blames (depth + 1) text f := by
  cases f with
  | malformed => trivial
  | tooManyDigits count => exact h.of_suffix (hopen ▸ List.suffix_cons c rest)
  | tooDeep isArray =>
      rw [Blames, hopen, List.countP_cons_of_pos hc]
      exact Nat.succ_lt_succ h

end Faults

/-! ## Readers -/

/-- What is wrong is to be seen in the text that was given, and what is left to be read is the end of it. -/
def Leaves {α : Type} (depth : Nat) (text : List Char) : Except Fault (α × Spot) → Prop :=
  Ends (Blames depth text) fun r => r.2.rest <:+ text

/-- A reader of values. -/
def Reads {α : Type} (depth : Nat) (read : Spot → Except Fault (α × Spot)) : Prop :=
  ∀ s, Leaves depth s.rest (read s)

section Readers

variable {depth start count : Nat} {s : Spot} {text rest : List Char} {α : Type} {x : Except Fault (α × Spot)}

theorem Leaves.of_suffix (h : Leaves depth rest x) (hrest : rest <:+ text) : Leaves depth text x :=
  h.mono (fun _ hf => hf.of_suffix hrest) fun _ hr => hr.trans hrest

theorem Leaves.of_inside {c : Char} (h : Leaves depth rest x) (hopen : text = c :: rest) (hc : opens c = true) :
    Leaves (depth + 1) text x :=
  h.mono (fun _ hf => hf.of_inside hopen hc) fun _ hr => hr.trans (hopen ▸ List.suffix_cons c rest)

theorem skip_suffix (s : Spot) (count : Nat) : (s.skip count).rest <:+ s.rest := List.drop_suffix _ _

theorem skipSpace_suffix (s : Spot) : (skipSpace s).rest <:+ s.rest := skip_suffix s _

/-- The next thing to read, after white space, behind one character. -/
theorem skipSpace_skip_suffix (s : Spot) (count : Nat) : (skipSpace (s.skip count)).rest <:+ s.rest :=
  (skipSpace_suffix _).trans (skip_suffix s count)

/-- In a string nothing is wrong but its form. -/
theorem ends_piece (start : Nat) (s : Spot) :
    Ends (fun f => ∃ problem position, f = .malformed problem position) (fun _ => True) (piece start s) := by
  simp only [piece]
  repeat' split
  all_goals first | trivial | exact ⟨_, _, rfl⟩

theorem leaves_pieces (start : Nat) (depth count : Nat) (s : Spot) (read : List Char) :
    Leaves depth s.rest (pieces start count s read) := by
  induction count generalizing s read with
  | zero => trivial
  | succ count ih =>
      rw [pieces]
      cases hpiece : piece start s with
      | error f =>
          obtain ⟨problem, position, rfl⟩ := (ends_piece start s).of_error hpiece
          trivial
      | ok p =>
          cases p with
          | close => exact skip_suffix s 1
          | char c taken => exact (ih (s.skip taken) (c :: read)).of_suffix (skip_suffix s taken)

theorem reads_readString (depth : Nat) : Reads depth readString := fun s => leaves_pieces _ depth _ s []

theorem fraction?_suffix {rest digits after : List Char} (h : fraction? rest = some (digits, after)) :
    after <:+ rest := by
  unfold fraction? at h
  split at h
  · dsimp only at h
    split at h
    · cases h
    · cases h
      exact (List.drop_suffix _ _).trans (List.suffix_cons _ _)
  · cases h

/-- An exponent behind its mark and its sign. -/
def unsignedExponent? (negative : Bool) (rest : List Char) : Option ((Bool × List Char) × List Char) :=
  let digits := rest.takeWhile Char.isDigit
  if digits.isEmpty then none else some ((negative, digits), rest.drop digits.length)

theorem unsignedExponent?_suffix {negative : Bool} {rest after : List Char} {e : Bool × List Char}
    (h : unsignedExponent? negative rest = some (e, after)) : after <:+ rest := by
  rw [unsignedExponent?] at h
  split at h
  · cases h
  · cases h
    exact List.drop_suffix _ _

theorem exponent?_suffix {rest after : List Char} {e : Bool × List Char} (h : exponent? rest = some (e, after)) :
    after <:+ rest := by
  rcases rest with _ | ⟨c, more⟩
  · cases h
  refine List.IsSuffix.trans ?_ (List.suffix_cons c more)
  by_cases hmark : (c = 'e' || c = 'E') = true
  · obtain ⟨negative, digits, hdigits, h⟩ : ∃ negative digits, digits <:+ more ∧
        unsignedExponent? negative digits = some (e, after) := by
      by_cases hminus : ∃ digits, more = '-' :: digits
      · obtain ⟨digits, rfl⟩ := hminus
        exact ⟨true, digits, List.suffix_cons _ _, by rw [← h, exponent?, if_pos hmark]; rfl⟩
      by_cases hplus : ∃ digits, more = '+' :: digits
      · obtain ⟨digits, rfl⟩ := hplus
        exact ⟨false, digits, List.suffix_cons _ _, by rw [← h, exponent?, if_pos hmark]; rfl⟩
      · refine ⟨false, more, List.suffix_rfl, ?_⟩
        rw [← h, exponent?, if_pos hmark]
        · rfl
        · exact fun digits heq => hminus ⟨digits, heq⟩
        · exact fun digits heq => hplus ⟨digits, heq⟩
    exact (unsignedExponent?_suffix h).trans hdigits
  · simp [exponent?, hmark] at h

/-- A numeral behind its sign. -/
def unsignedNumeral? (negative : Bool) (unsigned : List Char) : Option (Numeral × List Char) :=
  let digits := unsigned.takeWhile Char.isDigit
  let whole := if digits.head? = some '0' then ['0'] else digits
  if whole.isEmpty then none
  else
    let rest := unsigned.drop whole.length
    let (fraction, rest) := match fraction? rest with
      | some (digits, rest) => (some digits, rest)
      | none => (none, rest)
    let (exponent, rest) := match exponent? rest with
      | some (e, rest) => (some e, rest)
      | none => (none, rest)
    some (⟨negative, whole, fraction, exponent⟩, rest)

theorem unsignedNumeral?_infix {negative : Bool} {unsigned rest : List Char} {n : Numeral}
    (h : unsignedNumeral? negative unsigned = some (n, rest)) :
    n.whole <+: unsigned.takeWhile Char.isDigit ∧ rest <:+ unsigned := by
  have hwhole : (if (unsigned.takeWhile Char.isDigit).head? = some '0' then ['0']
      else unsigned.takeWhile Char.isDigit) <+: unsigned.takeWhile Char.isDigit := by
    split
    case isTrue hzero =>
      obtain ⟨more, hmore⟩ := List.head?_eq_some_iff.mp hzero
      exact ⟨more, hmore.symm⟩
    case isFalse => exact List.prefix_rfl
  have hfraction : ∀ after, (match fraction? after with
      | some (digits, rest) => (some digits, rest)
      | none => (none, after)).2 <:+ after := by
    intro after
    split
    case h_1 hfraction => exact fraction?_suffix hfraction
    case h_2 => exact List.suffix_rfl
  have hexponent : ∀ after, (match exponent? after with
      | some (e, rest) => (some e, rest)
      | none => (none, after)).2 <:+ after := by
    intro after
    split
    case h_1 hexponent => exact exponent?_suffix hexponent
    case h_2 => exact List.suffix_rfl
  simp only [unsignedNumeral?] at h
  generalize (if (unsigned.takeWhile Char.isDigit).head? = some '0' then ['0']
    else unsigned.takeWhile Char.isDigit) = whole at h hwhole
  split at h
  · cases h
  · obtain ⟨rfl, rfl⟩ := Prod.mk.inj (Option.some.inj h)
    exact ⟨hwhole, ((hexponent _).trans (hfraction _)).trans (List.drop_suffix _ _)⟩

/-- The whole digits of a numeral stand at its start, and what follows it is the end of the text. -/
theorem numeral?_infix {text rest : List Char} {n : Numeral} (h : numeral? text = some (n, rest)) :
    n.whole <:+: text ∧ (∀ c ∈ n.whole, c.isDigit = true) ∧ rest <:+ text := by
  obtain ⟨negative, unsigned, hunsigned, h⟩ : ∃ negative unsigned, unsigned <:+ text ∧
      unsignedNumeral? negative unsigned = some (n, rest) := by
    by_cases hminus : ∃ more, text = '-' :: more
    · obtain ⟨more, rfl⟩ := hminus
      exact ⟨true, more, List.suffix_cons _ _, h⟩
    · refine ⟨false, text, List.suffix_rfl, ?_⟩
      rw [← h, numeral?]
      · rfl
      · exact fun more heq => hminus ⟨more, heq⟩
  obtain ⟨hwhole, hrest⟩ := unsignedNumeral?_infix h
  exact ⟨(hwhole.trans (List.takeWhile_prefix _)).isInfix.trans hunsigned.isInfix,
    fun c hc => List.mem_takeWhile_imp (hwhole.subset hc), hrest.trans hunsigned⟩

theorem reads_readScalar (depth : Nat) : Reads depth readScalar := by
  intro s
  rw [readScalar]
  cases word? s.rest with
  | some found => exact skip_suffix s _
  | none =>
      cases hnumeral : numeral? s.rest with
      | none => trivial
      | some found =>
          obtain ⟨n, rest⟩ := found
          obtain ⟨hwhole, hdigits, hrest⟩ := numeral?_infix hnumeral
          dsimp only
          cases hvalue : n.value with
          | ok v => exact hrest
          | error f =>
              obtain ⟨hlong, rfl⟩ : digitLimit < n.whole.length ∧ f = .tooManyDigits n.whole.length := by
                unfold Numeral.value at hvalue
                split at hvalue
                · split at hvalue
                  case isTrue hlong => exact ⟨hlong, (Except.error.inj hvalue).symm⟩
                  case isFalse => cases hvalue
                · cases hvalue
              exact ⟨hlong, n.whole, hwhole, rfl, hdigits⟩

theorem leaves_readItems {read : Spot → Except Fault (Value × Spot)} (hread : Reads depth read) (count : Nat) (s : Spot)
    (items : List Value) : Leaves depth s.rest (readItems read count s items) := by
  induction count generalizing s items with
  | zero => trivial
  | succ count ih =>
      rw [readItems]
      cases hitem : read s with
      | error f => exact (hread s).of_error hitem
      | ok r =>
          obtain ⟨v, after⟩ := r
          have hafter : (skipSpace after).rest <:+ s.rest :=
            (skipSpace_suffix after).trans ((hread s).of_ok hitem)
          dsimp only
          split
          · exact (skip_suffix _ 1).trans hafter
          · have hnext : (skipSpace ((skipSpace after).skip 1)).rest <:+ s.rest :=
              (skipSpace_skip_suffix _ 1).trans hafter
            exact (ih _ _).of_suffix hnext
          · trivial

theorem leaves_readMembers {read : Spot → Except Fault (Value × Spot)} (hread : Reads depth read) (count : Nat)
    (s : Spot) (entries : Entries) : Leaves depth s.rest (readMembers read count s entries) := by
  induction count generalizing s entries with
  | zero => trivial
  | succ count ih =>
      rw [readMembers]
      split
      · cases hname : readString (s.skip 1) with
        | error f => exact ((reads_readString depth _).of_error hname).of_suffix (skip_suffix s 1)
        | ok r =>
            obtain ⟨name, named⟩ := r
            have hnamed : (skipSpace named).rest <:+ s.rest :=
              (skipSpace_suffix named).trans (((reads_readString depth _).of_ok hname).trans (skip_suffix s 1))
            dsimp only
            split
            · have hvalue : (skipSpace ((skipSpace named).skip 1)).rest <:+ s.rest :=
                (skipSpace_skip_suffix _ 1).trans hnamed
              cases hread' : read (skipSpace ((skipSpace named).skip 1)) with
              | error f => exact ((hread _).of_error hread').of_suffix hvalue
              | ok r =>
                  obtain ⟨v, after⟩ := r
                  have hafter : (skipSpace after).rest <:+ s.rest :=
                    (skipSpace_suffix after).trans (((hread _).of_ok hread').trans hvalue)
                  dsimp only
                  split
                  · exact (skip_suffix _ 1).trans hafter
                  · have hnext : (skipSpace ((skipSpace after).skip 1)).rest <:+ s.rest :=
                      (skipSpace_skip_suffix _ 1).trans hafter
                    exact (ih _ _).of_suffix hnext
                  · trivial
            · trivial
      · trivial

/-- What follows an opening mark, after white space. -/
theorem skipSpace_open_suffix {c : Char} {more : List Char} (h : s.rest = c :: more) :
    (skipSpace (s.skip 1)).rest <:+ more := by
  refine (skipSpace_suffix _).trans ?_
  rw [Spot.skip, h]
  exact List.suffix_rfl

theorem leaves_readText (depth : Nat) (s : Spot) : Leaves depth s.rest
    (match readString (s.skip 1) with
      | .error e => .error e
      | .ok (text, s) => .ok (Value.str text, s)) := by
  cases htext : readString (s.skip 1) with
  | error f => exact ((reads_readString depth _).of_error htext).of_suffix (skip_suffix s 1)
  | ok r => exact ((reads_readString depth _).of_ok htext).trans (skip_suffix s 1)

/-- **What is wrong with a value is to be seen in its text.** Behind each opening mark one level less is left. -/
theorem reads_readValue (depth : Nat) : Reads depth (readValue depth) := by
  induction depth with
  | zero =>
      intro s
      rw [readValue]
      split
      · exact leaves_readText 0 s
      case h_2 hopen => simp [Leaves, Ends, Blames, hopen, opens]
      case h_3 hopen => simp [Leaves, Ends, Blames, hopen, opens]
      · exact reads_readScalar 0 s
  | succ depth ih =>
      intro s
      rw [readValue]
      split
      · exact leaves_readText (depth + 1) s
      case h_2 more hopen =>
        have hinside := skipSpace_open_suffix hopen
        dsimp only
        split
        · exact (skip_suffix _ 1).trans (hinside.trans (hopen ▸ List.suffix_cons _ _))
        · exact ((leaves_readItems ih _ _ []).of_suffix hinside).of_inside hopen rfl
      case h_3 more hopen =>
        have hinside := skipSpace_open_suffix hopen
        dsimp only
        split
        · exact (skip_suffix _ 1).trans (hinside.trans (hopen ▸ List.suffix_cons _ _))
        · exact ((leaves_readMembers ih _ _ []).of_suffix hinside).of_inside hopen rfl
      · exact reads_readScalar (depth + 1) s

/-- **What is wrong with a text that is not JSON is to be seen in it.** -/
theorem blames_of_read {text : List Char} {f : Fault} (h : read text = .error f) : Blames depthLimit text f := by
  unfold read at h
  split at h
  · cases h
    trivial
  · have hstart : (skipSpace ⟨0, text⟩).rest <:+ text := skipSpace_suffix _
    cases hvalue : readValue depthLimit (skipSpace ⟨0, text⟩) with
    | error f' =>
        rw [hvalue] at h
        obtain rfl : f' = f := Except.error.inj h
        exact ((reads_readValue _ _).of_error hvalue).of_suffix hstart
    | ok r =>
        rw [hvalue] at h
        dsimp only at h
        split at h
        · cases h
        · cases h
          trivial

end Readers

end Json

end Runbook
