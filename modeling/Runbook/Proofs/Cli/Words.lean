import Mathlib.Data.List.Nodup
import Runbook.Cli.Command
import Runbook.Proofs.Text.Span

/-!
# Words that spell switches

A command line is spelled from switches by their long names, with a value behind or in the same
word where they take one, and from other words in between (`Spells`). Words that are spelled so
are read as what they spell (`Spells.read_eq`).
-/

namespace Runbook.Cli

/-! ## Words -/

/-- Words that spell the switches and the other words of a command. -/
inductive Spells (switches : List Switch) : List String → Words → Prop
  | nil : Spells switches [] ⟨[], []⟩
  | dashes (others : List String) : Spells switches ("--" :: others) ⟨[], others⟩
  | flag {s : Switch} {words : List String} {w : Words} (hs : s ∈ switches) (hflag : s.takesValue = false)
      (h : Spells switches words w) : Spells switches (s.long :: words) (w.add [(s, "")])
  | behind {s : Switch} {words : List String} {w : Words} (hs : s ∈ switches) (htakes : s.takesValue = true)
      (v : String) (h : Spells switches words w) : Spells switches (s.long :: v :: words) (w.add [(s, v)])
  | attached {s : Switch} {words : List String} {w : Words} (hs : s ∈ switches) (htakes : s.takesValue = true)
      (v : String) (h : Spells switches words w) :
      Spells switches ((s.long ++ "=" ++ v) :: words) (w.add [(s, v)])
  | other {word : String} {words : List String} {w : Words} (hplain : word = "-" ∨ word.toList.head? ≠ some '-')
      (h : Spells switches words w) : Spells switches (word :: words) { w with others := word :: w.others }

/-- Long names tell switches apart, and have two dashes in front and no equals sign. -/
def LongNames (switches : List Switch) : Prop :=
  (switches.map Switch.long).Nodup ∧
    ∀ s ∈ switches, ['-', '-'].isPrefixOf s.long.toList = true ∧ '=' ∉ s.long.toList ∧ s.long ≠ "--"

instance (switches : List Switch) : Decidable (LongNames switches) := inferInstanceAs (Decidable (_ ∧ _))

theorem Command.longNames (c : Command) : LongNames c.switches := by cases c <;> decide

namespace Words

variable {switches : List Switch} {s : Switch} {words : List String} {w : Words}

/-- A text is split at its first equals sign. -/
theorem splitEquals_append {name : List Char} (hname : '=' ∉ name) (value : List Char) :
    splitEquals (name ++ '=' :: value) = (name, some value) := by
  have hbefore : (name ++ '=' :: value).takeWhile (· != '=') = name :=
    Text.takeWhile_append (fun c hc => by simpa using fun h : c = '=' => hname (h ▸ hc)) (Text.stops_cons (by decide) _)
  rw [splitEquals, hbefore, List.drop_left]

theorem splitEquals_of_not_mem {name : List Char} (hname : '=' ∉ name) : splitEquals name = (name, none) := by
  have hbefore : name.takeWhile (· != '=') = name :=
    List.takeWhile_eq_self_iff.mpr fun c hc => by simpa using fun h : c = '=' => hname (h ▸ hc)
  rw [splitEquals, hbefore, List.drop_length]

theorem find?_long (hnames : LongNames switches) (hs : s ∈ switches) :
    switches.find? (·.long == s.long) = some s := by
  cases hfind : switches.find? (·.long == s.long) with
  | none => exact absurd (List.find?_eq_none.mp hfind s hs) (by simp)
  | some t =>
      have hlong : t.long = s.long := by simpa using List.find?_some hfind
      rw [List.inj_on_of_nodup_map hnames.1 (List.mem_of_find?_eq_some hfind) hs hlong]

/-- A word that is the long name of a switch. -/
theorem readWord_long (hnames : LongNames switches) (hs : s ∈ switches) :
    readWord switches s.long.toList =
      .ok (if s.takesValue then ⟨[], some (s, s.long)⟩ else ⟨[(s, "")], none⟩) := by
  rw [readWord, splitEquals_of_not_mem (hnames.2 s hs).2.1]
  simp only [String.ofList_toList, find?_long hnames hs]
  cases s.takesValue <;> rfl

/-- A word with a switch and its value. -/
theorem readWord_attached (hnames : LongNames switches) (hs : s ∈ switches) (htakes : s.takesValue = true)
    (v : String) : readWord switches (s.long ++ "=" ++ v).toList = .ok ⟨[(s, v)], none⟩ := by
  have hword : (s.long ++ "=" ++ v).toList = s.long.toList ++ '=' :: v.toList := by simp
  rw [readWord, hword, splitEquals_append (hnames.2 s hs).2.1]
  simp only [String.ofList_toList, find?_long hnames hs, htakes]

theorem exists_long (hnames : LongNames switches) (hs : s ∈ switches) :
    ∃ c rest, s.long.toList = '-' :: '-' :: c :: rest := by
  obtain ⟨hdashes, -, hne⟩ := hnames.2 s hs
  obtain ⟨rest, hrest⟩ := List.isPrefixOf_iff_prefix.mp hdashes
  cases rest with
  | nil => exact absurd (String.toList_inj.mp (hrest.symm.trans rfl)) hne
  | cons c rest => exact ⟨c, rest, hrest.symm⟩

/-- A word that starts with a long name is read as a switch. -/
theorem startsSwitch (hnames : LongNames switches) (hs : s ∈ switches) {word : String} {more : List Char}
    (hword : word.toList = s.long.toList ++ more) :
    word ≠ "--" ∧ (['-'].isPrefixOf word.toList && word != "-") = true := by
  obtain ⟨c, rest, hlong⟩ := exists_long hnames hs
  rw [hlong] at hword
  have hne : ∀ other : String, other.toList.length ≤ 2 → word ≠ other := by
    rintro other hother rfl
    rw [hword] at hother
    simp at hother
  refine ⟨hne _ (by decide), ?_⟩
  rw [hword, bne_iff_ne.mpr (hne "-" (by decide))]
  rfl

end Words

/-- **Words are read as what they spell.** -/
theorem Spells.read_eq {switches : List Switch} {words : List String} {w : Words} (hnames : LongNames switches)
    (h : Spells switches words w) : Words.read switches true words = .ok w := by
  induction h with
  | nil => rfl
  | dashes others => rw [Words.read, if_pos rfl]
  | flag hs hflag h ih =>
      obtain ⟨hne, hswitch⟩ := Words.startsSwitch hnames hs (List.append_nil _).symm
      rw [Words.read, if_neg hne, if_pos hswitch, Words.readWord_long hnames hs, hflag, ih]
      rfl
  | behind hs htakes v h ih =>
      obtain ⟨hne, hswitch⟩ := Words.startsSwitch hnames hs (List.append_nil _).symm
      rw [Words.read, if_neg hne, if_pos hswitch, Words.readWord_long hnames hs, htakes]
      simp only [if_true, ih]
      rfl
  | @attached s words w hs htakes v h ih =>
      have hword : (s.long ++ "=" ++ v).toList = s.long.toList ++ '=' :: v.toList := by simp
      obtain ⟨hne, hswitch⟩ := Words.startsSwitch hnames hs hword
      rw [Words.read, if_neg hne, if_pos hswitch, Words.readWord_attached hnames hs htakes, ih]
      rfl
  | @other word words w hplain h ih =>
      have hne : word ≠ "--" := by
        rintro rfl
        exact absurd hplain (by decide)
      have hswitch : ¬(['-'].isPrefixOf word.toList && word != "-") = true := by
        rcases hplain with rfl | hhead
        · decide
        · cases hchars : word.toList with
          | nil => simp
          | cons c rest =>
              rw [hchars] at hhead
              simp only [List.head?_cons, ne_eq, Option.some.injEq] at hhead
              simp [Ne.symm hhead]
      rw [Words.read, if_neg hne, if_neg hswitch, if_pos rfl, ih]
      rfl

end Runbook.Cli
