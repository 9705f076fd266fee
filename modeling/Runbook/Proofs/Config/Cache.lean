import Mathlib.Data.List.Induction
import Runbook.Config.Basic
import Runbook.Proofs.Store.Resolved

/-!
# What the cache of configurations remembers

Files are written and deleted, another file is selected, the cache is cleared, and
configurations are loaded, in any order. What the cache holds for a resolved path is what the
earliest load of it that succeeded since the cache was last cleared found at its own path
(`World.remembers_run`); no load of another path and no load that fails has a part in it
(`World.answer_without`). Main statement: `World.load_run`.
-/

namespace Runbook.Config

/-! ## Histories -/

/-- A load of a configuration, for all of it or for a part. -/
inductive Load where
  | whole (asked : Option String)
  | compiler
  | logging
  | part (dotted : String)

namespace Load

/-- The path that is asked for. For a part of the configuration none is. -/
def asked : Load → Option String
  | whole asked => asked
  | compiler | logging | part _ => none

/-- What is taken from the configuration. -/
def take : Load → Value → Value
  | whole _, v => v
  | compiler, v => .map (compilerSettings v)
  | logging, v => .map (loggingSettings v)
  | part dotted, v => .map (sectionAt v dotted)

end Load

inductive Act where
  | write (p : Path) (bytes : List UInt8)
  | delete (p : Path)
  | select (path : Option String)
  | clear
  | load (l : Load)

/-- The files, and the cache over them. -/
structure World where
  config : Config
  store : Store

namespace World

/-- A world in which nothing was loaded. -/
def ofSelected (selected : Option String) (store : Store) : World := ⟨.ofSelected selected, store⟩

def path (w : World) (l : Load) : Path := w.config.path l.asked

/-- What the cache knows a load by. -/
def key (w : World) (l : Load) : Path := (w.path l).resolved

def cached (w : World) (key : Path) : Option Value := w.config.cache.lookup key

/-- The configuration that a load finds. -/
def loaded (w : World) (l : Load) : Except Fault Value := (w.config.load w.store l.asked).1

/-- What a load answers. -/
def answer (w : World) (l : Load) : Except Fault Value := (w.loaded l).map l.take

/-- A file that cannot be written is left as it is. -/
def step (w : World) : Act → World
  | .write p bytes => match w.store.write p bytes with
    | .ok store => { w with store := store }
    | .error _ => w
  | .delete p => { w with store := w.store.delete p }
  | .select path => { w with config := { w.config with selected := path } }
  | .clear => { w with config := w.config.clear }
  | .load l => { w with config := (w.config.load w.store l.asked).2 }

def run (w : World) (acts : List Act) : World := acts.foldl step w

theorem run_append (w : World) (acts more : List Act) : w.run (acts ++ more) = (w.run acts).run more :=
  List.foldl_append

/-! ## Steps -/

section Steps

variable {w : World} {l : Load} {key : Path} {a : Act}

/-- A world that remembers what was found. -/
def remember (w : World) (key : Path) (v : Value) : World :=
  { w with config := { w.config with cache := (key, v) :: w.config.cache } }

/-- What a load can do: it finds what is cached, it fails on the file, or it remembers what the file says. -/
theorem load_cases (w : World) (l : Load) :
    (∃ v, w.cached (w.key l) = some v ∧ w.loaded l = .ok v ∧ w.step (.load l) = w) ∨
    (∃ f, w.cached (w.key l) = none ∧ readFile w.store (w.path l) = .error f ∧ w.loaded l = .error f ∧
      w.step (.load l) = w) ∨
    (∃ v, w.cached (w.key l) = none ∧ readFile w.store (w.path l) = .ok v ∧ w.loaded l = .ok v ∧
      w.step (.load l) = w.remember (w.key l) v) := by
  cases hcached : w.config.cache.lookup (w.config.path l.asked).resolved with
  | some v =>
      exact .inl ⟨v, hcached, by simp only [loaded, Config.load, hcached], by simp only [step, Config.load, hcached]⟩
  | none =>
      cases hread : readFile w.store (w.config.path l.asked) with
      | error f =>
          exact .inr (.inl ⟨f, hcached, hread, by simp only [loaded, Config.load, hcached, hread],
            by simp only [step, Config.load, hcached, hread]⟩)
      | ok v =>
          exact .inr (.inr ⟨v, hcached, hread, by simp only [loaded, Config.load, hcached, hread],
            by simp only [step, Config.load, hcached, hread, remember, World.key, path]⟩)

/-- A load finds what is cached, and else what the file says. -/
theorem loaded_eq (w : World) (l : Load) : w.loaded l =
    match w.cached (w.key l) with
    | some v => .ok v
    | none => readFile w.store (w.path l) := by
  obtain ⟨v, hcached, hloaded, -⟩ | ⟨f, hcached, hread, hloaded, -⟩ | ⟨v, hcached, hread, hloaded, -⟩ := load_cases w l
  · rw [hcached, hloaded]
  · rw [hcached, hloaded, hread]
  · rw [hcached, hloaded, hread]

theorem cached_remember (w : World) (found key : Path) (v : Value) :
    (w.remember found v).cached key = if key = found then some v else w.cached key := by
  rw [cached, remember, List.lookup_cons]
  by_cases heq : key = found
  · rw [if_pos heq, beq_iff_eq.mpr heq]
  · rw [if_neg heq, beq_false_of_ne heq, cached]

/-- What a load finds is cached, and nothing else is. -/
theorem cached_load (w : World) (l : Load) (key : Path) :
    (w.step (.load l)).cached key = if key = w.key l then (w.loaded l).toOption else w.cached key := by
  obtain ⟨v, hcached, hloaded, hstep⟩ | ⟨f, hcached, -, hloaded, hstep⟩ | ⟨v, -, -, hloaded, hstep⟩ := load_cases w l
  · rw [hstep, hloaded]
    split
    case isTrue heq => exact heq ▸ hcached
    case isFalse => rfl
  · rw [hstep, hloaded]
    split
    case isTrue heq => exact heq ▸ hcached
    case isFalse => rfl
  · rw [hstep, hloaded, cached_remember]
    rfl

theorem selected_load (w : World) (l : Load) : (w.step (.load l)).config.selected = w.config.selected := by
  obtain ⟨v, -, -, hstep⟩ | ⟨f, -, -, -, hstep⟩ | ⟨v, -, -, -, hstep⟩ := load_cases w l <;> rw [hstep]
  rfl

/-- A load that fails leaves everything as it is. -/
theorem step_of_error {f : Fault} (h : w.loaded l = .error f) : w.step (.load l) = w := by
  obtain ⟨v, -, hloaded, -⟩ | ⟨f, -, -, -, hstep⟩ | ⟨v, -, -, hloaded, -⟩ := load_cases w l
  · exact absurd (h.symm.trans hloaded) (by simp)
  · exact hstep
  · exact absurd (h.symm.trans hloaded) (by simp)

/-- The cache is left as it is by all but loads and clearing. -/
theorem cached_step (hclear : a ≠ .clear) (hload : ∀ l, a ≠ .load l) (key : Path) :
    (w.step a).cached key = w.cached key := by
  cases a with
  | write p bytes => rw [step]; split <;> rfl
  | delete | select => rfl
  | clear => exact absurd rfl hclear
  | load l => exact absurd rfl (hload l)

end Steps

/-! ## The earliest load -/

/-- Among acts, a load of a key that succeeds, after which the cache is not cleared. -/
structure Succeeds (start : World) (acts : List Act) (key : Path) (earlier : List Act) (l : Load)
    (later : List Act) : Prop where
  split : acts = earlier ++ .load l :: later
  kept : .clear ∉ later
  keyed : (start.run earlier).key l = key
  loaded : ∃ v, (start.run earlier).loaded l = .ok v

/-- The earliest such load. -/
structure Earliest (start : World) (acts : List Act) (key : Path) (earlier : List Act) (l : Load)
    (later : List Act) : Prop extends Succeeds start acts key earlier l later where
  earliest : ∀ earlier' l' later', Succeeds start acts key earlier' l' later' → earlier.length ≤ earlier'.length

section Runs

variable {start : World} {acts earlier later : List Act} {a : Act} {l : Load} {key : Path}

theorem run_concat (start : World) (acts : List Act) (a : Act) : start.run (acts ++ [a]) = (start.run acts).step a :=
  run_append start acts [a]

/-- A load that succeeds is the last act, or it succeeds among the acts before, which clear nothing. -/
theorem succeeds_concat_iff : Succeeds start (acts ++ [a]) key earlier l later ↔
    (a = .load l ∧ earlier = acts ∧ later = [] ∧ (start.run acts).key l = key ∧
      ∃ v, (start.run acts).loaded l = .ok v) ∨
    (a ≠ .clear ∧ ∃ before, later = before ++ [a] ∧ Succeeds start acts key earlier l before) := by
  constructor
  · rintro ⟨hsplit, hkept, hkey, hloaded⟩
    rcases List.eq_nil_or_concat' later with rfl | ⟨before, last, rfl⟩
    · obtain ⟨rfl, hlast⟩ := List.append_inj' hsplit rfl
      obtain rfl : a = .load l := List.singleton_inj.mp hlast
      exact .inl ⟨rfl, rfl, rfl, hkey, hloaded⟩
    · rw [← List.cons_append, ← List.append_assoc] at hsplit
      obtain ⟨hbefore, hlast⟩ := List.append_inj' hsplit rfl
      obtain rfl : a = last := List.singleton_inj.mp hlast
      have hmem : a ∈ before ++ [a] := by simp
      exact .inr ⟨fun hclear => hkept (hclear ▸ hmem), before, rfl, hbefore,
        fun hclear => hkept (List.mem_append_left _ hclear), hkey, hloaded⟩
  · rintro (⟨rfl, rfl, rfl, hkey, hloaded⟩ | ⟨hclear, before, rfl, hsplit, hkept, hkey, hloaded⟩)
    · exact ⟨rfl, List.not_mem_nil, hkey, hloaded⟩
    · exact ⟨by simp [hsplit], by simp [hkept, Ne.symm hclear], hkey, hloaded⟩

/-- For each key the cache holds what the earliest load of it found, and nothing if there was none. -/
def Remembers (start : World) (acts : List Act) (key : Path) : Prop :=
  match (start.run acts).cached key with
  | some v => ∃ earlier l later, Earliest start acts key earlier l later ∧
      readFile (start.run earlier).store ((start.run earlier).path l) = .ok v
  | none => ∀ earlier l later, ¬Succeeds start acts key earlier l later

/-- An act that leaves what is cached for a key, and is not the first load of it. -/
theorem Remembers.concat (h : Remembers start acts key) (hclear : a ≠ .clear)
    (hcached : ((start.run acts).step a).cached key = (start.run acts).cached key)
    (hnew : (start.run acts).cached key = none → ∀ l, a = .load l → (start.run acts).key l = key →
      ¬∃ v, (start.run acts).loaded l = .ok v) : Remembers start (acts ++ [a]) key := by
  rw [Remembers] at h ⊢
  rw [run_concat, hcached]
  cases hnow : (start.run acts).cached key with
  | some v =>
      rw [hnow] at h
      obtain ⟨earlier, l, later, ⟨hsucceeds, hearliest⟩, hread⟩ := h
      refine ⟨earlier, l, later ++ [a], ⟨succeeds_concat_iff.mpr (.inr ⟨hclear, _, rfl, hsucceeds⟩), ?_⟩, hread⟩
      intro earlier' l' later' hother
      obtain ⟨-, rfl, -⟩ | ⟨-, before, -, hbefore⟩ := succeeds_concat_iff.mp hother
      · simp [hsucceeds.split]
      · exact hearliest _ _ _ hbefore
  | none =>
      rw [hnow] at h
      intro earlier l later hsucceeds
      obtain ⟨ha, -, -, hkey, hloaded⟩ | ⟨-, before, -, hbefore⟩ := succeeds_concat_iff.mp hsucceeds
      · exact hnew hnow l ha hkey hloaded
      · exact h _ _ _ hbefore

/-- **What the cache remembers**, after any acts in a world in which nothing was loaded. -/
theorem remembers_run (selected : Option String) (store : Store) (acts : List Act) (key : Path) :
    Remembers (ofSelected selected store) acts key := by
  induction acts using List.reverseRecOn with
  | nil => exact fun earlier l later h => absurd h.split (by simp)
  | append_singleton acts a ih =>
      by_cases hclear : a = .clear
      · subst hclear
        rw [Remembers, run_concat]
        intro earlier l later hsucceeds
        obtain ⟨ha, -⟩ | ⟨hne, -⟩ := succeeds_concat_iff.mp hsucceeds
        · cases ha
        · exact hne rfl
      by_cases hload : ∃ l, a = .load l
      · obtain ⟨l, rfl⟩ := hload
        obtain ⟨v, hcached, -, hstep⟩ | ⟨f, -, -, hloaded, hstep⟩ | ⟨v, hcached, hread, hloaded, hstep⟩ :=
          load_cases ((ofSelected selected store).run acts) l
        · refine ih.concat hclear (by rw [hstep]) fun hnone l' hl hkey => ?_
          obtain rfl := Act.load.inj hl
          exact absurd (hcached.symm.trans (hkey ▸ hnone)) (by simp)
        · refine ih.concat hclear (by rw [hstep]) fun _ l' hl _ ⟨v, hv⟩ => ?_
          obtain rfl := Act.load.inj hl
          exact absurd (hloaded.symm.trans hv) (by simp)
        · by_cases hkey : ((ofSelected selected store).run acts).key l = key
          · subst hkey
            rw [Remembers, hcached] at ih
            rw [Remembers, run_concat, hstep, cached_remember, if_pos rfl]
            refine ⟨acts, l, [], ⟨succeeds_concat_iff.mpr (.inl ⟨rfl, rfl, rfl, rfl, v, hloaded⟩), ?_⟩, hread⟩
            intro earlier' l' later' hother
            obtain ⟨-, rfl, -⟩ | ⟨-, before, -, hbefore⟩ := succeeds_concat_iff.mp hother
            · exact Nat.le_refl _
            · exact absurd hbefore (ih _ _ _)
          · refine ih.concat hclear (by rw [hstep, cached_remember, if_neg (Ne.symm hkey)]) fun _ l' hl hkey' => ?_
            obtain rfl := Act.load.inj hl
            exact absurd hkey' hkey
      · exact ih.concat hclear (cached_step hclear (fun l hl => hload ⟨l, hl⟩) key) fun _ l hl => absurd ⟨l, hl⟩ hload

end Runs

/-! ## Loads that have no part -/

/-- Two worlds are the same but for what is cached for a key. -/
structure Agree (key : Path) (w w' : World) : Prop where
  store : w.store = w'.store
  selected : w.config.selected = w'.config.selected
  cached : ∀ other, other ≠ key → w.cached other = w'.cached other

section Agree

variable {w w' : World} {key : Path} {l : Load}

theorem Agree.path_eq (h : Agree key w w') (l : Load) : w.path l = w'.path l := by
  rw [path, path, Config.path, Config.path, h.selected]

theorem Agree.key_eq (h : Agree key w w') (l : Load) : w.key l = w'.key l := by
  rw [World.key, World.key, h.path_eq]

theorem Agree.loaded_eq (h : Agree key w w') (hl : w.key l ≠ key) : w.loaded l = w'.loaded l := by
  rw [World.loaded_eq, World.loaded_eq, h.cached _ hl, h.key_eq, h.store, h.path_eq]

theorem Agree.step (h : Agree key w w') (a : Act) : Agree key (w.step a) (w'.step a) := by
  cases a with
  | write p bytes =>
      rw [World.step, World.step, h.store]
      split
      · exact ⟨rfl, h.selected, h.cached⟩
      · exact h
  | delete p => exact ⟨congrArg (Store.delete · p) h.store, h.selected, h.cached⟩
  | select path => exact ⟨h.store, rfl, h.cached⟩
  | clear => exact ⟨h.store, h.selected, fun _ _ => rfl⟩
  | load l =>
      refine ⟨h.store, by rw [selected_load, selected_load, h.selected], fun other hother => ?_⟩
      rw [cached_load, cached_load, ← h.key_eq l]
      split
      case isTrue heq => rw [h.loaded_eq (heq ▸ hother)]
      case isFalse => exact h.cached other hother

theorem Agree.run (h : Agree key w w') (acts : List Act) : Agree key (w.run acts) (w'.run acts) := by
  induction acts generalizing w w' with
  | nil => exact h
  | cons a rest ih => exact ih (h.step a)

/-- A load leaves all but what is cached for its key. -/
theorem agree_load (w : World) (l : Load) : Agree (w.key l) (w.step (.load l)) w where
  store := rfl
  selected := selected_load w l
  cached other hother := by rw [cached_load, if_neg hother]

/-- **A load that fails, and a load of another path, change no answer.** -/
theorem answer_without (start : World) (earlier later : List Act) (l' l : Load)
    (hother : (start.run earlier).key l' ≠ (start.run (earlier ++ .load l' :: later)).key l ∨
      ∃ f, (start.run earlier).loaded l' = .error f) :
    (start.run (earlier ++ later)).answer l = (start.run (earlier ++ .load l' :: later)).answer l := by
  have hwith : start.run (earlier ++ .load l' :: later) = ((start.run earlier).step (.load l')).run later :=
    run_append start earlier _
  rw [hwith] at hother ⊢
  rw [run_append]
  rcases hother with hkey | ⟨f, hfails⟩
  · have hagree := (agree_load (start.run earlier) l').run later
    rw [answer, answer, hagree.loaded_eq (Ne.symm hkey)]
  · rw [step_of_error hfails]

end Agree

/-! ## Loads -/

section Files

variable {s : Store} {p : Path}

/-- A path that can be followed and its resolved form lead to one file. -/
theorem readFile_resolved (hnames : ∀ n ∈ p.names, n ≠ "") {names : List String} (h : s.locate p = .ok names) :
    readFile s p.resolved = readFile s p := by
  rw [readFile, readFile, Store.holds, Store.holds, Store.read, Store.read, Store.entry_resolved hnames h]

/-- A path that cannot be followed leads to no file. -/
theorem readFile_of_lost {f : Store.Fault} (h : s.locate p = .error f) {v : Value} (hread : readFile s p = .ok v) :
    v = .map [] := by
  rw [readFile, Store.holds, Store.entry, h] at hread
  cases f with
  | nameTooLong => cases hread
  | _ => exact (Except.ok.inj hread).symm

end Files

/-- **Loads of configurations.** Whatever happened before, a load that succeeds answers from what the
earliest load of the same resolved path that succeeded since the cache was cleared, this load perhaps, found at
its own path then; and that is what the file at the resolved path said, unless the path led through a folder
that was not there. A load fails only if no such load succeeded, and then it changes nothing. Loads that failed
and loads of other paths have no part in any answer. -/
theorem load_run (selected : Option String) (store : Store) (acts : List Act) (l : Load) :
    let start := ofSelected selected store
    let w := start.run acts
    (∀ u, w.answer l = .ok u → ∃ earlier l' later v, Earliest start (acts ++ [.load l]) (w.key l) earlier l' later ∧
      u = l.take v ∧
      let past := start.run earlier
      readFile past.store (past.path l') = .ok v ∧
      (∀ names, past.store.locate (past.path l') = .ok names → readFile past.store (w.key l) = .ok v) ∧
      (∀ f, past.store.locate (past.path l') = .error f → v = .map [])) ∧
    (∀ f, w.answer l = .error f → (∀ earlier l' later, ¬Succeeds start acts (w.key l) earlier l' later) ∧
      w.step (.load l) = w) ∧
    ∀ earlier l' later, acts = earlier ++ .load l' :: later →
      ((start.run earlier).key l' ≠ w.key l ∨ ∃ f, (start.run earlier).loaded l' = .error f) →
      (start.run (earlier ++ later)).answer l = w.answer l := by
  intro start w
  refine ⟨fun u hu => ?_, fun f hf => ?_, fun earlier l' later hsplit hother => ?_⟩
  · obtain ⟨v, hloaded, rfl⟩ := except_map_eq_ok_iff.mp hu
    have hremembers : Remembers start (acts ++ [.load l]) (w.key l) := remembers_run selected store _ _
    rw [Remembers, run_concat, cached_load, if_pos rfl, hloaded] at hremembers
    obtain ⟨earlier, l', later, hearliest, hread⟩ := hremembers
    refine ⟨earlier, l', later, v, hearliest, rfl, hread, fun names hnames => ?_, fun f hf => readFile_of_lost hf hread⟩
    rw [← hearliest.keyed]
    have hresolved := readFile_resolved (p := (start.run earlier).path l') (fun _ => Path.ne_empty_of_mem_ofText) hnames
    exact hresolved.trans hread
  · have hloaded : w.loaded l = .error f := by
      rw [answer] at hf
      cases hl : w.loaded l with
      | ok v => rw [hl] at hf; cases hf
      | error f' => rw [hl] at hf; exact hf
    refine ⟨?_, step_of_error hloaded⟩
    have hremembers : Remembers start acts (w.key l) := remembers_run selected store _ _
    rw [Remembers] at hremembers
    cases hcached : w.cached (w.key l) with
    | none => rwa [hcached] at hremembers
    | some v =>
        rw [loaded_eq, hcached] at hloaded
        cases hloaded
  · subst hsplit
    exact answer_without start earlier later l' l hother

/-- A folder with one file, which says something. -/
def oneFile : Store := ⟨[(["conf.yaml"], .file (Text.utf8Bytes "a: 1\n"))]⟩

/-- A load of a path through a folder that is not there. Then the path is selected that it is resolved to. -/
def detour : List Act := [.load (.part "b"), .select (some "conf.yaml")]

/-- A file that says something is answered for with nothing, for a load found nothing on a detour to it. -/
theorem load_run_detour :
    let start := ofSelected (some "nodir/../conf.yaml") oneFile
    (∃ v, readFile oneFile (Path.ofText "conf.yaml") = .ok v ∧ v ≠ .map []) ∧
      (start.run detour).answer (.whole none) = .ok (.map []) ∧
      ∃ earlier l later, Earliest start (detour ++ [.load (.whole none)]) ((start.run detour).key (.whole none))
        earlier l later ∧ readFile (start.run earlier).store ((start.run earlier).path l) = .ok (.map []) := by
  intro start
  have hsays : (readFile oneFile (Path.ofText "conf.yaml")).toOption.map Value.isTrue = some true := by decide +kernel
  have hanswer : ((ofSelected (some "nodir/../conf.yaml") oneFile).run detour).answer (.whole none) = .ok (.map []) :=
    rfl
  refine ⟨?_, hanswer, ?_⟩
  · cases hread : readFile oneFile (Path.ofText "conf.yaml") with
    | error f => rw [hread] at hsays; cases hsays
    | ok v =>
        rw [hread] at hsays
        refine ⟨v, rfl, ?_⟩
        rintro rfl
        cases hsays
  · obtain ⟨earlier, l, later, v, hearliest, rfl, hread, -⟩ := (load_run _ oneFile detour (.whole none)).1 _ hanswer
    exact ⟨earlier, l, later, hearliest, hread⟩

end World

end Runbook.Config
