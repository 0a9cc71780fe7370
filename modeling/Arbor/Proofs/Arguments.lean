import Arbor.Command.Options
import Mathlib.Data.List.Basic
import Mathlib.Tactic.Lemma
import Mathlib.Tactic.SplitIfs

/-!
# What the arguments of a command say

Arguments spell out settings, one after the other: flags, and values of options
(`Command.Spells`).  Reading them collects the settings (`Command.spells_of_parse?`): the files and
folders of a command are the values of those options in the order of the arguments, and what may be
given only once is the one value that is given.
-/

namespace Arbor.Command

/-- What an argument says: a flag is set, or an option has a value. -/
inductive Setting where
  | flag (s : Switch)
  | value (s : Switch) (v : String)
  deriving DecidableEq

namespace Setting

/-- Take in a setting. -/
def takeIn? (o : Options) : Setting → Option Options
  | flag s => setFlag? o s
  | value s v => setValue? o s v

/-- The value of a setting, if it is one of the given option. -/
def valueOf? (s : Switch) : Setting → Option String
  | flag _ => none
  | value s' v => if s' = s then some v else none

end Setting

/-- Letters of options that share an argument.  The last option may have a value, which is the rest
of the argument, or else the next argument. -/
inductive Letters : List Char → List Setting → Option Switch → Prop where
  | nil : Letters [] [] none
  | flag {s : Switch} {c : Char} {cs : List Char} {settings : List Setting} {next : Option Switch}
      (hletter : s.letter? = some c) (htakes : s.takesValue = false)
      (hrest : Letters cs settings next) : Letters (c :: cs) (.flag s :: settings) next
  | await {s : Switch} {c : Char} (hletter : s.letter? = some c) (htakes : s.takesValue = true) :
      Letters [c] [] (some s)
  | equals {s : Switch} {c : Char} {v : List Char} (hletter : s.letter? = some c)
      (htakes : s.takesValue = true) : Letters (c :: '=' :: v) [.value s (String.ofList v)] none
  | joined {s : Switch} {c d : Char} {v : List Char} (hletter : s.letter? = some c)
      (htakes : s.takesValue = true) (hd : d ≠ '=') :
      Letters (c :: d :: v) [.value s (String.ofList (d :: v))] none

/-- What an argument says, and the option whose value is the next argument. -/
inductive Argument : String → List Setting → Option Switch → Prop where
  | flag {s : Switch} (htakes : s.takesValue = false) : Argument ("--" ++ s.name) [.flag s] none
  | await {s : Switch} (htakes : s.takesValue = true) : Argument ("--" ++ s.name) [] (some s)
  | equals {s : Switch} {v : String} : Argument ("--" ++ s.name ++ "=" ++ v) [.value s v] none
  | letters {cs : List Char} {settings : List Setting} {next : Option Switch} (hcs : cs ≠ [])
      (h : Letters cs settings next) : Argument (String.ofList ('-' :: cs)) settings next

/-- What arguments say, in their order.  Nothing may come behind two dashes. -/
inductive Spells : List String → List Setting → Prop where
  | nil : Spells [] []
  | dashes : Spells ["--"] []
  | argument {arg : String} {args : List String} {said settings : List Setting}
      (harg : Argument arg said none) (hargs : Spells args settings) :
      Spells (arg :: args) (said ++ settings)
  | value {arg v : String} {args : List String} {said settings : List Setting} {s : Switch}
      (harg : Argument arg said (some s)) (hvalue : isValue v) (hargs : Spells args settings) :
      Spells (arg :: v :: args) (said ++ .value s v :: settings)

/-- A step of reading takes in what an argument says, or grants a request that is no conversion. -/
def Step.TakesIn (o : Options) (Says : List Setting → Option Switch → Prop) : Step → Prop
  | proceed o' => ∃ said, Says said none ∧ said.foldlM Setting.takeIn? o = some o'
  | await o' s => ∃ said, Says said (some s) ∧ said.foldlM Setting.takeIn? o = some o'
  | grant request => request = .version ∨ request = .help

/-- What a step takes in can be said in another way, from other options on, as long as it comes to
the same. -/
lemma Step.TakesIn.imp {o o' : Options} {step : Step}
    {Says Says' : List Setting → Option Switch → Prop} (h : step.TakesIn o' Says)
    (himp : ∀ {said next}, Says said next → ∃ said', Says' said' next ∧
      said'.foldlM Setting.takeIn? o = said.foldlM Setting.takeIn? o') :
    step.TakesIn o Says' := by
  rcases step with o'' | ⟨o'', s⟩ | request
  · obtain ⟨said, hsaid, hfold⟩ := h
    obtain ⟨said', hsaid', hsame⟩ := himp hsaid
    exact ⟨said', hsaid', hsame.trans hfold⟩
  · obtain ⟨said, hsaid, hfold⟩ := h
    obtain ⟨said', hsaid', hsame⟩ := himp hsaid
    exact ⟨said', hsaid', hsame.trans hfold⟩
  · exact h

/-- A switch that is found by a name has that name. -/
lemma Switch.name_of_ofName? {name : String} {s : Switch} (h : Switch.ofName? name = some s) :
    s.name = name := by
  simpa using List.find?_some h

/-- A switch that is found by a letter has that letter. -/
lemma Switch.letter?_of_ofLetter? {c : Char} {s : Switch} (h : Switch.ofLetter? c = some s) :
    s.letter? = some c := by
  simpa using List.find?_some h

/-- The first letter of a cluster decides whether what follows is a value or more letters. -/
lemma readLetters?_cons (o : Options) (c : Char) (rest : List Char) :
    readLetters? o (c :: rest) = (Switch.ofLetter? c).bind fun s =>
      if s = .version then some (.grant .version)
      else if s = .help then some (.grant .help)
      else if s.takesValue then
        match rest with
        | [] => some (.await o s)
        | '=' :: v => (setValue? o s (String.ofList v)).map .proceed
        | v => (setValue? o s (String.ofList v)).map .proceed
      else (setFlag? o s).bind fun o => readLetters? o rest := by
  rw [readLetters?]
  rcases Switch.ofLetter? c with _ | s
  · rfl
  · cases s <;> rfl

/-- A long switch is read with the value behind its equality sign, if there is one. -/
lemma readLong?_eq (o : Options) (name : String) (value? : Option String) :
    readLong? o name value? = (Switch.ofName? name).bind fun s =>
      match value? with
      | some v => (setValue? o s v).map .proceed
      | none =>
        if s = .version then some (.grant .version)
        else if s = .help then some (.grant .help)
        else if s.takesValue then some (.await o s)
        else (setFlag? o s).map .proceed := by
  rw [readLong?]
  rcases Switch.ofName? name with _ | s
  · rfl
  · cases value? <;> cases s <;> rfl

/-- Settings are taken in one after the other. -/
lemma foldlM_takeIn?_cons {o o' : Options} {x : Setting} {said : List Setting}
    (hx : Setting.takeIn? o x = some o') :
    (x :: said).foldlM Setting.takeIn? o = said.foldlM Setting.takeIn? o' := by
  rw [List.foldlM_cons, hx]
  rfl

/-- Letters are read as what they say. -/
lemma takesIn_of_readLetters? {o : Options} {cs : List Char} {step : Step}
    (h : readLetters? o cs = some step) : step.TakesIn o (Letters cs) := by
  induction cs generalizing o with
  | nil =>
    cases h
    exact ⟨[], .nil, rfl⟩
  | cons c cs ih =>
    rw [readLetters?_cons] at h
    obtain ⟨s, hs, h⟩ := Option.bind_eq_some_iff.mp h
    have hletter := Switch.letter?_of_ofLetter? hs
    split_ifs at h with hversion hhelp htakes
    · cases h
      exact .inl rfl
    · cases h
      exact .inr rfl
    · split at h
      · cases h
        exact ⟨[], .await hletter htakes, rfl⟩
      · obtain ⟨o', ho', rfl⟩ := Option.map_eq_some_iff.mp h
        exact ⟨_, .equals hletter htakes, foldlM_takeIn?_cons ho'⟩
      · rename_i hnil heq
        obtain ⟨o', ho', rfl⟩ := Option.map_eq_some_iff.mp h
        obtain ⟨d, v, rfl⟩ := List.exists_cons_of_ne_nil hnil
        have hd : d ≠ '=' := by
          rintro rfl
          exact heq v rfl
        exact ⟨_, .joined hletter htakes hd, foldlM_takeIn?_cons ho'⟩
    · obtain ⟨o', ho', h⟩ := Option.bind_eq_some_iff.mp h
      have htakes : s.takesValue = false := by simpa using htakes
      refine (ih h).imp fun hsaid => ?_
      exact ⟨_, .flag hletter htakes hsaid, foldlM_takeIn?_cons ho'⟩

/-- An option that is read by its long name says what its spelling says. -/
lemma takesIn_of_readLong? {o : Options} {name arg : String} {value? : Option String} {step : Step}
    (harg : arg = value?.elim ("--" ++ name) fun v => "--" ++ name ++ "=" ++ v)
    (h : readLong? o name value? = some step) : step.TakesIn o (Argument arg) := by
  rw [readLong?_eq, Option.bind_eq_some_iff] at h
  obtain ⟨s, hs, h⟩ := h
  obtain rfl := Switch.name_of_ofName? hs
  rcases value? with _ | v
  · simp only [Option.elim_none] at harg
    subst harg
    simp only at h
    split_ifs at h with hversion hhelp htakes
    · cases h
      exact .inl rfl
    · cases h
      exact .inr rfl
    · cases h
      exact ⟨[], .await htakes, rfl⟩
    · obtain ⟨o', ho', rfl⟩ := Option.map_eq_some_iff.mp h
      exact ⟨_, .flag (by simpa using htakes), foldlM_takeIn?_cons ho'⟩
  · simp only [Option.elim_some] at harg
    subst harg
    obtain ⟨o', ho', rfl⟩ := Option.map_eq_some_iff.mp h
    exact ⟨_, .equals, foldlM_takeIn?_cons ho'⟩

/-- An argument is read as what it says. -/
lemma takesIn_of_readArgument? {o : Options} {arg : String} {step : Step}
    (h : readArgument? o arg = some step) : step.TakesIn o (Argument arg) := by
  rw [readArgument?] at h
  split at h
  · rename_i cs hcs
    have hsplit : cs.takeWhile (· != '=') ++ cs.dropWhile (· != '=') = cs :=
      List.takeWhile_append_dropWhile
    split at h
    · rename_i hdrop
      refine takesIn_of_readLong? (String.toList_inj.mp ?_) h
      rw [hdrop, List.append_nil] at hsplit
      simp [hcs, hsplit]
    · rename_i d v hdrop
      have hd : d = '=' := by
        simpa [hdrop] using List.head?_dropWhile_not (· != '=') cs
      refine takesIn_of_readLong? (String.toList_inj.mp ?_) h
      rw [hdrop, hd] at hsplit
      simpa [hcs] using hsplit.symm
  · rename_i c cs hno hcs
    have harg : arg = String.ofList ('-' :: c :: cs) := by
      rw [← hcs, String.ofList_toList]
    rw [harg]
    exact (takesIn_of_readLetters? h).imp fun hsaid =>
      ⟨_, .letters (List.cons_ne_nil c cs) hsaid, rfl⟩
  · cases h

/-- Arguments that are read as a conversion say what it is. -/
lemma spells_of_readArguments? {o o' : Options} {args : List String}
    (h : readArguments? o args = some (.convert o')) :
    ∃ settings, Spells args settings ∧ settings.foldlM Setting.takeIn? o = some o' := by
  fun_induction readArguments? o args with
  | case1 o =>
    cases h
    exact ⟨[], .nil, rfl⟩
  | case2 o =>
    cases h
    exact ⟨[], .dashes, rfl⟩
  | case5 o arg _ o₁ rest hread ih =>
    obtain ⟨said, hsaid, hfold⟩ := takesIn_of_readArgument? hread
    obtain ⟨settings, hspells, hrest⟩ := ih h
    refine ⟨said ++ settings, .argument hsaid hspells, ?_⟩
    rw [List.foldlM_append, hfold]
    exact hrest
  | case6 o arg rest _ request hread =>
    rcases takesIn_of_readArgument? hread with rfl | rfl <;> cases h
  | case9 o arg _ o₁ s v rest hread hvalue o₂ hset ih =>
    obtain ⟨said, hsaid, hfold⟩ := takesIn_of_readArgument? hread
    obtain ⟨settings, hspells, hrest⟩ := ih h
    refine ⟨said ++ .value s v :: settings, .value hsaid hvalue hspells, ?_⟩
    have hcons : (Setting.value s v :: settings).foldlM Setting.takeIn? o₁ =
        settings.foldlM Setting.takeIn? o₂ := foldlM_takeIn?_cons hset
    rw [List.foldlM_append, hfold]
    exact hcons.trans hrest
  | case3 | case4 | case7 | case8 | case10 => cases h

/-! ### What is collected -/

/-- The values that settings give to an option. -/
def values (s : Switch) (settings : List Setting) : List String :=
  settings.filterMap (Setting.valueOf? s)

@[simp] lemma values_append_flag (s t : Switch) (settings : List Setting) :
    values s (settings ++ [.flag t]) = values s settings := by
  simp [values, Setting.valueOf?]

@[simp] lemma values_append_value (s t : Switch) (v : String) (settings : List Setting) :
    values s (settings ++ [.value t v]) = values s settings ++ if t = s then [v] else [] := by
  by_cases h : t = s <;> simp [values, Setting.valueOf?, h]

/-- Options are what settings say. -/
structure Collects (o : Options) (settings : List Setting) : Prop where
  inputs : o.inputs = values .input settings
  folders : o.folders = values .folder settings
  output : o.output.toList = values .output settings
  format : o.format.toList.map Format.name = values .format settings
  config : o.config.toList = values .config settings
  unbounded : o.unbounded ↔ .flag .unbounded ∈ settings

/-- A format that is found by a name has that name. -/
lemma name_of_formatOfName? {name : String} {f : Format} (h : Format.ofName? name = some f) :
    f.name = name := by
  simpa using List.find?_some h

/-- A flag that is accepted is one more setting. -/
lemma Collects.flag {o o' : Options} {settings : List Setting} {s : Switch}
    (h : Collects o settings) (hs : setFlag? o s = some o') :
    Collects o' (settings ++ [.flag s]) := by
  obtain ⟨hinputs, hfolders, houtput, hformat, hconfig, hunbounded⟩ := h
  cases s with
  | unbounded =>
    obtain ⟨-, rfl⟩ : o.unbounded = false ∧ { o with unbounded := true } = o' := by
      simpa [setFlag?] using hs
    constructor <;> simp_all
  | verbose =>
    obtain rfl : { o with verbosity := o.verbosity + 1 } = o' := by simpa [setFlag?] using hs
    constructor <;> simp_all
  | _ => cases hs

/-- A value that is accepted is one more setting. -/
lemma Collects.value {o o' : Options} {settings : List Setting} {s : Switch} {v : String}
    (h : Collects o settings) (hs : setValue? o s v = some o') :
    Collects o' (settings ++ [.value s v]) := by
  obtain ⟨hinputs, hfolders, houtput, hformat, hconfig, hunbounded⟩ := h
  cases s with
  | input =>
    obtain ⟨-, rfl⟩ : v ≠ "" ∧ { o with inputs := o.inputs ++ [v] } = o' := by
      simpa [setValue?] using hs
    constructor <;> simp_all
  | folder =>
    obtain ⟨-, rfl⟩ : v ≠ "" ∧ { o with folders := o.folders ++ [v] } = o' := by
      simpa [setValue?] using hs
    constructor <;> simp_all
  | output =>
    obtain ⟨hnone, rfl⟩ : o.output = none ∧ { o with output := some v } = o' := by
      simpa [setValue?] using hs
    constructor <;> simp_all
  | format =>
    obtain ⟨hnone, f, hf, rfl⟩ : o.format = none ∧ ∃ f, Format.ofName? v = some f ∧
        { o with format := some f } = o' := by
      simpa [setValue?] using hs
    have hname := name_of_formatOfName? hf
    constructor <;> simp_all
  | config =>
    obtain ⟨⟨hnone, -⟩, rfl⟩ : (o.config = none ∧ v ≠ "") ∧ { o with config := some v } = o' := by
      simpa [setValue?] using hs
    constructor <;> simp_all
  | jobs =>
    obtain ⟨-, n, -, rfl⟩ : o.jobs = none ∧ ∃ n, count? v = some n ∧
        { o with jobs := some n } = o' := by
      simpa [setValue?] using hs
    constructor <;> simp_all
  | _ => cases hs

/-- Options that take in more settings are what all the settings say. -/
lemma Collects.foldlM {o o' : Options} {before settings : List Setting} (h : Collects o before)
    (hfold : settings.foldlM Setting.takeIn? o = some o') : Collects o' (before ++ settings) := by
  induction settings generalizing o before with
  | nil =>
    cases hfold
    simpa using h
  | cons x settings ih =>
    rw [List.foldlM_cons] at hfold
    obtain ⟨o₁, hx, hrest⟩ := Option.bind_eq_some_iff.mp hfold
    have hstep : Collects o₁ (before ++ [x]) := by
      rcases x with s | ⟨s, v⟩
      · exact h.flag hx
      · exact h.value hx
    simpa using ih hstep hrest

/-- Arguments that ask for a conversion spell out settings, and its options are what these say. -/
lemma spells_of_parse? {args : List String} {o : Options} (h : parse? args = some (.convert o)) :
    ∃ settings, Spells args settings ∧ Collects o settings := by
  obtain ⟨settings, hspells, hfold⟩ := spells_of_readArguments? h
  have hstart : Collects {} [] := ⟨rfl, rfl, rfl, rfl, rfl, by simp⟩
  exact ⟨settings, hspells, hstart.foldlM hfold⟩

end Arbor.Command
