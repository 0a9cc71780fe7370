import Arbor.FileType
import Mathlib.Data.List.Lex
import Mathlib.Data.Prod.Lex
import Mathlib.Data.String.Basic
import Mathlib.Tactic.Lemma

/-!
# Paths below a path, and the order of paths

A name that is joined to a path becomes its last component (`Path.components_join`), so the paths
below a path are told apart by the names that lead to them (`Path.eq_of_components_joinAll`).

Paths are ordered by their components (`Path.Before`).  This is not the order of their texts: a
folder and a file whose names have a common beginning are compared name by name.  Two paths with
different components are always comparable, and `Path.le` decides the order.
-/

namespace Arbor.Path

/-! ### Segments -/

/-- Splitting at slashes leaves at least one segment, which may be empty. -/
lemma split_ne_nil (cs : List Char) : split cs ≠ [] := by
  induction cs with
  | nil => exact List.cons_ne_nil _ _
  | cons c cs ih =>
    rw [split]
    split_ifs
    · exact List.cons_ne_nil _ _
    · split <;> exact List.cons_ne_nil _ _

/-- A text without slashes is one piece. -/
lemma split_of_not_mem {cs : List Char} (h : '/' ∉ cs) : split cs = [cs] := by
  induction cs with
  | nil => rfl
  | cons c cs ih =>
    obtain ⟨hc, hcs⟩ := List.ne_and_not_mem_of_not_mem_cons h
    rw [split, if_neg hc.symm, ih hcs]

/-- A slash separates the pieces before it from those behind it. -/
lemma split_append_slash (as bs : List Char) :
    split (as ++ '/' :: bs) = split as ++ split bs := by
  induction as with
  | nil => rfl
  | cons c as ih =>
    rw [List.cons_append, split, split, ih]
    split_ifs
    · rfl
    · obtain ⟨s, ss, hsplit⟩ := List.exists_cons_of_ne_nil (split_ne_nil as)
      rw [hsplit]
      rfl

/-- A name that a file or folder may have. -/
def isName (s : String) : Bool :=
  s != "" && s != "." && s != ".." && !s.toList.contains '/' && !s.toList.contains '\x00' &&
    !isLongName s

/-- A name without slashes behind a slash is one more segment. -/
lemma segments_append_slash (path name : String) (h : '/' ∉ name.toList) :
    segments (path ++ "/" ++ name) = segments path ++ [name] := by
  have hchars : (path ++ "/" ++ name).toList = path.toList ++ '/' :: name.toList := by simp
  rw [segments, hchars, split_append_slash, split_of_not_mem h, List.map_append, segments]
  simp

/-- The components of a path with the given segments. -/
def componentsOf (absolute : Bool) : List String → List Component
  | [] => []
  | first :: rest =>
    let start : List Component :=
      if absolute then [.top] else if first = "." then [.here] else (component? first).toList
    start ++ rest.filterMap component?

/-- The components of a path depend on its segments and on whether it is absolute. -/
lemma components_eq (path : String) :
    components path = componentsOf (isAbsolute path) (segments path) := by
  rcases hsegments : segments path with _ | ⟨first, rest⟩ <;>
    simp [components, componentsOf, hsegments]

/-- A segment at the end adds its component. -/
lemma componentsOf_append (absolute : Bool) {segs : List String} (h : segs ≠ []) (s : String) :
    componentsOf absolute (segs ++ [s]) = componentsOf absolute segs ++ (component? s).toList := by
  obtain ⟨first, rest, rfl⟩ := List.exists_cons_of_ne_nil h
  have hlast : [s].filterMap component? = (component? s).toList := by
    cases hs : component? s <;> simp [hs]
  rw [List.cons_append, componentsOf, componentsOf, List.filterMap_append, List.append_assoc, hlast]

/-- A path has at least one segment, which may be empty. -/
lemma segments_ne_nil (path : String) : segments path ≠ [] := by
  rw [segments, ne_eq, List.map_eq_nil_iff]
  exact split_ne_nil _

/-! ### Names below a path -/

/-- A name of an entry is not empty, is neither of the two dots, has no slash or zero character and
is not too long. -/
lemma isName_iff {s : String} :
    isName s = true ↔ s ≠ "" ∧ s ≠ "." ∧ s ≠ ".." ∧ '/' ∉ s.toList ∧ '\x00' ∉ s.toList ∧
      isLongName s = false := by
  simp [isName, and_assoc]

/-- The name of an entry is a component of its own. -/
lemma component?_of_isName {s : String} (h : isName s = true) : component? s = some (.name s) := by
  obtain ⟨hempty, hdot, hdots, -⟩ := isName_iff.mp h
  simp [component?, hempty, hdot, hdots]

/-- Whether a path is absolute is seen at its beginning. -/
lemma isAbsolute_append {path : String} (h : path ≠ "") (s : String) :
    isAbsolute (path ++ s) = isAbsolute path := by
  have hchars : path.toList ≠ [] := by simpa using h
  obtain ⟨c, cs, hcs⟩ := List.exists_cons_of_ne_nil hchars
  simp [isAbsolute, hcs]

/-- A name behind a path does not change where the path starts. -/
lemma isAbsolute_join {path : String} (h : path ≠ "") (name : String) :
    isAbsolute (join path name) = isAbsolute path := by
  rw [join]
  split_ifs
  · exact isAbsolute_append h name
  · rw [String.append_assoc, isAbsolute_append h]

/-- What follows a slash is the last component. -/
lemma components_append_slash (path : String) {name : String} (h : isName name = true) :
    components (path ++ "/" ++ name) = components (path ++ "/") ++ [.name name] := by
  obtain ⟨-, -, -, hslash, -⟩ := isName_iff.mp h
  have hempty : segments (path ++ "/") = segments path ++ [""] := by
    simpa using segments_append_slash path "" (by simp)
  have habsolute : isAbsolute (path ++ "/" ++ name) = isAbsolute (path ++ "/") :=
    isAbsolute_append (by simp) name
  rw [components_eq, components_eq, habsolute, segments_append_slash _ _ hslash, hempty,
    componentsOf_append _ (segments_ne_nil path), componentsOf_append _ (segments_ne_nil path),
    component?_of_isName h]
  simp [component?]

/-- A slash at the end makes no difference. -/
lemma components_slash {path : String} (h : path ≠ "") :
    components (path ++ "/") = components path := by
  have hempty : segments (path ++ "/") = segments path ++ [""] := by
    simpa using segments_append_slash path "" (by simp)
  rw [components_eq, isAbsolute_append h, hempty, componentsOf_append _ (segments_ne_nil path),
    components_eq]
  simp [component?]

/-- A name that is joined to a path becomes its last component. -/
theorem components_join {path name : String} (hpath : path ≠ "") (hname : isName name = true) :
    components (join path name) = components path ++ [.name name] := by
  by_cases hlast : path.toList.getLast? = some '/'
  · obtain ⟨cs, hcs⟩ := List.getLast?_eq_some_iff.mp hlast
    have hsplit : path = String.ofList cs ++ "/" := by
      rw [← String.toList_inj, hcs]
      simp
    rw [join, if_pos (.inr hlast), hsplit, components_append_slash _ hname]
  · have hjoin : join path name = path ++ "/" ++ name := by simp [join, hpath, hlast]
    rw [hjoin, components_append_slash _ hname, components_slash hpath]

/-- Joining a name to a path gives a path. -/
lemma join_ne_empty {path : String} (h : path ≠ "") (name : String) : join path name ≠ "" := by
  rw [join]
  split_ifs <;> simp [h]

/-- The path at the end of a list of names that start at a path. -/
def joinAll (path : String) (names : List String) : String :=
  names.foldl join path

@[simp] lemma joinAll_nil (path : String) : joinAll path [] = path := rfl

@[simp] lemma joinAll_cons (path name : String) (names : List String) :
    joinAll path (name :: names) = joinAll (join path name) names := rfl

/-- Joining names to a path adds them as components. -/
theorem components_joinAll {path : String} (hpath : path ≠ "") {names : List String}
    (hnames : ∀ name ∈ names, isName name = true) :
    components (joinAll path names) = components path ++ names.map .name := by
  induction names generalizing path with
  | nil => simp
  | cons name names ih =>
    obtain ⟨hname, hnames⟩ := List.forall_mem_cons.mp hnames
    rw [joinAll_cons, ih (join_ne_empty hpath name) hnames, components_join hpath hname]
    simp

/-- Paths below a path with equal components have equal names. -/
theorem eq_of_components_joinAll {path : String} (hpath : path ≠ "") {names names' : List String}
    (hnames : ∀ name ∈ names, isName name = true) (hnames' : ∀ name ∈ names', isName name = true)
    (h : components (joinAll path names) = components (joinAll path names')) : names = names' := by
  rw [components_joinAll hpath hnames, components_joinAll hpath hnames'] at h
  have hinjective : Function.Injective Component.name := fun _ _ heq => Component.name.inj heq
  exact hinjective.list_map (List.append_cancel_left h)

/-! ### Sizes -/

/-- A path with slashes behind it. -/
def addSlashes (path : String) : Nat → String
  | 0 => path
  | n + 1 => addSlashes path n ++ "/"

/-- Every slash that is added is one byte. -/
lemma utf8ByteSize_addSlashes (path : String) (n : Nat) :
    (addSlashes path n).utf8ByteSize = path.utf8ByteSize + n := by
  induction n with
  | zero => rfl
  | succ n ih =>
    have hslash : "/".utf8ByteSize = 1 := by decide
    rw [addSlashes, String.utf8ByteSize_append, ih, hslash, Nat.add_assoc]

/-- Joining keeps the bytes of the path and of the name. -/
lemma utf8ByteSize_le_join (path name : String) :
    path.utf8ByteSize + name.utf8ByteSize ≤ (join path name).utf8ByteSize := by
  rw [join]
  split_ifs
  · rw [String.utf8ByteSize_append]
  · rw [String.utf8ByteSize_append, String.utf8ByteSize_append]
    omega

/-! ### Names of serialized files -/

/-- The name that was joined last is the file name. -/
lemma fileName?_join {path name : String} (hpath : path ≠ "") (hname : isName name = true) :
    fileName? (join path name) = some name := by
  rw [fileName?, components_join hpath hname, List.getLast?_concat]

/-- The extension in lower case is one of those that serialized files have. -/
def IsSerialized (path : String) : Prop :=
  ∃ extension, extension? path = some extension ∧
    (FileType.lower extension = "bin" ∨ FileType.lower extension = "binary")

/-- A name with such an extension makes the path of a serialized file. -/
lemma isSerialized_join {path name : String} (extension : String) (hpath : path ≠ "")
    (hname : isName name = true) (hextension : extensionOfName? name = some extension)
    (hlower : FileType.lower extension = "bin" ∨ FileType.lower extension = "binary") :
    IsSerialized (join path name) := by
  refine ⟨extension, ?_, hlower⟩
  rw [extension?, fileName?_join hpath hname, Option.bind_some, hextension]

/-- A path is that of a serialized tree exactly if its type is the binary one. -/
lemma isSerialized_iff {path : String} :
    IsSerialized path ↔ FileType.ofPath? path = some .binary := by
  have hextension : ∀ extension, FileType.ofExtension? extension = some .binary ↔
      FileType.lower extension = "bin" ∨ FileType.lower extension = "binary" := by
    intro extension
    have hcontains : FileType.binary.extensions.contains (FileType.lower extension) = true ↔
        FileType.lower extension = "bin" ∨ FileType.lower extension = "binary" := by
      simp [FileType.extensions]
    rw [← hcontains]
    constructor
    · intro hfind
      rw [FileType.ofExtension?] at hfind
      have hfound := List.find?_some hfind
      exact hfound
    · -- The type of serialized files is the first that is tried.
      intro hfirst
      exact List.find?_cons_of_pos hfirst
  simp only [FileType.ofPath?, Option.bind_eq_some_iff, hextension, IsSerialized]

/-! ### Order -/

namespace Component

/-- The key of a component determines it. -/
lemma key_injective : Function.Injective key := by
  intro a b h
  cases a <;> cases b <;> simp_all [key]

/-- Components are ordered as their keys are. -/
lemma before_iff {a b : Component} : a.before b = true ↔ toLex a.key < toLex b.key := by
  simp [before, Prod.Lex.lt_iff]

end Component

/-- A path comes before another: at the first component in which they differ, or because it is a
beginning of the other. -/
def Before (p q : String) : Prop :=
  List.Lex (fun a b => Component.before a b = true) (components p) (components q)

instance (p q : String) : Decidable (Before p q) :=
  inferInstanceAs (Decidable (List.Lex _ _ _))

/-- Lists of components are ordered lexicographically. -/
lemma leComponents_iff {as bs : List Component} :
    leComponents as bs = true ↔
      as = bs ∨ List.Lex (fun a b => Component.before a b = true) as bs := by
  induction as generalizing bs with
  | nil =>
    cases bs with
    | nil => simp [leComponents]
    | cons b bs => simp [leComponents]
  | cons a as ih =>
    cases bs with
    | nil => simp [leComponents]
    | cons b bs =>
      have hirrefl : ¬ a.before a = true := by simp [Component.before_iff]
      rw [leComponents]
      by_cases hab : a = b
      · subst hab
        simp [ih, List.cons_lex_cons_iff, hirrefl]
      · simp [hab, List.cons_lex_cons_iff]

/-- A path is at most another exactly if they have the same components or it comes before. -/
lemma le_iff {p q : String} : le p q = true ↔ components p = components q ∨ Before p q :=
  leComponents_iff

/-- The order of paths is transitive. -/
lemma Before.trans {p q r : String} (h : Before p q) (h' : Before q r) : Before p r := by
  refine List.lex_trans (fun hab hbc => ?_) h h'
  rw [Component.before_iff] at hab hbc ⊢
  exact hab.trans hbc

/-- A path that comes before another has other components. -/
lemma Before.ne {p q : String} (h : Before p q) : components p ≠ components q := by
  intro heq
  rw [Before, heq] at h
  exact List.lex_irrefl (fun a => by simp [Component.before_iff]) _ h

/-- The weak order of paths is transitive. -/
lemma le_trans {p q r : String} (h : le p q = true) (h' : le q r = true) : le p r = true := by
  rw [le_iff] at h h' ⊢
  rcases h with heq | hbefore
  · rw [heq, Before, heq]
    exact h'
  · rcases h' with heq' | hbefore'
    · rw [Before, ← heq']
      exact .inr hbefore
    · exact .inr (hbefore.trans hbefore')

/-- Paths with different components are comparable. -/
lemma before_or_before {p q : String} (h : components p ≠ components q) :
    Before p q ∨ Before q p := by
  have htrichotomous : Std.Trichotomous fun a b => Component.before a b = true := by
    constructor
    intro a b hab hba
    rw [Component.before_iff] at hab hba
    exact Component.key_injective (toLex.injective (le_antisymm (not_lt.mp hba) (not_lt.mp hab)))
  by_contra hneither
  obtain ⟨hpq, hqp⟩ := not_or.mp hneither
  exact h ((List.Lex.trichotomous _).trichotomous _ _ hpq hqp)

/-- Of two paths, one is at most the other. -/
lemma le_total (p q : String) : (le p q || le q p) = true := by
  rw [Bool.or_eq_true, le_iff, le_iff]
  by_cases h : components p = components q
  · exact .inl (.inl h)
  · rcases before_or_before h with hbefore | hbefore
    · exact .inl (.inr hbefore)
    · exact .inr (.inr hbefore)

/-- Sorted paths with different components come one before the other. -/
theorem pairwise_before_mergeSort {l : List String}
    (hl : l.Pairwise fun p q => components p ≠ components q) :
    (l.mergeSort le).Pairwise Before := by
  have hsorted := @List.pairwise_mergeSort String le (fun _ _ _ => le_trans) le_total l
  have hdistinct : (l.mergeSort le).Pairwise fun p q => components p ≠ components q :=
    (List.mergeSort_perm l le).symm.pairwise hl fun h => h.symm
  refine (hsorted.and hdistinct).imp fun ⟨hle, hne⟩ => ?_
  exact (le_iff.mp hle).resolve_left hne

/-- Sorted lists of paths are equal if they have the same members. -/
theorem eq_of_pairwise_before {l l' : List String} (hl : l.Pairwise Before)
    (hl' : l'.Pairwise Before) (h : ∀ p, p ∈ l ↔ p ∈ l') : l = l' := by
  have hnodup : ∀ {l : List String}, l.Pairwise Before → l.Nodup :=
    fun hl => hl.imp fun hbefore heq => hbefore.ne (congrArg components heq)
  have hperm : l.Perm l' := (List.perm_ext_iff_of_nodup (hnodup hl) (hnodup hl')).mpr h
  refine hperm.eq_of_pairwise (fun p q _ _ hpq hqp => ?_) hl hl'
  exact absurd rfl (hpq.trans hqp).ne

end Arbor.Path
