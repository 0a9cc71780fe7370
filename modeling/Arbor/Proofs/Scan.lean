import Arbor.Proofs.FileSystem
import Arbor.Proofs.Path
import Arbor.Scan
import Mathlib.Data.List.Nodup

/-!
# Scans are exact and do not depend on the order of listings

A scan goes from path to path, and what it finds is said by the names that lead there from the start
(`Entry.Finds`).  This is possible because the path of a name in a folder stands for what is in the
folder under this name (`FileSystem.entry_join`).  If the names in each folder are distinct, all
folders can be listed and there are no links, a scan succeeds and finds each place once
(`FileSystem.exists_scansTo`).  Distinct places have paths with different components, so the order
of paths leaves no choice for the order of the result.

What a scan finds depends on what is seen at the end of names (`Entry.Alike`), and this stays the
same if folders list their entries in another order (`Entry.Reordered`).  So the result of a scan
does not depend on the order of listings either.

It has the files with the extension of serialized files, and nothing else, if the path of each
folder can be looked up (`FileSystem.finds_iff_below`).  If the path of a folder is too long, the
folder is taken for a file, and nothing in it is found (`FileSystem.gather_eq_of_isTooLong`).
-/

namespace Arbor

/-! ### Entries and what is in them -/

namespace Entry

/-- A property holds of all entries if each folder inherits it from its entries. -/
theorem nested_induction {P : Entry → Prop} (hfile : ∀ content, P (.file content))
    (hlocked : ∀ isFolder, P (.locked isFolder)) (hlink : ∀ target, P (.link target))
    (hsink : P .sink) (hfolder : ∀ es, (∀ p ∈ es, P p.2) → P (.folder es)) (e : Entry) : P e :=
  @Entry.rec P (fun es => ∀ p ∈ es, P p.2) (fun p => P p.2) hfile (fun es h => hfolder es h) hlocked
    hlink hsink (fun _ h => nomatch h) (fun _ _ h hs => List.forall_mem_cons.mpr ⟨h, hs⟩)
    (fun _ _ h => h) e

mutual

/-- An entry and everything in it pass a test. -/
def all (p : Entry → Bool) : Entry → Bool
  | file content => p (file content)
  | locked isFolder => p (locked isFolder)
  | link target => p (link target)
  | sink => p sink
  | folder es => p (folder es) && allIn p es

/-- All entries of a folder pass a test, with everything in them. -/
def allIn (p : Entry → Bool) : List (String × Entry) → Bool
  | [] => true
  | (_, e) :: es => e.all p && allIn p es

end

/-- All entries of a folder pass a test if each of them does. -/
lemma allIn_iff {p : Entry → Bool} {es : List (String × Entry)} :
    allIn p es = true ↔ ∀ q ∈ es, q.2.all p = true := by
  induction es with
  | nil => simp [allIn]
  | cons q es ih => simp [allIn, ih]

/-- A folder passes a test with everything in it if it does and each of its entries does. -/
lemma all_folder_iff {p : Entry → Bool} {es : List (String × Entry)} :
    (folder es).all p = true ↔ p (folder es) = true ∧ ∀ q ∈ es, q.2.all p = true := by
  rw [all, Bool.and_eq_true, allIn_iff]

/-- An entry passes a test that it passes with everything in it. -/
lemma self_of_all {p : Entry → Bool} {e : Entry} (h : e.all p = true) : p e = true := by
  cases e with
  | folder es => exact (all_folder_iff.mp h).1
  | _ => simpa [all] using h

/-- An entry that is found under a name is one of the entries. -/
lemma mem_of_lookup {es : List (String × Entry)} {name : String} {e : Entry}
    (h : es.lookup name = some e) : (name, e) ∈ es := by
  obtain ⟨before, after, rfl, -⟩ := List.lookup_eq_some_iff.mp h
  simp

/-- Only folders have entries with names. -/
lemma exists_folder_of_child? {e c : Entry} {name : String} (h : e.child? name = some c) :
    ∃ es, e = folder es ∧ (name, c) ∈ es := by
  cases e with
  | folder es => exact ⟨es, rfl, mem_of_lookup h⟩
  | _ => cases h

/-- What is in an entry passes a test that everything in the entry passes. -/
lemma all_of_get? {p : Entry → Bool} {e x : Entry} (h : e.all p = true) {names : List String}
    (hx : e.get? names = some x) : x.all p = true := by
  induction names generalizing e with
  | nil =>
    rw [← Option.some.inj hx]
    exact h
  | cons name names ih =>
    obtain ⟨c, hc, hrest⟩ := Option.bind_eq_some_iff.mp hx
    obtain ⟨es, rfl, hmem⟩ := exists_folder_of_child? hc
    exact ih ((all_folder_iff.mp h).2 _ hmem) hrest

/-- The names in a folder are proper and distinct. -/
def isProper : Entry → Bool
  | folder es => (es.map Prod.fst).all Path.isName && decide (es.map Prod.fst).Nodup
  | file _ | locked _ | link _ | sink => true

/-- An entry is a file or a folder that can be listed, and no link or device. -/
def isOpen : Entry → Bool
  | locked isFolder => !isFolder
  | file _ | folder _ => true
  | link _ | sink => false

/-- The names in a folder are proper and distinct if each one is proper and no two are equal. -/
lemma isProper_folder_iff {es : List (String × Entry)} :
    (folder es).isProper = true ↔
      (∀ q ∈ es, Path.isName q.1 = true) ∧ (es.map Prod.fst).Nodup := by
  simp [isProper]

/-- If names are distinct, then each entry of a folder is found under its name. -/
lemma lookup_eq_some_iff_mem {es : List (String × Entry)} (h : (es.map Prod.fst).Nodup)
    {name : String} {e : Entry} : es.lookup name = some e ↔ (name, e) ∈ es := by
  refine ⟨mem_of_lookup, fun hmem => ?_⟩
  induction es with
  | nil => cases hmem
  | cons q es ih =>
    obtain ⟨m, c⟩ := q
    rw [List.map_cons, List.nodup_cons] at h
    rw [lookup_cons_eq_ite]
    rcases List.mem_cons.mp hmem with heq | htail
    · obtain ⟨rfl, rfl⟩ := Prod.mk.inj heq
      rw [if_pos rfl]
    · have hne : name ≠ m := by
        rintro rfl
        exact h.1 (List.mem_map.mpr ⟨_, htail, rfl⟩)
      rw [if_neg hne]
      exact ih h.2 htail

/-- Names that lead somewhere are proper. -/
lemma isName_of_get? {e x : Entry} (h : e.all isProper = true) {names : List String}
    (hx : e.get? names = some x) : ∀ name ∈ names, Path.isName name = true := by
  induction names generalizing e with
  | nil => exact fun _ hname => nomatch hname
  | cons name names ih =>
    obtain ⟨c, hc, hrest⟩ := Option.bind_eq_some_iff.mp hx
    obtain ⟨es, rfl, hmem⟩ := exists_folder_of_child? hc
    obtain ⟨hself, hes⟩ := all_folder_iff.mp h
    have hname := (isProper_folder_iff.mp hself).1 _ hmem
    exact List.forall_mem_cons.mpr ⟨hname, ih (hes _ hmem) hrest⟩

/-! ### What a scan finds -/

/-- A scan of an entry with the given path finds what is at the end of the names: all folders on the
way have paths that can be looked up, the path has the name of a serialized file, and there is a
file, or a folder that cannot be told from a file. -/
def Finds (path : String) (e : Entry) (names : List String) : Prop :=
  ∃ x, e.get? names = some x ∧
    (∀ way, way <+: names → way ≠ names → Path.isTooLong (Path.joinAll path way) = false) ∧
    Path.IsSerialized (Path.joinAll path names) ∧
    (x.isFolder = false ∨ Path.isTooLong (Path.joinAll path names) = true)

/-- Something that is taken for a file is found if its path has the name of a serialized file, and
nothing is found below it. -/
lemma finds_iff_nil {path : String} {e : Entry}
    (hfile : e.isFolder = false ∨ Path.isTooLong path = true)
    (hbelow : ∀ name names, ¬ e.Finds path (name :: names)) {names : List String} :
    e.Finds path names ↔ names ∈ (if FileType.ofPath? path = some .binary then [[]] else []) := by
  cases names with
  | nil =>
    have hway : ∀ way : List String, way <+: [] → way ≠ [] →
        Path.isTooLong (Path.joinAll path way) = false :=
      fun way hway hne => absurd (List.prefix_nil.mp hway) hne
    have hfinds : e.Finds path [] ↔ Path.IsSerialized path := by
      constructor
      · rintro ⟨-, -, -, hserialized, -⟩
        exact hserialized
      · intro hserialized
        exact ⟨e, rfl, hway, hserialized, hfile⟩
    rw [hfinds, Path.isSerialized_iff]
    split_ifs with hbinary <;> simp [hbinary]
  | cons name names =>
    refine ⟨fun h => absurd h (hbelow name names), fun h => ?_⟩
    split_ifs at h
    · simp at h
    · cases h

/-- What is found in a folder is found in one of its entries. -/
lemma finds_folder_iff {path : String} {es : List (String × Entry)}
    (hes : (es.map Prod.fst).Nodup) (hpath : Path.isTooLong path = false) {names : List String} :
    (folder es).Finds path names ↔
      ∃ q ∈ es, ∃ rest, names = q.1 :: rest ∧ q.2.Finds (Path.join path q.1) rest := by
  constructor
  · rintro ⟨x, hx, hway, hserialized, hfile⟩
    cases names with
    | nil =>
      rw [get?_nil] at hx
      rw [← Option.some.inj hx, Path.joinAll_nil, hpath] at hfile
      simp [isFolder] at hfile
    | cons name rest =>
      obtain ⟨c, hc, hrest⟩ := Option.bind_eq_some_iff.mp hx
      refine ⟨(name, c), mem_of_lookup hc, rest, rfl, x, hrest, fun way hpre hne => ?_,
        hserialized, hfile⟩
      have hlonger : name :: way ≠ name :: rest := fun heq => hne (List.cons.inj heq).2
      exact hway (name :: way) ((List.prefix_cons_inj name).mpr hpre) hlonger
  · rintro ⟨⟨name, c⟩, hmem, rest, rfl, x, hx, hway, hserialized, hfile⟩
    have hlookup : es.lookup name = some c := (lookup_eq_some_iff_mem hes).mpr hmem
    refine ⟨x, ?_, fun way hpre hne => ?_, hserialized, hfile⟩
    · rw [get?_cons, child?_folder, hlookup, Option.bind_some]
      exact hx
    · cases way with
      | nil => exact hpath
      | cons m way =>
        obtain ⟨rfl, hrest⟩ := List.cons_prefix_cons.mp hpre
        exact hway way hrest fun heq => hne (by rw [heq])

/-- What has something in it is a folder. -/
lemma exists_folder_of_prefix {e x : Entry} {names way : List String} (hx : e.get? names = some x)
    (hpre : way <+: names) (hne : way ≠ names) :
    ∃ y, e.get? way = some y ∧ y.isFolder = true := by
  obtain ⟨rest, rfl⟩ := hpre
  rw [get?_append] at hx
  obtain ⟨y, hy, hrest⟩ := Option.bind_eq_some_iff.mp hx
  have hlonger : rest ≠ [] := by
    rintro rfl
    exact hne (List.append_nil way).symm
  obtain ⟨name, names, rfl⟩ := List.exists_cons_of_ne_nil hlonger
  obtain ⟨c, hc, -⟩ := Option.bind_eq_some_iff.mp hrest
  obtain ⟨es, rfl, -⟩ := exists_folder_of_child? hc
  exact ⟨folder es, hy, rfl⟩

/-- Everything in an entry passes a test if what is found under names does. -/
lemma all_of_forall_get? {p : Entry → Bool} {e : Entry} (hproper : e.all isProper = true)
    (h : ∀ names x, e.get? names = some x → p x = true) : e.all p = true := by
  induction e using nested_induction with
  | hfile content => exact h [] _ rfl
  | hlocked b => exact h [] _ rfl
  | hlink target => exact h [] _ rfl
  | hsink => exact h [] _ rfl
  | hfolder es ih =>
    obtain ⟨hself, hes⟩ := all_folder_iff.mp hproper
    obtain ⟨-, hdistinct⟩ := isProper_folder_iff.mp hself
    refine all_folder_iff.mpr ⟨h [] _ rfl, fun q hq => ih q hq (hes q hq) fun names x hx => ?_⟩
    have hlookup : es.lookup q.1 = some q.2 := (lookup_eq_some_iff_mem hdistinct).mpr hq
    refine h (q.1 :: names) x ?_
    rw [get?_cons, child?_folder, hlookup, Option.bind_some]
    exact hx

/-- Whether an entry is a folder can be seen. -/
lemma isFolder_eq_of_look {x y : Entry} (h : x.look = y.look) : x.isFolder = y.isFolder := by
  cases x <;> cases y <;> simp_all [look, isFolder]

/-- Whether an entry is a file or a folder that can be listed can be seen. -/
lemma isOpen_eq_of_look {x y : Entry} (h : x.look = y.look) : x.isOpen = y.isOpen := by
  cases x <;> cases y <;> simp_all [look, isOpen]

/-- Two entries look alike: the same is seen at the end of each list of names. -/
def Alike (e e' : Entry) : Prop :=
  ∀ names, (e.get? names).map look = (e'.get? names).map look

/-- Two entries look alike in either order. -/
lemma Alike.symm {e e' : Entry} (h : e.Alike e') : e'.Alike e :=
  fun names => (h names).symm

/-- What is found under names in one of two entries that look alike is found in the other, as far as
it can be seen. -/
lemma Alike.exists_get? {e e' x : Entry} (h : e.Alike e') {names : List String}
    (hx : e.get? names = some x) : ∃ y, e'.get? names = some y ∧ y.look = x.look := by
  have hlook := h names
  rw [hx, Option.map_some] at hlook
  exact Option.map_eq_some_iff.mp hlook.symm

/-- A scan finds the same in entries that look alike. -/
lemma Alike.finds {e e' : Entry} (h : e.Alike e') {path : String} {names : List String}
    (hfinds : e.Finds path names) : e'.Finds path names := by
  obtain ⟨x, hx, hway, hserialized, hfile⟩ := hfinds
  obtain ⟨y, hy, hlook⟩ := h.exists_get? hx
  rw [← isFolder_eq_of_look hlook] at hfile
  exact ⟨y, hy, hway, hserialized, hfile⟩

/-- If all folders of an entry can be listed, so can those of an entry that looks alike. -/
lemma Alike.all_isOpen {e e' : Entry} (h : e.Alike e') (hproper' : e'.all isProper = true)
    (hopen : e.all isOpen = true) : e'.all isOpen = true := by
  refine all_of_forall_get? hproper' fun names x hx => ?_
  obtain ⟨y, hy, hlook⟩ := h.symm.exists_get? hx
  rw [← isOpen_eq_of_look hlook]
  exact self_of_all (all_of_get? hopen hy)

/-- The entries of folders are listed in another order, in any number of folders. -/
inductive Reordered : Entry → Entry → Prop where
  | refl (e : Entry) : Reordered e e
  | listing {es es' : List (String × Entry)} : es.Perm es' → Reordered (folder es) (folder es')
  | inside {before after : List (String × Entry)} {name : String} {e e' : Entry} :
      Reordered e e' →
      Reordered (folder (before ++ (name, e) :: after)) (folder (before ++ (name, e') :: after))
  | trans {e e' e'' : Entry} : Reordered e e' → Reordered e' e'' → Reordered e e''

/-- The entry under a name does not depend on the order of distinct names. -/
lemma lookup_eq_of_perm {es es' : List (String × Entry)} (h : es.Perm es')
    (hes : (es.map Prod.fst).Nodup) (name : String) : es.lookup name = es'.lookup name := by
  have hes' : (es'.map Prod.fst).Nodup := (h.map Prod.fst).nodup_iff.mp hes
  refine Option.ext fun e => ?_
  rw [lookup_eq_some_iff_mem hes, lookup_eq_some_iff_mem hes', h.mem_iff]

/-- Folders look alike if the same is seen in them. -/
lemma alike_folder {es es' : List (String × Entry)}
    (h : ∀ name names, ((es.lookup name).bind (·.get? names)).map look =
      ((es'.lookup name).bind (·.get? names)).map look) : (folder es).Alike (folder es') := by
  intro names
  cases names with
  | nil => rfl
  | cons name names => exact h name names

/-- Another order of listing changes neither whether names are proper and distinct nor what is
seen. -/
theorem Reordered.isProper_and_alike {e e' : Entry} (h : e.Reordered e')
    (hproper : e.all isProper = true) : e'.all isProper = true ∧ e.Alike e' := by
  induction h with
  | refl e => exact ⟨hproper, fun _ => rfl⟩
  | @listing es es' hperm =>
    obtain ⟨hself, hes⟩ := all_folder_iff.mp hproper
    obtain ⟨hnames, hdistinct⟩ := isProper_folder_iff.mp hself
    constructor
    · refine all_folder_iff.mpr ⟨isProper_folder_iff.mpr ⟨fun q hq => ?_, ?_⟩, fun q hq => ?_⟩
      · exact hnames q (hperm.mem_iff.mpr hq)
      · exact (hperm.map Prod.fst).nodup_iff.mp hdistinct
      · exact hes q (hperm.mem_iff.mpr hq)
    · refine alike_folder fun name names => ?_
      rw [lookup_eq_of_perm hperm hdistinct]
  | @inside before after name e e' _ ih =>
    obtain ⟨hself, hes⟩ := all_folder_iff.mp hproper
    obtain ⟨hnames, hdistinct⟩ := isProper_folder_iff.mp hself
    obtain ⟨hproper', halike⟩ := ih (hes (name, e) (by simp))
    have hsame : (before ++ (name, e) :: after).map Prod.fst =
        (before ++ (name, e') :: after).map Prod.fst := by simp
    constructor
    · have hself' : (folder (before ++ (name, e') :: after)).isProper = true := by
        rwa [isProper, ← hsame]
      refine all_folder_iff.mpr ⟨hself', fun q hq => ?_⟩
      simp only [List.mem_append, List.mem_cons] at hq hes
      rcases hq with hq | rfl | hq
      · exact hes q (.inl hq)
      · exact hproper'
      · exact hes q (.inr (.inr hq))
    · refine alike_folder fun m names => ?_
      rw [List.lookup_append, List.lookup_append, lookup_cons_eq_ite, lookup_cons_eq_ite]
      rcases before.lookup m with _ | c
      · split_ifs
        · exact halike names
        · rfl
      · rfl
  | trans _ _ ih ih' =>
    obtain ⟨hproper', halike⟩ := ih hproper
    obtain ⟨hproper'', halike'⟩ := ih' hproper'
    exact ⟨hproper'', fun names => (halike names).trans (halike' names)⟩

end Entry

/-! ### Scans of file systems -/

namespace FileSystem

variable {fs fs' : FileSystem} {start p : String} {e x y : Entry}

/-- A path stands for what is at the place that it leads to. -/
lemma entry_eq_ok_iff :
    fs.entry start = .ok e ↔
      ∃ place, fs.resolve start = .ok place ∧ fs.top.get? place = some e := by
  rw [entry]
  rcases fs.resolve start with error | place
  · simp
  · rcases hplace : fs.top.get? place with _ | x <;> simp [hplace]

/-- A path stands for what is at the end of its segments, if it can be used. -/
lemma entry_eq_ok_iff_follow :
    fs.entry start = .ok e ↔
      AccessError.ofPath? start = none ∧ ∃ place left,
        fs.follow maxLinks (fs.start start) (Path.segments start) = .ok (place, left) ∧
          fs.top.get? place = some e := by
  rw [entry_eq_ok_iff, resolve]
  rcases AccessError.ofPath? start with _ | error
  · rcases fs.follow maxLinks (fs.start start) (Path.segments start) with error | ⟨place, left⟩ <;>
      simp [Except.map]
  · simp

/-- The empty path stands for nothing. -/
lemma ne_empty_of_entry (h : fs.entry start = .ok e) : start ≠ "" := by
  rintro rfl
  cases h

/-- Paths lead to the same places in file systems that look alike. -/
lemma resolve_eq_of_alike (hhome : fs'.home = fs.home) (h : fs.top.Alike fs'.top) (path : String) :
    fs'.resolve path = fs.resolve path := by
  have hlook : ∀ names, fs'.look names = fs.look names := fun names => (h names).symm
  have hfollow : ∀ links place segments,
      fs'.follow links place segments = fs.follow links place segments := by
    intro links place segments
    induction links, place, segments using follow_induction with
    | hnil links place => rw [follow_nil, follow_nil]
    | hcons links place segment rest ih ihlinks =>
      have hlink : ∀ target, fs'.followLink links place target rest =
          fs.followLink links place target rest := by
        intro target
        cases links with
        | zero => rfl
        | succ links => simp only [followLink, ihlinks links rfl]
      simp only [follow_cons, hlook, ih, hlink]
  simp only [resolve, start.eq_def, hhome, hfollow]

/-- What a path stands for looks alike in file systems that look alike. -/
lemma exists_entry_alike (hhome : fs'.home = fs.home) (h : fs.top.Alike fs'.top)
    (he : fs.entry start = .ok e) : ∃ e', fs'.entry start = .ok e' ∧ e.Alike e' := by
  obtain ⟨place, hresolve, hplace⟩ := entry_eq_ok_iff.mp he
  obtain ⟨e', he', -⟩ := h.exists_get? hplace
  rw [← resolve_eq_of_alike hhome h] at hresolve
  refine ⟨e', entry_eq_ok_iff.mpr ⟨place, hresolve, he'⟩, fun names => ?_⟩
  have hboth := h (place ++ names)
  rwa [Entry.get?_append, Entry.get?_append, hplace, he'] at hboth

/-- At or below the start there is an entry with the given path. -/
def Below (fs : FileSystem) (start p : String) (x : Entry) : Prop :=
  ∃ e names, fs.entry start = .ok e ∧ e.get? names = some x ∧ p = Path.joinAll start names

/-- A path below the start leads to one entry only. -/
lemma Below.unique (hproper : fs.top.all Entry.isProper = true) (hx : fs.Below start p x)
    (hy : fs.Below start p y) : x = y := by
  obtain ⟨e, names, he, hx, rfl⟩ := hx
  obtain ⟨e', names', he', hy, hpath⟩ := hy
  have hsame : e = e' := Except.ok.inj (he.symm.trans he')
  subst hsame
  obtain ⟨place, -, hplace⟩ := entry_eq_ok_iff.mp he
  have hproper := Entry.all_of_get? hproper hplace
  have hnames : names = names' := Path.eq_of_components_joinAll (ne_empty_of_entry he)
    (Entry.isName_of_get? hproper hx) (Entry.isName_of_get? hproper hy)
    (congrArg Path.components hpath)
  subst hnames
  exact Option.some.inj (hx.symm.trans hy)

/-- The segments of a path with a name behind it lead to where the path leads, and from there to the
name. -/
lemma follow_segments_join {name : String} {links left : Nat} {names place : List String}
    (hpath : start ≠ "") (hslash : '/' ∉ name.toList) (hplace : fs.look place = some .folder)
    (h : fs.follow links names (Path.segments start) = .ok (place, left)) :
    fs.follow links names (Path.segments (Path.join start name)) = fs.follow left place [name] := by
  by_cases hlast : start.toList.getLast? = some '/'
  · -- the slash at the end is an empty segment, which leads nowhere
    obtain ⟨cs, hcs⟩ := List.getLast?_eq_some_iff.mp hlast
    have hsplit : start = String.ofList cs ++ "/" := by
      rw [← String.toList_inj, hcs]
      simp
    have hempty : Path.segments start = Path.segments (String.ofList cs) ++ [""] := by
      rw [hsplit]
      simpa using Path.segments_append_slash (String.ofList cs) "" (by simp)
    have hname : Path.segments (Path.join start name) =
        Path.segments (String.ofList cs) ++ [name] := by
      rw [Path.join, if_pos (.inr hlast), hsplit, Path.segments_append_slash _ _ hslash]
    rw [hempty, follow_append] at h
    rw [hname, follow_append]
    rcases hway : fs.follow links names (Path.segments (String.ofList cs)) with error | ⟨folder, n⟩
    · simp [hway, Except.bind] at h
    · simp only [hway, Except.bind, follow_cons] at h ⊢
      rcases hfolder : fs.look folder with _ | (old | _ | (_ | _) | target | _)
      all_goals simp_all
  · have hname : Path.segments (Path.join start name) = Path.segments start ++ [name] := by
      rw [Path.join, if_neg (by simp [hpath, hlast]), Path.segments_append_slash _ _ hslash]
    rw [hname, follow_append, h]
    rfl

/-- A path starts where the path before its last name starts. -/
lemma start_join (hpath : start ≠ "") (name : String) :
    fs.start (Path.join start name) = fs.start start := by
  rw [FileSystem.start, FileSystem.start, origin, origin, Path.isAbsolute_join hpath]

/-- A path can be used if it is made from one that can be used and has neither a NUL character nor
too many bytes. -/
lemma ofPath?_join {name : String} (h : AccessError.ofPath? start = none)
    (hname : Path.isName name = true) (hshort : Path.isTooLong (Path.join start name) = false) :
    AccessError.ofPath? (Path.join start name) = none := by
  obtain ⟨-, -, -, -, hnul, -⟩ := Path.isName_iff.mp hname
  simp only [AccessError.ofPath?] at h ⊢
  split_ifs at h with hstart hempty hlong
  have hboth : (Path.join start name).toList.contains '\x00' = false := by
    rw [Path.join]
    split_ifs <;> simp_all
  rw [hboth, hshort, if_neg (by simp), if_neg (Path.join_ne_empty hempty name), if_neg (by simp)]

/-- The path of a name in a folder stands for what the folder has under this name, unless it is too
long or the name is that of a link. -/
theorem entry_join {name : String} {es : List (String × Entry)}
    (he : fs.entry start = .ok (.folder es)) (hlookup : es.lookup name = some x)
    (hname : Path.isName name = true) (hlink : ∀ target, x ≠ .link target)
    (hshort : Path.isTooLong (Path.join start name) = false) :
    fs.entry (Path.join start name) = .ok x := by
  have hstart : start ≠ "" := ne_empty_of_entry he
  obtain ⟨husable, place, left, hfollow, hplace⟩ := entry_eq_ok_iff_follow.mp he
  obtain ⟨hempty, hdot, hdots, hslash, -, hlong⟩ := Path.isName_iff.mp hname
  have hlook := look_of_folder hplace
  have hlast : fs.look (place ++ [name]) = some x.look := by
    rw [look_append_singleton hplace, hlookup, Option.map_some]
  have hway : fs.follow left place [name] = .ok (place ++ [name], left) := by
    rw [follow_cons, hlook, hlast]
    cases x <;> simp_all [Entry.look]
  refine entry_eq_ok_iff_follow.mpr
    ⟨ofPath?_join husable hname hshort, place ++ [name], left, ?_, ?_⟩
  · rw [start_join hstart, follow_segments_join hstart hslash hlook hfollow, hway]
  · rw [Entry.get?_append, hplace, Option.bind_some]
    simpa using hlookup

/-! ### Scans -/

/-- What a scan does with the path of an entry in a folder. -/
def visit (fs : FileSystem) (depth : Nat) (path : String) : Except ScanError (List String) :=
  if fs.isFolder path then fs.scanWith depth path else .ok (serialized path)

/-- A scan of a folder puts together what it finds in the entries. -/
lemma scanWith_folder {es : List (String × Entry)} (he : fs.entry start = .ok (.folder es))
    (depth : Nat) :
    fs.scanWith (depth + 1) start =
      (es.mapM fun q => fs.visit depth (Path.join start q.1)).map List.flatten := by
  simp only [scanWith, he, visit]
  rfl

/-- A path that is too long is not that of a folder. -/
lemma isFolder_of_isTooLong (h : Path.isTooLong start = true) : fs.isFolder start = false := by
  have husable : ∃ error, AccessError.ofPath? start = some error := by
    simp only [AccessError.ofPath?]
    split_ifs <;> exact ⟨_, rfl⟩
  obtain ⟨error, herror⟩ := husable
  simp [isFolder, entry, resolve, herror]

/-- A path that is too long, or stands for a file, is not that of a folder. -/
lemma isFolder_of_file (he : Path.isTooLong start = false → fs.entry start = .ok e)
    (hfile : e.isFolder = false) : fs.isFolder start = false := by
  by_cases hlong : Path.isTooLong start = true
  · exact isFolder_of_isTooLong hlong
  · rw [isFolder, he (by simpa using hlong)]
    exact hfile

/-- Visiting a path gives the paths at the given places below it, and these are the places at which
a scan finds something. -/
structure ScansTo (fs : FileSystem) (depth : Nat) (path : String) (e : Entry)
    (places : List (List String)) : Prop where
  visit_eq : fs.visit depth path = .ok (places.map (Path.joinAll path))
  nodup : places.Nodup
  mem_iff : ∀ names, names ∈ places ↔ e.Finds path names

/-- Something that is taken for a file is found by its name. -/
lemma scansTo_of_file {depth : Nat} (hvisit : fs.isFolder start = false)
    (hfile : e.isFolder = false ∨ Path.isTooLong start = true)
    (hbelow : ∀ name names, ¬ e.Finds start (name :: names)) :
    fs.ScansTo depth start e (if FileType.ofPath? start = some .binary then [[]] else []) where
  visit_eq := by
    rw [visit, hvisit, serialized, if_neg Bool.false_ne_true]
    split_ifs <;> rfl
  nodup := by
    split_ifs
    · exact List.nodup_singleton _
    · exact List.nodup_nil
  mem_iff names := (Entry.finds_iff_nil hfile hbelow).symm

/-- What is found in the entries of a folder is put together. -/
lemma exists_mapM_visit_eq {depth : Nat} {es : List (String × Entry)}
    (hes : (es.map Prod.fst).Nodup)
    (h : ∀ q ∈ es, ∃ places, fs.ScansTo depth (Path.join start q.1) q.2 places) :
    ∃ places : List (List String),
      (es.mapM fun q => fs.visit depth (Path.join start q.1)).map List.flatten =
        .ok (places.map (Path.joinAll start)) ∧
      places.Nodup ∧ ∀ names, names ∈ places ↔
        ∃ q ∈ es, ∃ rest, names = q.1 :: rest ∧ q.2.Finds (Path.join start q.1) rest := by
  induction es with
  | nil => exact ⟨[], rfl, List.nodup_nil, by simp⟩
  | cons q es ih =>
    obtain ⟨name, e⟩ := q
    obtain ⟨hhead, htail⟩ := List.forall_mem_cons.mp h
    rw [List.map_cons, List.nodup_cons] at hes
    obtain ⟨first, hfirst⟩ := hhead
    obtain ⟨rest, hscan, hnodup, hmem⟩ := ih hes.2 htail
    refine ⟨first.map (name :: ·) ++ rest, ?_, ?_, fun names => ?_⟩
    · have hmap : (first.map (name :: ·)).map (Path.joinAll start) =
          first.map (Path.joinAll (Path.join start name)) := by
        rw [List.map_map]
        rfl
      rw [List.map_append, hmap, List.mapM_cons, hfirst.visit_eq]
      generalize (es.mapM fun q => fs.visit depth (Path.join start q.1)) = tail at hscan ⊢
      rcases tail with error | found
      · cases hscan
      · have hfound : found.flatten = rest.map (Path.joinAll start) := Except.ok.inj hscan
        simp [bind, Except.bind, Except.map, pure, Except.pure, hfound]
    · have hinjective : Function.Injective (name :: · : List String → List String) :=
        fun _ _ heq => (List.cons.inj heq).2
      refine List.nodup_append.mpr ⟨hfirst.nodup.map hinjective, hnodup, ?_⟩
      -- Two places are different because their first names are.
      rintro _ hfront _ hback rfl
      obtain ⟨ns, -, rfl⟩ := List.mem_map.mp hfront
      obtain ⟨q, hq, ns', heq, -⟩ := (hmem _).mp hback
      exact hes.1 (List.mem_map.mpr ⟨q, hq, (List.cons.inj heq).1.symm⟩)
    · rw [List.mem_append, hmem, List.exists_mem_cons_iff]
      refine or_congr ?_ Iff.rfl
      simp only [List.mem_map, hfirst.mem_iff]
      exact ⟨fun ⟨ns, hfinds, heq⟩ => ⟨ns, heq.symm, hfinds⟩,
        fun ⟨ns, heq, hfinds⟩ => ⟨ns, hfinds, heq.symm⟩⟩

/-- A scan succeeds if all folders can be listed, and gives what it finds.  The depth is enough,
since paths get longer on the way and no path that is too long is gone into. -/
theorem exists_scansTo {depth : Nat} (hproper : e.all Entry.isProper = true)
    (hopen : e.all Entry.isOpen = true)
    (he : Path.isTooLong start = false → fs.entry start = .ok e)
    (hdepth : Path.maxSize < start.utf8ByteSize + depth) :
    ∃ places, fs.ScansTo depth start e places := by
  induction e using Entry.nested_induction generalizing start depth with
  | hfile content =>
    refine ⟨_, scansTo_of_file (isFolder_of_file he rfl) (.inl rfl) fun name names hfinds => ?_⟩
    obtain ⟨x, hx, -⟩ := hfinds
    cases hx
  | hlocked b =>
    obtain rfl : b = false := by simpa [Entry.isOpen] using Entry.self_of_all hopen
    refine ⟨_, scansTo_of_file (isFolder_of_file he rfl) (.inl rfl) fun name names hfinds => ?_⟩
    obtain ⟨x, hx, -⟩ := hfinds
    cases hx
  | hlink target => cases Entry.self_of_all hopen
  | hsink => cases Entry.self_of_all hopen
  | hfolder es ih =>
    obtain ⟨hself, hproper⟩ := Entry.all_folder_iff.mp hproper
    obtain ⟨-, hopen⟩ := Entry.all_folder_iff.mp hopen
    obtain ⟨hnames, hdistinct⟩ := Entry.isProper_folder_iff.mp hself
    by_cases hlong : Path.isTooLong start = true
    · refine ⟨_, scansTo_of_file (isFolder_of_isTooLong hlong) (.inr hlong)
        fun name names hfinds => ?_⟩
      obtain ⟨x, -, hway, -⟩ := hfinds
      have hshort := hway [] List.nil_prefix (List.cons_ne_nil _ _).symm
      rw [Path.joinAll_nil, hlong] at hshort
      cases hshort
    · have hshort : Path.isTooLong start = false := Bool.not_eq_true _ ▸ hlong
      have hsize : start.utf8ByteSize ≤ Path.maxSize := by
        simpa [Path.isTooLong] using hshort
      obtain ⟨depth, rfl⟩ := Nat.exists_eq_add_one_of_ne_zero (show depth ≠ 0 by omega)
      have hes : ∀ q ∈ es, ∃ places, fs.ScansTo depth (Path.join start q.1) q.2 places := by
        intro q hq
        have hlookup : es.lookup q.1 = some q.2 := (Entry.lookup_eq_some_iff_mem hdistinct).mpr hq
        have hname := hnames q hq
        have hlonger : start.utf8ByteSize < (Path.join start q.1).utf8ByteSize := by
          have hjoin := Path.utf8ByteSize_le_join start q.1
          have hpositive : q.1.utf8ByteSize ≠ 0 := by
            simpa using (Path.isName_iff.mp hname).1
          omega
        have hlink : ∀ target, q.2 ≠ .link target := by
          intro target heq
          have hself := Entry.self_of_all (hopen q hq)
          rw [heq] at hself
          cases hself
        have hentry : Path.isTooLong (Path.join start q.1) = false →
            fs.entry (Path.join start q.1) = .ok q.2 :=
          entry_join (he hshort) hlookup hname hlink
        exact ih q hq (hproper q hq) (hopen q hq) hentry (by omega)
      obtain ⟨places, hscan, hnodup, hmem⟩ := exists_mapM_visit_eq hdistinct hes
      refine ⟨places, ?_, hnodup, fun names => ?_⟩
      · have hfolder : fs.isFolder start = true := by
          rw [isFolder, he hshort]
          rfl
        rw [visit, hfolder, if_pos rfl, scanWith_folder (he hshort), hscan]
      · rw [hmem, Entry.finds_folder_iff hdistinct hshort]

/-- A scan of a path does with it what it does with a path on its way. -/
lemma scanWith_eq_visit {depth : Nat} (he : fs.entry start = .ok e)
    (hopen : e.isOpen = true) : fs.scanWith (depth + 1) start = fs.visit (depth + 1) start := by
  rcases e with content | es | (_ | _) | target | _
  all_goals simp_all [visit, isFolder, scanWith, Entry.isFolder, Entry.isOpen]

/-- Where nothing is, nothing is found. -/
lemma gather_of_error {error : AccessError} (h : fs.entry start = .error error) :
    fs.gather start = .ok [] := by
  rw [gather, scanWith, h]
  exact congrArg Except.ok List.mergeSort_nil

/-- A scan succeeds if all folders at or below the start can be listed, and gives what it finds, in
the order of paths. -/
lemma exists_gather_eq (hproper : fs.top.all Entry.isProper = true)
    (hopen : ∀ e, fs.entry start = .ok e → e.all Entry.isOpen = true) :
    ∃ files, fs.gather start = .ok files ∧ files.Pairwise Path.Before ∧
      ∀ p, p ∈ files ↔
        ∃ e names, fs.entry start = .ok e ∧ e.Finds start names ∧ p = Path.joinAll start names := by
  rcases he : fs.entry start with error | e
  · exact ⟨[], gather_of_error he, .nil, by simp⟩
  obtain ⟨place, -, hplace⟩ := entry_eq_ok_iff.mp he
  have hproper := Entry.all_of_get? hproper hplace
  obtain ⟨places, hvisit, hnodup, hmem⟩ : ∃ places,
      fs.ScansTo (Path.maxSize + 1) start e places :=
    exists_scansTo hproper (hopen e he) (fun _ => he) (by omega)
  refine ⟨(places.map (Path.joinAll start)).mergeSort Path.le, ?_, ?_, fun p => ?_⟩
  · rw [gather, scanWith_eq_visit he (Entry.self_of_all (hopen e he)), hvisit]
    rfl
  · refine Path.pairwise_before_mergeSort (List.pairwise_map.mpr ?_)
    have hnames : ∀ names ∈ places, ∀ name ∈ names, Path.isName name = true := by
      intro names hmember
      obtain ⟨x, hx, -⟩ := (hmem names).mp hmember
      exact Entry.isName_of_get? hproper hx
    refine hnodup.imp_of_mem fun hfirst hsecond hne heq => hne ?_
    exact Path.eq_of_components_joinAll (ne_empty_of_entry he) (hnames _ hfirst)
      (hnames _ hsecond) heq
  · rw [List.mem_mergeSort, List.mem_map]
    simp only [hmem, Except.ok.injEq]
    constructor
    · rintro ⟨names, hfinds, rfl⟩
      exact ⟨e, names, rfl, hfinds, rfl⟩
    · rintro ⟨_, names, rfl, hfinds, rfl⟩
      exact ⟨names, hfinds, rfl⟩

/-- A scan does not depend on the order in which folders list their entries. -/
lemma gather_eq_of_reordered (hproper : fs.top.all Entry.isProper = true)
    (hopen : ∀ e, fs.entry start = .ok e → e.all Entry.isOpen = true) (hhome : fs'.home = fs.home)
    (h : fs.top.Reordered fs'.top) : fs'.gather start = fs.gather start := by
  obtain ⟨hproper', halike⟩ := h.isProper_and_alike hproper
  have hopen' : ∀ e, fs'.entry start = .ok e → e.all Entry.isOpen = true := by
    intro e' he'
    obtain ⟨e, he, halike'⟩ := exists_entry_alike hhome.symm halike.symm he'
    obtain ⟨place, -, hplace⟩ := entry_eq_ok_iff.mp he'
    exact halike'.symm.all_isOpen (Entry.all_of_get? hproper' hplace) (hopen e he)
  obtain ⟨files, hgather, hsorted, hmem⟩ := exists_gather_eq hproper hopen
  obtain ⟨files', hgather', hsorted', hmem'⟩ := exists_gather_eq hproper' hopen'
  have hsame : files' = files := by
    refine Path.eq_of_pairwise_before hsorted' hsorted fun p => ?_
    rw [hmem, hmem']
    constructor
    · rintro ⟨e', names, he', hfinds, rfl⟩
      obtain ⟨e, he, halike'⟩ := exists_entry_alike hhome.symm halike.symm he'
      exact ⟨e, names, he, halike'.finds hfinds, rfl⟩
    · rintro ⟨e, names, he, hfinds, rfl⟩
      obtain ⟨e', he', halike'⟩ := exists_entry_alike hhome halike he
      exact ⟨e', names, he', halike'.finds hfinds, rfl⟩
  rw [hgather, hgather', hsame]

/-- A scan finds exactly the serialized files, if all folders at or below the start have paths that
can be looked up. -/
lemma finds_iff_below (hshort : ∀ p x, fs.Below start p x → x.isFolder = true →
      Path.isTooLong p = false) :
    (∃ e names, fs.entry start = .ok e ∧ e.Finds start names ∧ p = Path.joinAll start names) ↔
      (∃ x, fs.Below start p x ∧ x.isFolder = false) ∧ Path.IsSerialized p := by
  constructor
  · rintro ⟨e, names, he, ⟨x, hx, -, hserialized, hfile⟩, rfl⟩
    have hbelow : fs.Below start (Path.joinAll start names) x := ⟨e, names, he, hx, rfl⟩
    refine ⟨⟨x, hbelow, Bool.eq_false_iff.mpr fun hfolder => ?_⟩, hserialized⟩
    rw [hfolder, hshort _ x hbelow hfolder] at hfile
    simp at hfile
  · rintro ⟨⟨x, ⟨e, names, he, hx, rfl⟩, hfile⟩, hserialized⟩
    refine ⟨e, names, he, ⟨x, hx, fun way hpre hne => ?_, hserialized, .inl hfile⟩, rfl⟩
    obtain ⟨y, hy, hfolder⟩ := Entry.exists_folder_of_prefix hx hpre hne
    exact hshort _ y ⟨e, way, he, hy, rfl⟩ hfolder

/-- Scans are exact and do not depend on the order of listings.  In a file system whose names are
proper and distinct, let it be possible to list all folders at or below the start, and let there be
no links and no devices among them; the path of the start itself may lead through links.  Pipes,
sockets, and folders that can be listed but not gone through are no entries at all.  Then the scan
succeeds, and its result is strictly increasing in the order of components, without duplicates.  It
has the serialized names of files, and of folders that cannot be told from files because their paths
are too long, as far as all folders around them have paths that can be looked up.  So if no folder
at or below the start has a path that is too long, the result has exactly the files at or below the
start whose extension is that of serialized files, in folders of whatever name, and no folders.
Folders may list their entries in any order, and where nothing is, nothing is found. -/
theorem gather_exact (fs : FileSystem) (start : String)
    (hproper : fs.top.all Entry.isProper = true)
    (hopen : ∀ e, fs.entry start = .ok e → e.all Entry.isOpen = true) :
    ∃ files, fs.gather start = .ok files ∧ files.Pairwise Path.Before ∧ files.Nodup ∧
      (∀ p, p ∈ files ↔
        ∃ e names, fs.entry start = .ok e ∧ e.Finds start names ∧ p = Path.joinAll start names) ∧
      ((∀ p x, fs.Below start p x → x.isFolder = true → Path.isTooLong p = false) →
        (∀ p, p ∈ files ↔
          (∃ x, fs.Below start p x ∧ x.isFolder = false) ∧ Path.IsSerialized p) ∧
        ∀ p x, p ∈ files → fs.Below start p x → x.isFolder = false) ∧
      (∀ fs' : FileSystem, fs'.home = fs.home → fs.top.Reordered fs'.top →
        fs'.gather start = .ok files) ∧
      ((∃ error, fs.entry start = .error error) → files = []) := by
  obtain ⟨files, hgather, hsorted, hmem⟩ := exists_gather_eq hproper hopen
  refine ⟨files, hgather, hsorted, ?_, hmem, fun hshort => ?_, ?_, ?_⟩
  · exact hsorted.imp fun hbefore heq => hbefore.ne (congrArg Path.components heq)
  · have hexact : ∀ p, p ∈ files ↔
        (∃ x, fs.Below start p x ∧ x.isFolder = false) ∧ Path.IsSerialized p :=
      fun p => (hmem p).trans (finds_iff_below hshort)
    refine ⟨hexact, fun p x hp hx => ?_⟩
    obtain ⟨⟨y, hy, hfile⟩, -⟩ := (hexact p).mp hp
    rwa [hx.unique hproper hy]
  · intro fs' hhome hreordered
    rw [gather_eq_of_reordered hproper hopen hhome hreordered, hgather]
  · rintro ⟨error, herror⟩
    exact Except.ok.inj (hgather.symm.trans (gather_of_error herror))

/-- A folder with a serialized file, a folder that has the beginning of its name, and a folder that
is named like a serialized file.  There is a serialized file in each of the two. -/
def mixed : FileSystem where
  top := .folder [("d", .folder [
    ("x.bin", .folder [("y.Bin", .file [])]),
    ("a.bin", .file []),
    ("a", .folder [("b.BINARY", .file []), ("c.txt", .file [])])])]
  home := []

/-- The paths of its folders can be looked up. -/
lemma isTooLong_mixed (x : Entry) (hbelow : mixed.Below "d" p x) (hfolder : x.isFolder = true) :
    Path.isTooLong p = false := by
  obtain ⟨e, names, he, hx, rfl⟩ := hbelow
  -- A folder has no folders in it if it has nothing but files.
  have hfile : ∀ content names, (Entry.file content).get? names ≠ some x := by
    rintro content (_ | ⟨name, names⟩) hx
    · rw [← Option.some.inj hx] at hfolder
      cases hfolder
    · cases hx
  have hfiles : ∀ es : List (String × Entry), (∀ q ∈ es, ∃ content, q.2 = .file content) →
      ∀ name names, (Entry.folder es).get? (name :: names) ≠ some x := by
    intro es hes name names hx
    obtain ⟨c, hc, hrest⟩ := Option.bind_eq_some_iff.mp hx
    obtain ⟨content, rfl⟩ := hes _ (Entry.mem_of_lookup hc)
    exact hfile content names hrest
  have hplaces : names = [] ∨ names = ["x.bin"] ∨ names = ["a"] := by
    cases he
    rcases names with _ | ⟨name, names⟩
    · exact .inl rfl
    obtain ⟨c, hc, hrest⟩ := Option.bind_eq_some_iff.mp hx
    have hmem := Entry.mem_of_lookup hc
    simp only [List.mem_cons, Prod.mk.injEq, List.not_mem_nil, or_false] at hmem
    rcases hmem with ⟨rfl, rfl⟩ | ⟨rfl, rfl⟩ | ⟨rfl, rfl⟩
    · rcases names with _ | ⟨name, names⟩
      · exact .inr (.inl rfl)
      · exact absurd hrest (hfiles _ (by simp) name names)
    · exact absurd hrest (hfile _ names)
    · rcases names with _ | ⟨name, names⟩
      · exact .inr (.inr rfl)
      · exact absurd hrest (hfiles _ (by simp) name names)
  rcases hplaces with rfl | rfl | rfl <;> decide

/-- The three serialized files are found, the folder with the name of one is not, and the folder
comes first whose name is the beginning of the name of a file, though not in the order of texts. -/
theorem gather_exact_mixed :
    ∃ files, mixed.gather "d" = .ok files ∧ files.Nodup ∧ "d/a.bin" ∈ files ∧
      "d/a/b.BINARY" ∈ files ∧ "d/x.bin/y.Bin" ∈ files ∧ "d/x.bin" ∉ files ∧
      Path.Before "d/a/b.BINARY" "d/a.bin" ∧ "d/a.bin" < "d/a/b.BINARY" := by
  have hentry : ∃ e, mixed.entry "d" = .ok e ∧ e.all Entry.isOpen = true := ⟨_, rfl, by decide⟩
  obtain ⟨e, he, hopen⟩ := hentry
  obtain ⟨files, hgather, -, hnodup, -, hexact, -, -⟩ := gather_exact mixed "d" (by decide)
    (fun e' he' => Except.ok.inj (he.symm.trans he') ▸ hopen)
  obtain ⟨hmem, hfolders⟩ := hexact fun p x => isTooLong_mixed x
  have hfound : ∀ names extension, (∃ e, mixed.entry "d" = .ok e ∧ e.get? names = some (.file [])) →
      Path.extension? (Path.joinAll "d" names) = some extension →
      FileType.lower extension = "bin" ∨ FileType.lower extension = "binary" →
      Path.joinAll "d" names ∈ files := by
    rintro names extension ⟨e, he, hfile⟩ hextension hlower
    exact (hmem _).mpr ⟨⟨_, ⟨e, names, he, hfile, rfl⟩, rfl⟩, extension, hextension, hlower⟩
  refine ⟨files, hgather, hnodup, ?_, ?_, ?_, fun hlisted => ?_, by decide, by decide⟩
  · exact hfound ["a.bin"] "bin" ⟨_, rfl, rfl⟩ (by decide) (by decide)
  · exact hfound ["a", "b.BINARY"] "BINARY" ⟨_, rfl, rfl⟩ (by decide) (by decide)
  · exact hfound ["x.bin", "y.Bin"] "Bin" ⟨_, rfl, rfl⟩ (by decide) (by decide)
  · have hfile := hfolders "d/x.bin" _ hlisted ⟨_, ["x.bin"], rfl, rfl, by decide⟩
    cases hfile

/-! ### Paths that are too long -/

/-- A slash at the end of the path of a folder makes no difference, as long as the path can be
looked up. -/
lemma entry_append_slash {es : List (String × Entry)} (he : fs.entry start = .ok (.folder es))
    (hshort : Path.isTooLong (start ++ "/") = false) :
    fs.entry (start ++ "/") = .ok (.folder es) := by
  obtain ⟨husable, place, left, hfollow, hplace⟩ := entry_eq_ok_iff_follow.mp he
  have husable' : AccessError.ofPath? (start ++ "/") = none := by
    simp only [AccessError.ofPath?] at husable ⊢
    split_ifs at husable with hnul
    simpa [hshort] using hnul
  have hsegments : Path.segments (start ++ "/") = Path.segments start ++ [""] := by
    simpa using Path.segments_append_slash start "" (by simp)
  have hstart : fs.start (start ++ "/") = fs.start start := by
    rw [FileSystem.start, FileSystem.start, origin, origin,
      Path.isAbsolute_append (ne_empty_of_entry he)]
  have hlook := look_of_folder hplace
  refine entry_eq_ok_iff_follow.mpr ⟨husable', place, left, ?_, hplace⟩
  rw [hsegments, hstart, follow_append, hfollow]
  simp [Except.bind, follow_cons, hlook]

/-- Neither do several slashes. -/
lemma entry_addSlashes {es : List (String × Entry)} {n : Nat}
    (he : fs.entry start = .ok (.folder es))
    (hshort : Path.isTooLong (Path.addSlashes start n) = false) :
    fs.entry (Path.addSlashes start n) = .ok (.folder es) := by
  induction n with
  | zero => exact he
  | succ n ih =>
    have hshort' : Path.isTooLong (Path.addSlashes start n) = false := by
      simp only [Path.isTooLong, Path.utf8ByteSize_addSlashes, decide_eq_false_iff_not] at hshort ⊢
      omega
    exact entry_append_slash (ih hshort') hshort

/-- A folder whose path is too long is taken for a file, and what is in it is not found. -/
lemma gather_eq_of_isTooLong {name : String} {es : List (String × Entry)}
    (he : fs.entry start = .ok (.folder [(name, .folder es)]))
    (hlong : Path.isTooLong (Path.join start name) = true)
    (hserialized : Path.IsSerialized (Path.join start name)) :
    fs.gather start = .ok [Path.join start name] := by
  have hvisit : fs.visit Path.maxSize (Path.join start name) = .ok [Path.join start name] := by
    rw [visit, isFolder_of_isTooLong hlong, if_neg Bool.false_ne_true, serialized,
      if_pos (Path.isSerialized_iff.mp hserialized)]
  rw [gather, scanWith_folder he, List.mapM_cons, hvisit]
  exact congrArg Except.ok (List.mergeSort_singleton _)

/-- A serialized file in a folder that is named like one. -/
def nested : FileSystem where
  top := .folder [("d", .folder [("x.bin", .folder [("a.bin", .file [])])])]
  home := []

/-- With enough slashes behind the start, the file is not found and the folder around it is. -/
lemma gather_nested {n : Nat} (hlower : 4090 ≤ n) (hupper : n ≤ 4094) :
    ∃ p q es, nested.gather (Path.addSlashes "d" n) = .ok [p] ∧
      nested.Below (Path.addSlashes "d" n) p (.folder es) ∧
      nested.Below (Path.addSlashes "d" n) q (.file []) ∧ Path.IsSerialized q ∧ q ≠ p := by
  have hsize : (Path.addSlashes "d" n).utf8ByteSize = 1 + n := Path.utf8ByteSize_addSlashes "d" n
  have hshort : Path.isTooLong (Path.addSlashes "d" n) = false := by
    rw [Path.isTooLong, Path.maxSize, decide_eq_false_iff_not]
    omega
  have he : nested.entry (Path.addSlashes "d" n) =
      .ok (.folder [("x.bin", .folder [("a.bin", .file [])])]) := entry_addSlashes rfl hshort
  generalize Path.addSlashes "d" n = start at *
  have hlong : Path.isTooLong (Path.join start "x.bin") = true := by
    have hjoin := Path.utf8ByteSize_le_join start "x.bin"
    have hname : "x.bin".utf8ByteSize = 5 := by decide
    rw [Path.isTooLong, Path.maxSize, decide_eq_true_iff]
    omega
  have hstart : start ≠ "" := ne_empty_of_entry he
  have hx : Path.IsSerialized (Path.join start "x.bin") :=
    Path.isSerialized_join "bin" hstart (by decide) (by decide) (.inl (by decide))
  have ha : Path.IsSerialized (Path.join (Path.join start "x.bin") "a.bin") :=
    Path.isSerialized_join "bin" (Path.join_ne_empty hstart "x.bin") (by decide) (by decide)
      (.inl (by decide))
  have hfolder : nested.Below start (Path.join start "x.bin") _ := ⟨_, ["x.bin"], he, rfl, rfl⟩
  have hfile : nested.Below start (Path.join (Path.join start "x.bin") "a.bin") (.file []) :=
    ⟨_, ["x.bin", "a.bin"], he, rfl, rfl⟩
  refine ⟨_, _, _, gather_eq_of_isTooLong he hlong hx, hfolder, hfile, ha, fun heq => ?_⟩
  rw [heq] at hfile
  cases hfolder.unique (by decide) hfile

/-- All folders can be listed and all names are proper and distinct, and yet a scan lists a folder
and leaves out the serialized file in it. -/
theorem gather_lists_overlong_folder :
    nested.top.all Entry.isProper = true ∧ nested.top.all Entry.isOpen = true ∧
      ∃ p q es, nested.gather (Path.addSlashes "d" 4092) = .ok [p] ∧
        nested.Below (Path.addSlashes "d" 4092) p (.folder es) ∧
        nested.Below (Path.addSlashes "d" 4092) q (.file []) ∧ Path.IsSerialized q ∧ q ≠ p :=
  ⟨by decide, by decide, gather_nested (by decide) (by decide)⟩

end FileSystem

end Arbor
