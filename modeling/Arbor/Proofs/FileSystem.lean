import Arbor.FileSystem
import Mathlib.Data.List.Basic
import Mathlib.Tactic.Lemma
import Mathlib.Tactic.SplitIfs

/-!
# Writing files

A file that is written changes a file system at one place, and is found there afterwards
(`FileSystem.write_of_fits`).  If the disk has not enough room, the beginning of the content is
found there instead, and what was there before is lost (`FileSystem.write_of_not_fits`).

File systems are compared by what is seen at each place (`FileSystem.look`): a folder is seen
without what is in it, since that is seen at other places, and a link is seen as its text.
`FileSystem.Opens` says where a path leads to for writing: to a name in a folder that exists, under
which there is nothing, a file that may be written, or a device.  The name may also be that of a
link, and then the text of the link says where to go on.
-/

namespace Arbor

open Wire (Bytes)

/-- The bytes of a text, as they stand in a file. -/
def bytesOf (text : String) : Bytes :=
  text.toUTF8.data.toList

/-- What is seen of an entry from outside. -/
inductive Look where
  | file (content : Bytes)
  | folder
  | locked (isFolder : Bool)
  | link (target : String)
  | sink
  deriving DecidableEq

/-- A file may be put where nothing is seen, or a file that is not locked. -/
def Look.IsFree : Option Look → Prop
  | none | some (.file _) => True
  | _ => False

namespace Entry

/-- What is seen of an entry: the content of a file, but not what is in a folder. -/
def look : Entry → Look
  | file content => .file content
  | folder _ => .folder
  | locked isFolder => .locked isFolder
  | link target => .link target
  | sink => .sink

/-- No names lead to the entry itself. -/
@[simp] lemma get?_nil (e : Entry) : e.get? [] = some e := rfl

/-- Names are followed one by one. -/
@[simp] lemma get?_cons (e : Entry) (n : String) (ns : List String) :
    e.get? (n :: ns) = (e.child? n).bind (·.get? ns) := rfl

/-- Names in a folder are looked up in its entries. -/
@[simp] lemma child?_folder (n : String) (es : List (String × Entry)) :
    (folder es).child? n = es.lookup n := rfl

/-- There are no names in a file. -/
@[simp] lemma child?_file (n : String) (content : Bytes) : (file content).child? n = none := rfl

/-- No names in something locked can be seen. -/
@[simp] lemma child?_locked (n : String) (b : Bool) : (locked b).child? n = none := rfl

/-- There are no names in a link. -/
@[simp] lemma child?_link (n : String) (target : String) : (link target).child? n = none := rfl

/-- There are no names in a device. -/
@[simp] lemma child?_sink (n : String) : sink.child? n = none := rfl

/-- Following names in two parts is following them all. -/
lemma get?_append (e : Entry) (ns ms : List String) :
    e.get? (ns ++ ms) = (e.get? ns).bind (·.get? ms) := by
  induction ns generalizing e with
  | nil => rfl
  | cons n ns ih =>
    rw [List.cons_append, get?_cons, get?_cons, Option.bind_assoc]
    exact congrArg _ (funext ih)

/-- An entry that is seen as a folder is one. -/
lemma look_eq_folder_iff {e : Entry} : e.look = .folder ↔ ∃ es, e = folder es := by
  cases e <;> simp [look]

/-- The entry with a name is that of the first pair, if it has the name. -/
lemma lookup_cons_eq_ite (n m : String) (e : Entry) (es : List (String × Entry)) :
    ((m, e) :: es).lookup n = if n = m then some e else es.lookup n := by
  by_cases h : n = m
  · simp [h]
  · have hbeq : (n == m) = false := beq_false_of_ne h
    simp [List.lookup_cons, hbeq, h]

/-- Replacing the entry of one name leaves the other names alone. -/
lemma lookup_setName (name n : String) (new : Entry) (es : List (String × Entry)) :
    (setName name new es).lookup n = if n = name then some new else es.lookup n := by
  induction es with
  | nil => exact lookup_cons_eq_ite n name new []
  | cons e es ih =>
    obtain ⟨m, e⟩ := e
    by_cases hm : m = name
    · subst hm
      simp only [setName, if_true, lookup_cons_eq_ite]
      split_ifs <;> rfl
    · simp only [setName, hm, if_false, lookup_cons_eq_ite, ih]
      grind

/-- A file that is put into a folder, under a name of nothing or of a file, is seen there, and
everything else is seen as before. -/
lemma look_put {e : Entry} {ns : List String} {n : String} (content : Bytes)
    (hfolder : (e.get? ns).map look = some .folder)
    (hfree : Look.IsFree ((e.get? (ns ++ [n])).map look)) (names : List String) :
    ((e.put (ns ++ [n]) (.file content)).get? names).map look =
      if names = ns ++ [n] then some (.file content) else (e.get? names).map look := by
  induction ns generalizing e names with
  | nil =>
    obtain ⟨es, rfl⟩ : ∃ es, e = folder es := by simpa [look_eq_folder_iff] using hfolder
    have hput : (folder es).put ([] ++ [n]) (file content) = folder (setName n (file content) es) :=
      rfl
    rw [hput]
    rcases names with _ | ⟨m, names⟩
    · simp [look]
    · by_cases hm : m = n
      · subst hm
        rcases names with _ | ⟨k, names⟩
        · simp [lookup_setName, look]
        · -- below a file there is nothing, before and after
          have hbefore : (folder es).get? (m :: k :: names) = none := by
            rcases hlookup : es.lookup m with _ | (old | es' | b | target | _)
            all_goals simp [hlookup, look, Look.IsFree] at hfree ⊢
          have hafter : (folder (setName m (file content) es)).get? (m :: k :: names) = none := by
            simp [lookup_setName]
          rw [hbefore, hafter]
          simp
      · simp [lookup_setName, hm]
  | cons k ns ih =>
    obtain ⟨es, rfl⟩ : ∃ es, e = folder es := by
      cases e <;> simp_all
    rcases hlookup : es.lookup k with _ | e
    · simp [hlookup] at hfolder
    · have hput : (folder es).put (k :: ns ++ [n]) (file content) =
          folder (setName k (e.put (ns ++ [n]) (file content)) es) := by
        simp [put, hlookup]
      rw [hput]
      rcases names with _ | ⟨m, names⟩
      · simp [look]
      · by_cases hm : m = k
        · subst hm
          simp only [get?_cons, child?_folder, hlookup, Option.bind_some, lookup_setName, if_true,
            List.cons_append] at hfolder hfree ⊢
          rw [ih hfolder hfree names]
          simp
        · simp [lookup_setName, hm]

end Entry

namespace FileSystem

/-- What is seen at the end of a list of names from the top. -/
def look (fs : FileSystem) (names : List String) : Option Look :=
  (fs.top.get? names).map Entry.look

/-- One file system is another one with a file of the given content at a place, and nothing else
is different. -/
structure Revises (fs' fs : FileSystem) (place : List String) (content : Bytes) : Prop where
  home : fs'.home = fs.home
  look : ∀ names, fs'.look names = if names = place then some (.file content) else fs.look names

variable {fs fs' : FileSystem} {path : String} {place : List String} {content : Bytes}

/-- A folder is seen as one. -/
lemma look_of_folder {es : List (String × Entry)} (h : fs.top.get? place = some (.folder es)) :
    fs.look place = some .folder := by
  rw [look, h]
  rfl

/-- An entry that is no folder is told by what is seen of it. -/
lemma get?_of_look {e : Entry} (h : fs.look place = some e.look) (he : e.isFolder = false) :
    fs.top.get? place = some e := by
  obtain ⟨x, hget, hx⟩ := Option.map_eq_some_iff.mp h
  have hsame : x = e := by cases x <;> cases e <;> simp_all [Entry.look, Entry.isFolder]
  rw [hget, hsame]

/-- The file is seen at its place. -/
lemma Revises.look_self (h : fs'.Revises fs place content) :
    fs'.look place = some (.file content) := by
  rw [h.look, if_pos rfl]

/-- What is no file is still seen. -/
lemma Revises.look_of_not_isFree (h : fs'.Revises fs place content)
    (hfree : Look.IsFree (fs.look place)) {names : List String} {look : Look}
    (hlook : fs.look names = some look) (hnot : ¬ Look.IsFree (some look)) :
    fs'.look names = some look := by
  have hne : names ≠ place := by
    rintro rfl
    rw [hlook] at hfree
    exact hnot hfree
  rw [h.look, if_neg hne, hlook]

/-- What is seen under a name in a folder. -/
lemma look_append_singleton {es : List (String × Entry)}
    (h : fs.top.get? place = some (.folder es)) (name : String) :
    fs.look (place ++ [name]) = (es.lookup name).map Entry.look := by
  simp [look, Entry.get?_append, h]

/-! ### Following paths -/

/-- Go on from a link in a folder, if one more link may be followed. -/
def followLink (fs : FileSystem) :
    Nat → List String → String → List String → Except AccessError (List String × Nat)
  | 0, _, _, _ => .error .tooManyLinks
  | links + 1, folder, target, rest =>
    match AccessError.ofPath? target with
    | some e => .error e
    | none => fs.follow links (origin folder target) (Path.segments target ++ rest)

/-- All links are followed in the same way. -/
lemma follow_eq_followWith (fs : FileSystem) (links : Nat) :
    fs.follow links = fs.followWith links (fs.followLink links) := by
  cases links <;> rfl

/-- Without segments, a path leads to where it starts. -/
@[simp] lemma follow_nil (fs : FileSystem) (links : Nat) (place : List String) :
    fs.follow links place [] = .ok (place, links) := by
  rw [follow_eq_followWith]
  rfl

/-- Whether and where a path leads on can be told from what is seen. -/
lemma follow_cons (fs : FileSystem) (links : Nat) (place : List String) (segment : String)
    (rest : List String) :
    fs.follow links place (segment :: rest) =
      match fs.look place with
      | none => .error .notFound
      | some (.locked true) =>
        if segment = "" then fs.follow links place rest else .error .denied
      | some .folder =>
        if segment = "" ∨ segment = "." then fs.follow links place rest
        else if segment = ".." then fs.follow links place.dropLast rest
        else if Path.isLongName segment then .error .nameTooLong
        else
          match fs.look (place ++ [segment]) with
          | none => .error .notFound
          | some (.link target) => fs.followLink links place target rest
          | some _ => fs.follow links (place ++ [segment]) rest
      | some _ => .error .notFolder := by
  rw [follow_eq_followWith]
  rcases hentry : fs.top.get? place with _ | (old | es | b | target | _)
  · simp [followWith, look, hentry]
  · simp [followWith, look, hentry, Entry.look]
  · rw [look_append_singleton hentry, look_of_folder hentry]
    rcases hlookup : es.lookup segment with _ | (old | es' | b | target | _)
    all_goals simp [followWith, hentry, hlookup, Entry.look]
  · cases b <;> simp [followWith, look, hentry, Entry.look]
  · simp [followWith, look, hentry, Entry.look]
  · simp [followWith, look, hentry, Entry.look]

/-- To show something about following a path, it may be assumed for the rest of the path, and for
all paths if fewer links may be followed. -/
theorem follow_induction {P : Nat → List String → List String → Prop}
    (hnil : ∀ links place, P links place [])
    (hcons : ∀ links place segment rest, (∀ place', P links place' rest) →
      (∀ fewer, links = fewer + 1 → ∀ place' segments, P fewer place' segments) →
      P links place (segment :: rest))
    (links : Nat) (place segments : List String) : P links place segments := by
  -- the number of links is the outer induction, since a link may stand for any path
  induction links generalizing place segments with
  | zero =>
    induction segments generalizing place with
    | nil => exact hnil 0 place
    | cons segment rest ih => exact hcons 0 place segment rest ih fun _ h => nomatch h
  | succ links ihlinks =>
    induction segments generalizing place with
    | nil => exact hnil (links + 1) place
    | cons segment rest ih =>
      refine hcons (links + 1) place segment rest ih fun fewer h => ?_
      obtain rfl : links = fewer := by omega
      exact ihlinks

/-- A path in two parts is followed to the end of the first part, and from there with the links that
are left. -/
lemma follow_append (fs : FileSystem) (links : Nat) (place first second : List String) :
    fs.follow links place (first ++ second) =
      (fs.follow links place first).bind fun r => fs.follow r.2 r.1 second := by
  induction links, place, first using follow_induction with
  | hnil links place => simp [Except.bind]
  | hcons links place segment rest ih ihlinks =>
    have hlink : ∀ target, fs.followLink links place target (rest ++ second) =
        (fs.followLink links place target rest).bind fun r => fs.follow r.2 r.1 second := by
      intro target
      cases links with
      | zero => rfl
      | succ links =>
        rw [followLink, followLink]
        rcases AccessError.ofPath? target with _ | e
        · rw [← List.append_assoc]
          exact ihlinks links rfl _ _
        · rfl
    rw [List.cons_append, follow_cons, follow_cons]
    split
    · rfl
    · split_ifs
      · exact ih _
      · rfl
    · split_ifs
      · exact ih _
      · exact ih _
      · rfl
      · split
        · rfl
        · exact hlink _
        · exact ih _
    · rfl

/-- Following a path uses up links. -/
lemma follow_links_le {links left : Nat} {names segments place : List String}
    (h : fs.follow links names segments = .ok (place, left)) : left ≤ links := by
  induction links, names, segments using follow_induction with
  | hnil links names =>
    rw [follow_nil, Except.ok.injEq, Prod.mk.injEq] at h
    exact Nat.le_of_eq h.2.symm
  | hcons links names segment rest ih ihlinks =>
    rw [follow_cons] at h
    split at h
    · cases h
    · split_ifs at h
      exact ih _ h
    · split_ifs at h
      · exact ih _ h
      · exact ih _ h
      · split at h
        · cases h
        · cases links with
          | zero => cases h
          | succ links =>
            rw [followLink] at h
            split at h
            · cases h
            · exact Nat.le_succ_of_le (ihlinks links rfl _ _ h)
        · exact ih _ h
    · cases h

/-- A path that leads somewhere still leads there when a file is written. -/
lemma Revises.follow_eq_ok (hrevises : fs'.Revises fs place content)
    (hfree : Look.IsFree (fs.look place)) {links : Nat} {names segments : List String}
    {r : List String × Nat} (h : fs.follow links names segments = .ok r) :
    fs'.follow links names segments = .ok r := by
  induction links, names, segments using follow_induction with
  | hnil links names => rwa [follow_nil] at h ⊢
  | hcons links names segment rest ih ihlinks =>
    have hne : names ≠ place := by
      rintro rfl
      rw [follow_cons] at h
      rcases hlook : fs.look names with _ | (old | _ | b | target | _)
      all_goals simp_all [Look.IsFree]
    have hsame : fs'.look names = fs.look names := by rw [hrevises.look, if_neg hne]
    rw [follow_cons] at h ⊢
    rw [hsame]
    split at h
    · cases h
    · split_ifs at h ⊢
      exact ih _ h
    · split_ifs at h ⊢
      · exact ih _ h
      · exact ih _ h
      · rcases eq_or_ne (names ++ [segment]) place with heq | hother
        · -- the name is that of the file, and not of a link
          rw [heq, hrevises.look_self]
          rw [heq] at h
          rcases hlook : fs.look place with _ | (old | _ | b | target | _)
          all_goals simp only [hlook, Look.IsFree, reduceCtorEq] at h hfree
          exact ih _ h
        · rw [hrevises.look, if_neg hother]
          split at h
          · cases h
          · cases links with
            | zero => cases h
            | succ links =>
              rw [followLink] at h ⊢
              split at h
              · cases h
              · exact ihlinks links rfl _ _ h
          · exact ih _ h
    · cases h

/-! ### Opening files -/

/-- Segments lead to a folder and a name in it, and some links are left. -/
structure EndsAt (fs : FileSystem) (links : Nat) (names segments folder : List String)
    (name : String) (left : Nat) : Prop where
  /-- All segments but the last one lead to the folder. -/
  way : ∃ way, segments = way ++ [name] ∧ fs.follow links names way = .ok (folder, left)
  isFolder : fs.look folder = some .folder
  isName : name ≠ "" ∧ name ≠ "." ∧ name ≠ ".." ∧ Path.isLongName name = false

/-- Segments lead to a place where a file can be opened for writing: a name of nothing, of a file
that is not locked, or of a device; or the name of a link that leads to such a place. -/
inductive OpensFrom (fs : FileSystem) : Nat → List String → List String → List String → Prop where
  | name {links left : Nat} {names segments folder : List String} {name : String} :
      fs.EndsAt links names segments folder name left →
      Look.IsFree (fs.look (folder ++ [name])) ∨ fs.look (folder ++ [name]) = some .sink →
      OpensFrom fs links names segments (folder ++ [name])
  | link {links left : Nat} {names segments folder place : List String} {name target : String} :
      fs.EndsAt links names segments folder name (left + 1) →
      fs.look (folder ++ [name]) = some (.link target) → AccessError.ofPath? target = none →
      OpensFrom fs left (origin folder target) (Path.segments target) place →
      OpensFrom fs links names segments place

/-- A path leads to a place where a file can be opened for writing. -/
structure Opens (fs : FileSystem) (path : String) (place : List String) : Prop where
  usable : AccessError.ofPath? path = none
  leads : fs.OpensFrom maxLinks (fs.start path) (Path.segments path) place

/-- No file can be opened at a path that ends in a slash. -/
lemma targetWith_ne_ok {onLink : Nat → List String → String → Except AccessError (List String)}
    {links : Nat} {names segments : List String} (hslash : segments.getLast? = some "") :
    fs.targetWith onLink links names segments ≠ .ok place := by
  intro h
  simp only [targetWith, hslash] at h
  split at h
  · cases h
  · cases h
  · split at h <;> simp at h

/-- Whether and where a file can be opened can be told from what is seen. -/
lemma targetWith_eq {onLink : Nat → List String → String → Except AccessError (List String)}
    {links : Nat} {names way : List String} {name : String} (hname : name ≠ "") :
    fs.targetWith onLink links names (way ++ [name]) =
      (fs.follow links names way).bind fun (folder, left) =>
        match fs.look folder with
        | none => .error .notFound
        | some (.locked true) => .error .denied
        | some .folder =>
          if name = "." ∨ name = ".." then .error .isFolder
          else if Path.isLongName name then .error .nameTooLong
          else
            match fs.look (folder ++ [name]) with
            | some .folder | some (.locked true) => .error .isFolder
            | some (.locked false) => .error .denied
            | some (.file _) | some .sink | none => .ok (folder ++ [name])
            | some (.link target) => onLink left folder target
        | some _ => .error .notFolder := by
  have hbare : ((way ++ [name]).reverse.dropWhile (· = "")).reverse = way ++ [name] := by
    simp [hname]
  simp only [targetWith, hbare, List.dropLast_concat, List.getLast?_concat]
  rcases hfollow : fs.follow links names way with e | ⟨folder, left⟩
  · rfl
  rcases hentry : fs.top.get? folder with _ | (old | es | b | target | _)
  · simp [look, hentry, Except.bind]
  · simp [look, hentry, Except.bind, Entry.look]
  · simp only [Except.bind, look_of_folder hentry, look_append_singleton hentry, hentry]
    rcases es.lookup name with _ | (old | es | (_ | _) | target | _) <;> simp [hname, Entry.look]
  · cases b <;> simp [look, hentry, Except.bind, Entry.look]
  · simp [look, hentry, Except.bind, Entry.look]
  · simp [look, hentry, Except.bind, Entry.look]

/-- A file is opened at the name that a path ends with, or where a link of that name leads to. -/
lemma targetWith_eq_ok_iff
    {onLink : Nat → List String → String → Except AccessError (List String)} {links : Nat}
    {names segments : List String} :
    fs.targetWith onLink links names segments = .ok place ↔
      ∃ folder name left, fs.EndsAt links names segments folder name left ∧
        ((Look.IsFree (fs.look (folder ++ [name])) ∨ fs.look (folder ++ [name]) = some .sink) ∧
            place = folder ++ [name] ∨
          ∃ target, fs.look (folder ++ [name]) = some (.link target) ∧
            onLink left folder target = .ok place) := by
  constructor
  · intro h
    rcases List.eq_nil_or_concat segments with rfl | ⟨way, name, rfl⟩
    · simp [targetWith] at h
    rw [List.concat_eq_append] at h ⊢
    by_cases hname : name = ""
    · exact absurd h (targetWith_ne_ok (by simp [hname]))
    rw [targetWith_eq hname] at h
    rcases hfollow : fs.follow links names way with e | ⟨folder, left⟩
    · simp [hfollow, Except.bind] at h
    simp only [hfollow, Except.bind] at h
    rcases hfolder : fs.look folder with _ | (old | _ | (_ | _) | target | _)
    all_goals simp only [hfolder, reduceCtorEq] at h
    split_ifs at h with hdots hlong
    have hends : fs.EndsAt links names (way ++ [name]) folder name left :=
      ⟨⟨way, rfl, hfollow⟩, hfolder, hname, (not_or.mp hdots).1, (not_or.mp hdots).2,
        by simpa using hlong⟩
    refine ⟨folder, name, left, hends, ?_⟩
    rcases hlook : fs.look (folder ++ [name]) with _ | (old | _ | (_ | _) | target | _)
    all_goals simp_all [Look.IsFree]
  · rintro ⟨folder, name, left, ⟨⟨way, rfl, hfollow⟩, hfolder, hname, hdot, hdots, hlong⟩, hend⟩
    rw [targetWith_eq hname, hfollow]
    rcases hlook : fs.look (folder ++ [name]) with _ | (old | _ | b | target | _)
    all_goals simp_all [Except.bind, Look.IsFree]

/-- Go on from the link that a path ends with. -/
def targetLink (fs : FileSystem) :
    Nat → Nat → List String → String → Except AccessError (List String)
  | 0, _, _, _ | _ + 1, 0, _, _ => .error .tooManyLinks
  | turns + 1, links + 1, folder, target =>
    match AccessError.ofPath? target with
    | some e => .error e
    | none => fs.targetFrom turns links (origin folder target) (Path.segments target)

/-- All links at the end of a path are followed in the same way. -/
lemma targetFrom_eq_targetWith (fs : FileSystem) (turns : Nat) :
    fs.targetFrom turns = fs.targetWith (fs.targetLink turns) := by
  cases turns with
  | zero => rfl
  | succ turns =>
    refine congrArg fs.targetWith ?_
    funext links folder target
    cases links <;> rfl

/-- A file is opened exactly where the segments lead to for writing, as long as there are enough
turns for the links. -/
lemma targetFrom_eq_ok_iff {turns links : Nat} {names segments : List String}
    (hturns : links ≤ turns) :
    fs.targetFrom turns links names segments = .ok place ↔
      fs.OpensFrom links names segments place := by
  induction turns generalizing links names segments with
  | zero =>
    rw [targetFrom_eq_targetWith, targetWith_eq_ok_iff]
    constructor
    · rintro ⟨folder, name, left, hends, ⟨hfree, rfl⟩ | ⟨target, -, htarget⟩⟩
      · exact .name hends hfree
      · cases htarget
    · intro hopens
      cases hopens with
      | name hends hfree => exact ⟨_, _, _, hends, .inl ⟨hfree, rfl⟩⟩
      | link hends =>
        obtain ⟨way, -, hfollow⟩ := hends.way
        have hleft := follow_links_le hfollow
        omega
  | succ turns ih =>
    rw [targetFrom_eq_targetWith, targetWith_eq_ok_iff]
    constructor
    · rintro ⟨folder, name, left, hends, ⟨hfree, rfl⟩ | ⟨target, hlink, htarget⟩⟩
      · exact .name hends hfree
      · obtain ⟨way, -, hfollow⟩ := hends.way
        have hleft := follow_links_le hfollow
        cases left with
        | zero => cases htarget
        | succ left =>
          rw [targetLink] at htarget
          split at htarget
          · cases htarget
          · rename_i husable
            exact .link hends hlink husable ((ih (by omega)).mp htarget)
    · intro hopens
      cases hopens with
      | name hends hfree => exact ⟨_, _, _, hends, .inl ⟨hfree, rfl⟩⟩
      | @link _ left _ _ folder _ name target hends hlink husable hopens =>
        obtain ⟨way, -, hfollow⟩ := hends.way
        have hleft := follow_links_le hfollow
        refine ⟨folder, name, left + 1, hends, .inr ⟨target, hlink, ?_⟩⟩
        rw [targetLink, husable]
        exact (ih (by omega)).mpr hopens

/-- A path leads to a place for writing exactly if a file can be opened there. -/
lemma target_eq_ok_iff : fs.target path = .ok place ↔ fs.Opens path place := by
  rw [target]
  constructor
  · intro h
    split at h
    · cases h
    · rename_i husable
      exact ⟨husable, (targetFrom_eq_ok_iff (Nat.le_refl _)).mp h⟩
  · rintro ⟨husable, hopens⟩
    rw [husable]
    exact (targetFrom_eq_ok_iff (Nat.le_refl _)).mpr hopens

/-- A file is opened at a name in a folder, and what is there is a file, a device or nothing. -/
lemma OpensFrom.exists_folder {links : Nat} {names segments : List String}
    (h : fs.OpensFrom links names segments place) :
    (∃ folder name, place = folder ++ [name] ∧ fs.look folder = some .folder) ∧
      (Look.IsFree (fs.look place) ∨ fs.look place = some .sink) := by
  induction h with
  | name hends hfree => exact ⟨⟨_, _, rfl, hends.isFolder⟩, hfree⟩
  | link _ _ _ _ ih => exact ih

/-- Once a file is written, the segments that lead to its place for writing lead there. -/
lemma OpensFrom.follow_eq_ok {links : Nat} {names segments : List String}
    (h : fs.OpensFrom links names segments place) (hfree : Look.IsFree (fs.look place))
    (hrevises : fs'.Revises fs place content) :
    ∃ left, fs'.follow links names segments = .ok (place, left) := by
  induction h with
  | @name links left names segments folder name hends _ =>
    obtain ⟨⟨way, rfl, hfollow⟩, hfolder, hname, hdot, hdots, hlong⟩ := hends
    have hway := hrevises.follow_eq_ok hfree hfollow
    have hlast := hrevises.look_of_not_isFree hfree hfolder not_false
    refine ⟨left, ?_⟩
    simp [follow_append, hway, Except.bind, follow_cons, hlast, hname, hdot, hdots, hlong,
      hrevises.look_self]
  | @link links left names segments folder place name target hends hlink husable _ ih =>
    obtain ⟨⟨way, rfl, hfollow⟩, hfolder, hname, hdot, hdots, hlong⟩ := hends
    have hway := hrevises.follow_eq_ok hfree hfollow
    have hlast := hrevises.look_of_not_isFree hfree hfolder not_false
    have hlink' := hrevises.look_of_not_isFree hfree hlink not_false
    obtain ⟨left', hrest⟩ := ih hfree hrevises
    refine ⟨left', ?_⟩
    simp [follow_append, hway, Except.bind, follow_cons, hlast, hname, hdot, hdots, hlong, hlink',
      followLink, husable, hrest]

/-- A file that is written is what is then read at its path. -/
lemma Opens.read_eq_ok (hopens : fs.Opens path place) (hfree : Look.IsFree (fs.look place))
    (hrevises : fs'.Revises fs place content) : fs'.read path = .ok content := by
  have hstart : fs'.start path = fs.start path := by rw [start, start, hrevises.home]
  obtain ⟨left, hfollow⟩ := hopens.leads.follow_eq_ok hfree hrevises
  have hresolve : fs'.resolve path = .ok place := by
    simp [resolve, hopens.usable, hstart, hfollow, Except.map]
  have hget : fs'.top.get? place = some (.file content) := get?_of_look hrevises.look_self rfl
  simp only [read, entry, hresolve, hget]

/-! ### Writing -/

/-- How many bytes a file at a place can have, if there is a bound: the room on the disk, and what
the file there takes now. -/
def roomFor (fs : FileSystem) (place : List String) : Option Nat :=
  fs.room.map fun room =>
    match fs.look place with
    | some (.file old) => room + old.length
    | _ => room

/-- The disk has room for a file at a place. -/
def Fits (fs : FileSystem) (place : List String) (content : Bytes) : Prop :=
  ∀ room ∈ fs.roomFor place, content.length ≤ room

/-- A file system with a new file in place of nothing or of a file. -/
lemma revises_put {folder : List String} {name : String} (hfolder : fs.look folder = some .folder)
    (hfree : Look.IsFree (fs.look (folder ++ [name]))) (content : Bytes) (room : Option Nat) :
    Revises { fs with top := fs.top.put (folder ++ [name]) (.file content), room } fs
      (folder ++ [name]) content :=
  ⟨rfl, Entry.look_put content hfolder hfree⟩

/-- Opening a file for writing makes it empty, and there is as much room as for a new file. -/
lemma clear_eq {folder : List String} {name : String} (hfolder : fs.look folder = some .folder)
    (hfree : Look.IsFree (fs.look (folder ++ [name]))) :
    (fs.clear (folder ++ [name])).Revises fs (folder ++ [name]) [] ∧
      (fs.clear (folder ++ [name])).room = fs.roomFor (folder ++ [name]) := by
  have hput := revises_put hfolder hfree []
  rcases hentry : fs.top.get? (folder ++ [name]) with _ | (old | es | b | target | _)
  all_goals simp only [look, hentry, Option.map_some, Option.map_none, Entry.look, Look.IsFree]
    at hfree
  · have hclear : fs.clear (folder ++ [name]) =
        { fs with top := fs.top.put (folder ++ [name]) (.file []) } := by
      simp only [clear, hentry]
    have hroom : fs.roomFor (folder ++ [name]) = fs.room := by simp [roomFor, look, hentry]
    rw [hclear]
    exact ⟨hput fs.room, hroom.symm⟩
  · have hclear : fs.clear (folder ++ [name]) =
        { fs with
          top := fs.top.put (folder ++ [name]) (.file [])
          room := fs.room.map (· + old.length) } := by
      simp only [clear, hentry]
    have hroom : fs.roomFor (folder ++ [name]) = fs.room.map (· + old.length) := by
      simp [roomFor, look, hentry, Entry.look]
    rw [hclear]
    exact ⟨hput _, hroom.symm⟩

/-- Two changes of the same file are one. -/
lemma Revises.trans {fs'' : FileSystem} {content' : Bytes} (h : fs'.Revises fs place content)
    (h' : fs''.Revises fs' place content') : fs''.Revises fs place content' where
  home := h'.home.trans h.home
  look names := by
    rw [h'.look, h.look]
    split_ifs <;> rfl

/-- An empty file takes content as far as there is room. -/
lemma fill_eq {folder : List String} {name : String} (hfolder : fs.look folder = some .folder)
    (hempty : fs.look (folder ++ [name]) = some (.file [])) (content : Bytes) :
    ((∀ room ∈ fs.room, content.length ≤ room) →
      ∃ fs', fs.fill (folder ++ [name]) content = (.ok (), fs') ∧
        fs'.Revises fs (folder ++ [name]) content) ∧
    ∀ room, fs.room = some room → room < content.length →
      ∃ fs', fs.fill (folder ++ [name]) content = (.error .noSpace, fs') ∧
        fs'.Revises fs (folder ++ [name]) (content.take room) := by
  have hfree : Look.IsFree (fs.look (folder ++ [name])) := by
    rw [hempty]
    trivial
  have hentry : fs.top.get? (folder ++ [name]) = some (.file []) := get?_of_look hempty rfl
  constructor
  · intro hfits
    rcases hroom : fs.room with _ | room
    · refine ⟨_, ?_, revises_put hfolder hfree content none⟩
      simp only [fill, hentry, hroom]
    · have hle : content.length ≤ room := hfits room hroom
      refine ⟨_, ?_, revises_put hfolder hfree content (some (room - content.length))⟩
      simp only [fill, hentry, hroom, if_pos hle]
  · intro room hroom hlt
    refine ⟨_, ?_, revises_put hfolder hfree (content.take room) (some 0)⟩
    simp only [fill, hentry, hroom, if_neg (Nat.not_le.mpr hlt)]

/-- Writing a file succeeds if it can be opened and the disk has room.  It is then seen at its place
and read at its path, and everything else is as before. -/
lemma write_of_fits (hopens : fs.Opens path place) (hfree : Look.IsFree (fs.look place))
    (hfits : fs.Fits place content) :
    ∃ fs', fs.write path content = (.ok (), fs') ∧ fs'.Revises fs place content ∧
      fs'.read path = .ok content := by
  have htarget := target_eq_ok_iff.mpr hopens
  obtain ⟨⟨folder, name, rfl, hfolder⟩, -⟩ := hopens.leads.exists_folder
  obtain ⟨hclear, hroom⟩ := clear_eq hfolder hfree
  have hfolder' := hclear.look_of_not_isFree hfree hfolder not_false
  obtain ⟨fs', hfill, hrevises⟩ := (fill_eq hfolder' hclear.look_self content).1 (hroom ▸ hfits)
  have hboth := hclear.trans hrevises
  exact ⟨fs', by simp only [write, htarget, hfill], hboth, hopens.read_eq_ok hfree hboth⟩

/-- Writing a file that does not fit on the disk fails.  Then the beginning of the content is seen
at its place, and everything else is as before. -/
lemma write_of_not_fits (hopens : fs.Opens path place) (hfree : Look.IsFree (fs.look place))
    (hfits : ¬ fs.Fits place content) :
    ∃ room fs', fs.roomFor place = some room ∧ room < content.length ∧
      fs.write path content = (.error .noSpace, fs') ∧
      fs'.Revises fs place (content.take room) := by
  have htarget := target_eq_ok_iff.mpr hopens
  obtain ⟨⟨folder, name, rfl, hfolder⟩, -⟩ := hopens.leads.exists_folder
  obtain ⟨hclear, hroom⟩ := clear_eq hfolder hfree
  have hfolder' := hclear.look_of_not_isFree hfree hfolder not_false
  simp only [Fits, Option.mem_def, not_forall, Nat.not_le] at hfits
  obtain ⟨room, hsome, hlt⟩ := hfits
  obtain ⟨fs', hfill, hrevises⟩ :=
    (fill_eq hfolder' hclear.look_self content).2 room (hroom.trans hsome) hlt
  exact ⟨room, fs', hsome, hlt, by simp only [write, htarget, hfill], hclear.trans hrevises⟩

/-- Writing to a device succeeds and changes nothing. -/
lemma write_of_sink (hopens : fs.Opens path place) (hsink : fs.look place = some .sink)
    (content : Bytes) : fs.write path content = (.ok (), fs) := by
  have htarget := target_eq_ok_iff.mpr hopens
  have hentry : fs.top.get? place = some .sink := get?_of_look hsink rfl
  simp only [write, htarget, clear, hentry, fill]

/-- Writing a file that cannot be opened fails and changes nothing. -/
lemma write_of_not_opens (hopens : ∀ place, ¬ fs.Opens path place) (content : Bytes) :
    ∃ e, fs.write path content = (.error e, fs) := by
  rcases htarget : fs.target path with e | place
  · exact ⟨e, by simp only [write, htarget]⟩
  · exact absurd (target_eq_ok_iff.mp htarget) (hopens place)

end FileSystem

end Arbor
