import Arbor.Path
import Arbor.Wire.Fault

/-!
# File systems

A file system is a tree of folders with files at its leaves, and a current folder.  A
path is followed name by name: every name but the last has to lead to a folder, and so
has the last one if a slash comes after it.  A name that leads to a symbolic link stands
for the path that is the text of the link.  Names and paths that are too long, and texts
with a NUL character, stand for nothing.  A locked file or folder is seen from outside, but
there is no permission to use it.

Writing a file takes two steps.  First the file is made, or emptied if it is there; then
the content is put in it, as far as the disk has room.  So a write that fails may still
have changed the file.

Left out are files with more than one name, pipes, sockets, devices other than the one that
takes everything, and permissions that are given in part: files that can be read but not
written, and folders that can be listed but not gone through, or gone through but not listed
or changed.  Folders and links take no room.

## Main declarations

* `Entry`: a file, a folder with named entries, one of them locked, a link, or a device.
* `FileSystem`: the tree with the current folder and the room on the disk.
* `FileSystem.entry`, `FileSystem.read`, `FileSystem.write`: access by path.
-/

namespace Arbor

open Wire (Bytes)

/-- Why a path cannot be used. -/
inductive AccessError where
  /-- Nothing is there. -/
  | notFound
  /-- A file stands where a folder is needed. -/
  | notFolder
  /-- A folder stands where a file is needed. -/
  | isFolder
  /-- There is no permission. -/
  | denied
  /-- A name or the whole path is too long. -/
  | nameTooLong
  /-- The path contains a NUL character. -/
  | nulCharacter
  /-- The path leads through too many links. -/
  | tooManyLinks
  /-- The disk is full. -/
  | noSpace
  deriving DecidableEq, Inhabited

/-- The text of an access error. -/
def AccessError.message : AccessError → String
  | notFound => "No such file or directory (os error 2)"
  | notFolder => "Not a directory (os error 20)"
  | isFolder => "Is a directory (os error 21)"
  | denied => "Permission denied (os error 13)"
  | nameTooLong => "File name too long (os error 36)"
  | nulCharacter => "file name contained an unexpected NUL byte"
  | tooManyLinks => "Too many levels of symbolic links (os error 40)"
  | noSpace => "No space left on device (os error 28)"

/-- What is wrong with the text of a path, whatever files there are. -/
def AccessError.ofPath? (path : String) : Option AccessError :=
  if path.toList.contains '\x00' then some .nulCharacter
  else if path = "" then some .notFound
  else if Path.isTooLong path then some .nameTooLong
  else none

/-- What a name in a folder stands for. -/
inductive Entry where
  | file (content : Bytes)
  | folder (entries : List (String × Entry))
  /-- A file that can neither be read nor written, or a folder that can neither be listed
  nor gone through. -/
  | locked (isFolder : Bool)
  /-- A symbolic link, with the path it stands for. -/
  | link (target : String)
  /-- A device that takes everything that is written to it, and has no content. -/
  | sink
  deriving Inhabited

namespace Entry

/-- Whether an entry is a folder. -/
def isFolder : Entry → Bool
  | file _ => false
  | folder _ => true
  | locked isFolder => isFolder
  | link _ | sink => false

/-- The entry with the given name in a folder. -/
def child? (name : String) : Entry → Option Entry
  | folder es => es.lookup name
  | file _ | locked _ | link _ | sink => none

/-- The entry reached by following names. -/
def get? : Entry → List String → Option Entry
  | e, [] => some e
  | e, n :: ns => (e.child? n).bind fun c => c.get? ns

/-- Replace the entry of a name, or add one. -/
def setName (name : String) (new : Entry) : List (String × Entry) → List (String × Entry)
  | [] => [(name, new)]
  | (n, e) :: es => if n = name then (n, new) :: es else (n, e) :: setName name new es

/-- Put an entry at the end of a list of names.  Missing folders on the way are made;
anything else on the way leaves everything as it is. -/
def put : Entry → List String → Entry → Entry
  | _, [], new => new
  | file content, _ :: _, _ => file content
  | locked isFolder, _ :: _, _ => locked isFolder
  | link target, _ :: _, _ => link target
  | sink, _ :: _, _ => sink
  | folder es, n :: ns, new => folder (setName n (put ((es.lookup n).getD (folder [])) ns new) es)

/-- Remove the entry at the end of a list of names. -/
def remove : Entry → List String → Entry
  | file content, _ => file content
  | locked isFolder, _ => locked isFolder
  | link target, _ => link target
  | sink, _ => sink
  | folder es, [] => folder es
  | folder es, [n] => folder (es.filter (·.1 != n))
  | folder es, n :: ns =>
    match es.lookup n with
    | none => folder es
    | some e => folder (setName n (e.remove ns) es)

end Entry

/-- A tree of files with a current folder. -/
structure FileSystem where
  /-- What is at the top. -/
  top : Entry
  /-- The names that lead from the top to the current folder. -/
  home : List String
  /-- How many more bytes the contents of files can take, if there is a bound. -/
  room : Option Nat := none
  deriving Inhabited

namespace FileSystem

/-- The path of the current folder. -/
def homePath (fs : FileSystem) : String :=
  "/" ++ String.intercalate "/" fs.home

/-! ### Following paths -/

/-- How many links may be followed on the way of one path. -/
def maxLinks : Nat := 40

/-- Follow segments of a path from a place given by names.  The result is the place they lead
to, and how many more links may be followed.  At a link, `onLink` goes on with the folder
that it is in, its text and the segments behind it. -/
def followWith (fs : FileSystem) (links : Nat)
    (onLink : List String → String → List String → Except AccessError (List String × Nat)) :
    List String → List String → Except AccessError (List String × Nat)
  | place, [] => .ok (place, links)
  | place, segment :: rest =>
    match fs.top.get? place with
    | none => .error .notFound
    | some (.locked true) =>
      if segment = "" then fs.followWith links onLink place rest else .error .denied
    | some (.folder es) =>
      if segment = "" ∨ segment = "." then fs.followWith links onLink place rest
      else if segment = ".." then fs.followWith links onLink place.dropLast rest
      else if Path.isLongName segment then .error .nameTooLong
      else
        match es.lookup segment with
        | none => .error .notFound
        | some (.link target) => onLink place target rest
        | some _ => fs.followWith links onLink (place ++ [segment]) rest
    | some _ => .error .notFolder

/-- Where a path starts: at the top, or at the given place. -/
def origin (place : List String) (path : String) : List String :=
  if Path.isAbsolute path then [] else place

/-- Follow segments of a path from a place given by names, through at most the given number
of links.  The text of a link is followed from the folder that the link is in. -/
def follow (fs : FileSystem) :
    Nat → List String → List String → Except AccessError (List String × Nat)
  | 0 => fs.followWith 0 fun _ _ _ => .error .tooManyLinks
  | links + 1 => fs.followWith (links + 1) fun place target rest =>
    match AccessError.ofPath? target with
    | some e => .error e
    | none => fs.follow links (origin place target) (Path.segments target ++ rest)

/-- Where a path starts: at the top, or in the current folder. -/
def start (fs : FileSystem) (path : String) : List String :=
  origin fs.home path

/-- The names that lead from the top to what a path stands for. -/
def resolve (fs : FileSystem) (path : String) : Except AccessError (List String) :=
  match AccessError.ofPath? path with
  | some e => .error e
  | none => (fs.follow maxLinks (fs.start path) (Path.segments path)).map Prod.fst

/-- What a path stands for. -/
def entry (fs : FileSystem) (path : String) : Except AccessError Entry :=
  match fs.resolve path with
  | .error e => .error e
  | .ok names =>
    match fs.top.get? names with
    | none => .error .notFound
    | some e => .ok e

/-- Whether there is anything at a path. -/
def isThere (fs : FileSystem) (path : String) : Bool :=
  (fs.entry path).isOk

/-- Whether there is a folder at a path. -/
def isFolder (fs : FileSystem) (path : String) : Bool :=
  match fs.entry path with
  | .error _ => false
  | .ok e => e.isFolder

/-! ### Reading -/

/-- The content of the file at a path. -/
def read (fs : FileSystem) (path : String) : Except AccessError Bytes :=
  match fs.entry path with
  | .error e => .error e
  | .ok (.folder _) => .error .isFolder
  | .ok (.locked _) => .error .denied
  | .ok (.file content) => .ok content
  | .ok .sink => .ok []
  | .ok (.link _) => .error .notFound

/-- The text of the file at a path, if it can be read and is UTF-8. -/
def readText? (fs : FileSystem) (path : String) : Option String :=
  match fs.read path with
  | .error _ => none
  | .ok content => String.fromUTF8? content.toByteArray

/-! ### Writing -/

/-- The place at the end of segments where a file can be opened for writing: the names of an
existing folder, and one more.  A name with a slash behind it counts as that of a folder,
whatever is there.  If the name is that of a link, `onLink` goes on with the number of links
that may still be followed, the folder and the text of the link. -/
def targetWith (fs : FileSystem)
    (onLink : Nat → List String → String → Except AccessError (List String)) (links : Nat)
    (place segments : List String) : Except AccessError (List String) :=
  let slash := segments.getLast? = some ""
  let bare := (segments.reverse.dropWhile (· = "")).reverse
  match fs.follow links place bare.dropLast, bare.getLast? with
  | .error e, _ => .error e
  | .ok _, none => .error .isFolder
  | .ok (folder, links), some name =>
    match fs.top.get? folder with
    | none => .error .notFound
    | some (.locked true) => .error .denied
    | some (.folder es) =>
      if name = "." ∨ name = ".." ∨ slash then .error .isFolder
      else if Path.isLongName name then .error .nameTooLong
      else
        match es.lookup name with
        | some (.folder _) | some (.locked true) => .error .isFolder
        | some (.locked false) => .error .denied
        | some (.file _) | some .sink | none => .ok (folder ++ [name])
        | some (.link target) => onLink links folder target
    | some _ => .error .notFolder

/-- The place at the end of segments where a file can be opened for writing.  The last name may
be that of a link for a number of turns. -/
def targetFrom (fs : FileSystem) :
    Nat → Nat → List String → List String → Except AccessError (List String)
  | 0 => fs.targetWith fun _ _ _ => .error .tooManyLinks
  | turns + 1 => fs.targetWith fun links folder target =>
    match links with
    | 0 => .error .tooManyLinks
    | links + 1 =>
      match AccessError.ofPath? target with
      | some e => .error e
      | none => fs.targetFrom turns links (origin folder target) (Path.segments target)

/-- The place where a path opens a file for writing. -/
def target (fs : FileSystem) (path : String) : Except AccessError (List String) :=
  match AccessError.ofPath? path with
  | some e => .error e
  | none => fs.targetFrom maxLinks maxLinks (fs.start path) (Path.segments path)

/-- Make an empty file at a place, or empty the file that is there.  Its content makes room
on the disk.  A device stays as it is. -/
def clear (fs : FileSystem) (place : List String) : FileSystem :=
  match fs.top.get? place with
  | some .sink => fs
  | some (.file old) =>
    { fs with top := fs.top.put place (.file []), room := fs.room.map (· + old.length) }
  | _ => { fs with top := fs.top.put place (.file []) }

/-- Put content in the empty file at a place.  If the disk has not enough room, the content
is cut off there.  A device takes everything. -/
def fill (fs : FileSystem) (place : List String) (content : Bytes) :
    Except AccessError Unit × FileSystem :=
  match fs.top.get? place, fs.room with
  | some .sink, _ => (.ok (), fs)
  | _, none => (.ok (), { fs with top := fs.top.put place (.file content) })
  | _, some room =>
    if content.length ≤ room then
      (.ok (), { fs with
        top := fs.top.put place (.file content), room := some (room - content.length) })
    else
      (.error .noSpace, { fs with
        top := fs.top.put place (.file (content.take room)), room := some 0 })

/-- Write a file, in place of the file that is there.  The file is lost if the disk has not
enough room for the content. -/
def write (fs : FileSystem) (path : String) (content : Bytes) :
    Except AccessError Unit × FileSystem :=
  match fs.target path with
  | .error e => (.error e, fs)
  | .ok place => (fs.clear place).fill place content

/-! ### Making and removing -/

/-- The names that a path spells out, whether anything is there or not. -/
def place (fs : FileSystem) (path : String) : List String :=
  (Path.segments path).foldl
    (fun names segment =>
      if segment = "" ∨ segment = "." then names
      else if segment = ".." then names.dropLast
      else names ++ [segment])
    (fs.start path)

/-- Put an entry at a path, in place of what is there, with the folders around it. -/
def insert (fs : FileSystem) (path : String) (e : Entry) : FileSystem :=
  { fs with top := fs.top.put (fs.place path) e }

/-- Make every folder on a way from a place given by names, as far as it is missing. -/
def makeFolders (fs : FileSystem) :
    List String → List Path.Component → Except AccessError FileSystem
  | _, [] => .ok fs
  | _, .top :: rest => fs.makeFolders [] rest
  | place, .here :: rest => fs.makeFolders place rest
  | place, .up :: rest => fs.makeFolders place.dropLast rest
  | place, .name s :: rest =>
    match fs.top.get? place with
    | some (.locked true) => .error .denied
    | _ =>
      if Path.isLongName s then .error .nameTooLong
      else
        match fs.top.get? (place ++ [s]), fs.follow maxLinks place [s] with
        | none, _ =>
          let top := fs.top.put (place ++ [s]) (.folder [])
          FileSystem.makeFolders { fs with top } (place ++ [s]) rest
        | some _, .error e => .error e
        | some _, .ok (inside, _) =>
          match fs.top.get? inside with
          | some e => if e.isFolder then fs.makeFolders inside rest else .error .notFolder
          | none => .error .notFound

/-- Make the folder at a path, with the folders on the way. -/
def makeFolder (fs : FileSystem) (path : String) : Except AccessError FileSystem :=
  fs.makeFolders fs.home (Path.components path)

/-- Make the folders on the way to a path, but not what is at its end. -/
def makeWay (fs : FileSystem) (path : String) : Except AccessError FileSystem :=
  fs.makeFolders fs.home (Path.components path).dropLast

/-- The place of the link that is at the end of a path, if there is one. -/
def linkAt? (fs : FileSystem) (path : String) : Option (List String) :=
  match AccessError.ofPath? path,
    fs.follow maxLinks (fs.start path) (Path.segments path).dropLast,
    (Path.segments path).getLast? with
  | none, .ok (folder, _), some name =>
    match fs.top.get? (folder ++ [name]) with
    | some (.link _) => some (folder ++ [name])
    | _ => none
  | _, _, _ => none

/-- Remove the file or the link at a path. -/
def remove (fs : FileSystem) (path : String) : Except AccessError FileSystem :=
  match fs.linkAt? path, fs.entry path, fs.resolve path with
  | some place, _, _ => .ok { fs with top := fs.top.remove place }
  | none, .error e, _ => .error e
  | none, _, .error e => .error e
  | none, .ok (.file content), .ok names =>
    .ok { fs with top := fs.top.remove names, room := fs.room.map (· + content.length) }
  | none, .ok e, .ok names =>
    if e.isFolder then .error .isFolder else .ok { fs with top := fs.top.remove names }

end FileSystem

end Arbor
