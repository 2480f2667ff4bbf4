import NameRecovery.File.Host

/-!
# A host in memory

A file system as a value: the entries of a tree of directories, by the names on
the way to them.  A run on it can be watched from outside: what was printed,
what was complained about, and which files there are afterwards.
-/

namespace NameRecovery.File

/-- What can be at a place of the file system. -/
inductive Entry where
  /-- A file with its bytes. -/
  | file (bytes : ByteArray)
  /-- A directory. -/
  | directory

/-- The names on the way from the root to an entry. -/
abbrev Place := List String

/-- The entries of a file system. -/
abbrev Disk := List (Place × Entry)

/-- The directory a run starts in. -/
def workingPlace : Place := ["work"]

namespace Disk

/-- The entry at a place; the root and the working directory are always there. -/
def entry? (disk : Disk) (place : Place) : Option Entry :=
  if place.isPrefixOf workingPlace then some .directory else disk.lookup place

/-- Enter something at a place, in place of what was there. -/
def put (disk : Disk) (place : Place) (entry : Entry) : Disk :=
  disk.filter (fun item => item.1 ≠ place) ++ [(place, entry)]

/-- Remove what is at a place. -/
def erase (disk : Disk) (place : Place) : Disk :=
  disk.filter fun item => item.1 ≠ place

/-- The place that names lead to from a directory.  All but the last have to lead
to directories; two points lead back. -/
def follow (disk : Disk) (place : Place) : List String → Except Cause Place
  | [] => .ok place
  | ".." :: rest => disk.follow place.dropLast rest
  | name :: rest =>
    if Location.maxNameSize < name.utf8ByteSize then .error .tooLong
    else if rest.isEmpty then .ok (place ++ [name])
    else
      match disk.entry? (place ++ [name]) with
      | none => .error .notFound
      | some (.file _) => .error .notDirectory
      | some .directory => disk.follow (place ++ [name]) rest

/-- The place of a location. -/
def place (disk : Disk) (location : Location) : Except Cause Place :=
  if location.hasNull then .error .nullCharacter
  else if Location.maxSize < location.toText.utf8ByteSize then .error .tooLong
  else disk.follow (if location.anchor = "" then workingPlace else []) location.parts

/-- The entry at a location. -/
def entryAt (disk : Disk) (location : Location) : Except Cause Entry := do
  match disk.entry? (← disk.place location) with
  | some entry => return entry
  | none => throw .notFound

/-- The disk with a directory and all above it. -/
def addDirectory (disk : Disk) (location : Location) : Disk :=
  (List.range location.parts.length).foldl (fun disk n =>
    let place := workingPlace ++ location.parts.take (n + 1)
    if (disk.entry? place).isSome then disk else disk.put place .directory) disk

/-- The disk with a file and all directories above it. -/
def addFile (disk : Disk) (location : Location) (bytes : ByteArray) : Disk :=
  (disk.addDirectory location.parent).put (workingPlace ++ location.parts) (.file bytes)

/-- The files below the working directory, by their locations. -/
def files (disk : Disk) : List (Location × ByteArray) :=
  disk.filterMap fun item =>
    match item.2 with
    | .file bytes =>
      if workingPlace.isPrefixOf item.1 then
        some (⟨"", item.1.drop workingPlace.length⟩, bytes)
      else none
    | .directory => none

end Disk

/-- What a run in memory works on. -/
structure Memory where
  /-- The file system. -/
  disk : Disk := []
  /-- What was printed. -/
  printed : String := ""
  /-- What was complained about. -/
  complaints : String := ""
  /-- The place of the trace. -/
  trace : Option Place := none

namespace Memory

/-- An operation on the place of a location. -/
def atPlace (location : Location) (act : Place → Memory → Except Cause Unit × Memory) :
    StateM Memory (Except Error Unit) := fun memory =>
  match memory.disk.place location with
  | .error cause => (.error ⟨cause, location.toText⟩, memory)
  | .ok place =>
    match act place memory with
    | (.ok _, memory) => (.ok (), memory)
    | (.error cause, memory) => (.error ⟨cause, location.toText⟩, memory)

/-- Is there a directory at the place? -/
def hasDirectory (memory : Memory) (place : Place) : Bool :=
  match memory.disk.entry? place with
  | some .directory => true
  | _ => false

/-- A file with the given bytes, unless a directory is there. -/
def putFile (bytes : ByteArray) (place : Place) (memory : Memory) : Except Cause Unit × Memory :=
  if memory.hasDirectory place then (.error .isDirectory, memory)
  else (.ok (), { memory with disk := memory.disk.put place (.file bytes) })

/-- A directory, unless something is there. -/
def putDirectory (place : Place) (memory : Memory) : Except Cause Unit × Memory :=
  match memory.disk.entry? place with
  | some _ => (.error .occupied, memory)
  | none => (.ok (), { memory with disk := memory.disk.put place .directory })

/-- Move a file onto a place.  A trace that was kept there is lost. -/
def moveFile (origin : Location) (place : Place) (memory : Memory) : Except Cause Unit × Memory :=
  match memory.disk.place origin, memory.disk.entryAt origin with
  | .ok old, .ok (.file bytes) =>
    if memory.hasDirectory place then (.error .isDirectory, memory)
    else
      (.ok (), { memory with
        disk := (memory.disk.erase old).put place (.file bytes)
        trace := if memory.trace = some place then none else memory.trace })
  | _, _ => (.error .notFound, memory)

/-- Add a text to the file at the place of the trace. -/
def addToTrace (text : String) (memory : Memory) : Memory :=
  match memory.trace with
  | none => memory
  | some place =>
    let before := match memory.disk.entry? place with
      | some (.file bytes) => bytes
      | _ => ByteArray.empty
    { memory with disk := memory.disk.put place (.file (before ++ text.toUTF8)) }

/-- The host in memory. -/
def host : Host (StateM Memory) where
  isFile location := do
    match (← get).disk.entryAt location with
    | .ok (.file _) => return .ok true
    | .error .tooLong => return .error ⟨.tooLong, location.toText⟩
    | _ => return .ok false
  isDirectory location := do
    match (← get).disk.entryAt location with
    | .ok .directory => return true
    | _ => return false
  read location := do
    match (← get).disk.entryAt location with
    | .ok (.file bytes) => return .ok bytes
    | .ok .directory => return .error ⟨.isDirectory, location.toText⟩
    | .error cause => return .error ⟨cause, location.toText⟩
  makeDirectory location := atPlace location putDirectory
  write location text := atPlace location (putFile text.toUTF8)
  move origin target := atPlace target (moveFile origin)
  openTrace location := atPlace location fun place memory =>
    match putFile ByteArray.empty place memory with
    | (.ok _, memory) => (.ok (), { memory with trace := some place })
    | refused => refused
  remark remarks := modify (addToTrace (String.join (remarks.map Remark.line)))
  print text := modify fun memory => { memory with printed := memory.printed ++ text }
  complain text := modify fun memory => { memory with complaints := memory.complaints ++ text }

end Memory
end NameRecovery.File
