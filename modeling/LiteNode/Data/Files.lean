import LiteNode.Data.Bytes
import LiteNode.Data.CrashPoints
import LiteNode.Data.Table

/-!
# Files

Directories and the contents of files, and the operations on them. Each change
is durable when its operation is over; a file that is being written has some
first part of its content.
-/

namespace LiteNode

/-- The names of a file and of the directories around it, innermost first. -/
abbrev Path := List Bytes

inductive Node
  | directory
  | regular (content : Bytes)
  deriving DecidableEq

abbrev Files := Table Path Node

inductive Errno
  | enoent | eexist | eisdir | enotdir
  deriving DecidableEq

/-- A reason that is given, or an exception that is passed on. -/
inductive Fault
  | refused (reason : String)
  | unix (code : Errno) (call : String) (path : Path)
  | failure (reason : String)
  deriving DecidableEq

/-- The order in which a directory is listed. -/
structure Listing where
  list : List Bytes → List Bytes
  perm : ∀ names, (list names).Perm names

namespace Files

abbrev Action (α : Type) := Fallible Fault Files α

/-- The outermost directory is always there. -/
def isDirectory (files : Files) (path : Path) : Bool :=
  path = [] || files.find? path = some .directory

/-- The name of a path that is right under another one. -/
def child (path : Path) : Path → Option Bytes
  | [] => none
  | name :: parent => if parent = path then some name else none

def names (files : Files) (path : Path) : List Bytes :=
  files.toList.filterMap fun entry => child path entry.1

def lstat (path : Path) : Action Node := do
  match (← Fallible.get).find? path with
  | some node => return node
  | none => throw (.unix .enoent "lstat" path)

def mkdir (path : Path) : Action Unit := do
  let files ← Fallible.get
  if files.mem path then throw (.unix .eexist "mkdir" path)
  else if files.isDirectory path.tail then
    Fallible.pass fun files => [files.replace path .directory]
  else throw (.unix .enoent "mkdir" path)

/-- Create a file that must not exist, and write it byte by byte. -/
def create (path : Path) (content : Bytes) : Action Unit := do
  let files ← Fallible.get
  if files.mem path then throw (.unix .eexist "open" path)
  else if files.isDirectory path.tail then
    Fallible.pass fun files => (List.range (content.length + 1)).map
      fun count => files.replace path (.regular (content.take count))
  else throw (.unix .enoent "open" path)

def readContent (path : Path) : Action Bytes := do
  match (← Fallible.get).find? path with
  | some (.regular content) => return content
  | some .directory => throw (.unix .eisdir "open" path)
  | none => throw (.unix .enoent "open" path)

def unlink (path : Path) : Action Unit := do
  match (← Fallible.get).find? path with
  | some (.regular _) => Fallible.pass fun files => [files.remove path]
  | some .directory => throw (.unix .eisdir "unlink" path)
  | none => throw (.unix .enoent "unlink" path)

/-- Give a file another name. -/
def link (source target : Path) : Action Unit := do
  let files ← Fallible.get
  match files.find? source with
  | some (.regular content) =>
    if files.mem target then throw (.unix .eexist "link" target)
    else Fallible.pass fun files => [files.replace target (.regular content)]
  | some .directory => throw (.unix .eisdir "link" source)
  | none => throw (.unix .enoent "link" source)

/-- Run an operation, and have its failure as a result. -/
def attempt (m : Action α) : Action (Except Fault α) :=
  ExceptT.tryCatch (do
    let value ← m
    return .ok value)
    fun fault => return .error fault

def readdir (listing : Listing) (path : Path) : Action (List Bytes) := do
  let files ← Fallible.get
  if files.isDirectory path then return listing.list (files.names path)
  else if files.mem path then throw (.unix .enotdir "opendir" path)
  else throw (.unix .enoent "opendir" path)

/-- Changes are durable already. -/
def syncDir (_ : Path) : Action Unit := return ()

def makeDirectory (reason : String) (path : Path) : Action Unit :=
  ExceptT.tryCatch (do
    match ← lstat path with
    | .directory => return ()
    | .regular _ => throw (.refused reason))
    fun fault =>
      match fault with
      | .unix .enoent _ _ => do
        mkdir path
        syncDir path.tail
        syncDir path
      | fault => throw fault

def directoryExists (reason : String) (path : Path) : Action Bool :=
  ExceptT.tryCatch (do
    match ← lstat path with
    | .directory => return true
    | .regular _ => throw (.refused reason))
    fun fault =>
      match fault with
      | .unix .enoent _ _ => return false
      | fault => throw fault

theorem mem_names {files : Files} {path : Path} {name : Bytes} :
    name ∈ files.names path ↔ ∃ node, files.find? (name :: path) = some node := by
  simp only [names, List.mem_filterMap]
  constructor
  · rintro ⟨⟨entry, node⟩, member, named⟩
    cases entry with
    | nil => cases named
    | cons first parent =>
      simp only [child, Option.ite_none_right_eq_some, Option.some.injEq] at named
      obtain ⟨rfl, rfl⟩ := named
      exact ⟨node, Table.mem_toList.mp member⟩
  · rintro ⟨node, found⟩
    exact ⟨(name :: path, node), Table.mem_toList.mpr found, by simp [child]⟩

theorem nodup_names (files : Files) (path : Path) : (files.names path).Nodup := by
  have distinct := files.nodup_keys
  have keys : files.names path = (files.toList.map Prod.fst).filterMap (child path) := by
    rw [List.filterMap_map]
    rfl
  rw [keys]
  apply distinct.filterMap
  intro first second name named named'
  cases first with
  | nil => cases named
  | cons _ parent =>
    cases second with
    | nil => cases named'
    | cons _ parent' => simp_all [child]

/-- Items that are all images are the images of a list. -/
theorem exists_map_eq {α β : Type} {f : α → β} {P : α → Prop}
    {items : List β} (each : ∀ item ∈ items, ∃ value, P value ∧ item = f value) :
    ∃ values : List α, items = values.map f ∧ ∀ value ∈ values, P value := by
  induction items with
  | nil => exact ⟨[], rfl, by simp⟩
  | cons item rest ih =>
    obtain ⟨value, holds, rfl⟩ := each item List.mem_cons_self
    obtain ⟨values, rfl, all⟩ := ih fun other member => each other (List.mem_cons_of_mem _ member)
    exact ⟨value :: values, rfl, List.forall_mem_cons.mpr ⟨holds, all⟩⟩

section Operations

open Fallible

variable {files : Files} {path : Path}

variable {node : Node} {content : Bytes}

theorem lstat_returns (found : files.find? path = some node) : (lstat path).Returns files node := by
  rw [Fallible.Returns, lstat, get_bind, found]
  rfl

theorem lstat_refuses (absent : files.find? path = none) :
    (lstat path).Refuses files (.unix .enoent "lstat" path) := by
  rw [Refuses, lstat, get_bind, absent]
  rfl

theorem mkdir_succeeds (absent : files.find? path = none) (parent : files.isDirectory path.tail) :
    Succeeds (· = files) (mkdir path)
      (fun _ after => after = files.replace path .directory)
      (fun left => left = files ∨ left = files.replace path .directory) := by
  have unused : files.mem path = false := Table.find?_eq_none_iff.mp absent
  have unfolded : (mkdir path) files = (Fallible.pass fun files : Files =>
      [files.replace path .directory] : Action Unit) files := by
    rw [mkdir, get_bind, if_neg (by simp [unused]), if_pos parent]
  apply Succeeds.congr unfolded
  apply Succeeds.pass
  · rintro _ rfl
    rfl
  · exact fun _ same => Or.inl same
  · rintro _ rfl left crashed
    exact Or.inr (List.mem_singleton.mp crashed)

theorem create_succeeds (absent : files.find? path = none)
    (parent : files.isDirectory path.tail) (content : Bytes) :
    Succeeds (· = files) (create path content)
      (fun _ after => after = files.replace path (.regular content))
      (fun left => left = files ∨ ∃ written, left = files.replace path (.regular written)) := by
  have unused : files.mem path = false := Table.find?_eq_none_iff.mp absent
  have unfolded : (create path content) files =
      (Fallible.pass fun files : Files =>
        (List.range (content.length + 1)).map fun count =>
          files.replace path (.regular (content.take count)) :
        Action Unit) files := by
    rw [create, get_bind, if_neg (by simp [unused]), if_pos parent]
  apply Succeeds.congr unfolded
  apply Succeeds.pass
  · rintro _ rfl
    simp [List.getLastD_eq_getLast?, List.range_succ]
  · exact fun _ same => Or.inl same
  · rintro _ rfl left crashed
    obtain ⟨count, _, rfl⟩ := List.mem_map.mp crashed
    exact Or.inr ⟨_, rfl⟩

theorem create_refuses (found : files.find? path = some node) (content : Bytes) :
    (create path content).Refuses files (.unix .eexist "open" path) := by
  have used : files.mem path = true := Table.mem_iff.mpr ⟨node, found⟩
  rw [Refuses, create, get_bind, if_pos used]
  rfl

theorem readContent_returns (found : files.find? path = some (.regular content)) :
    (readContent path).Returns files content := by
  rw [Fallible.Returns, readContent, get_bind, found]
  rfl

theorem unlink_succeeds (found : files.find? path = some (.regular content)) :
    Succeeds (· = files) (unlink path) (fun _ after => after = files.remove path)
      (fun left => left = files ∨ left = files.remove path) := by
  have unfolded : (unlink path) files = (Fallible.pass fun files : Files =>
      [files.remove path] : Action Unit) files := by
    rw [unlink, get_bind, found]
  apply Succeeds.congr unfolded
  apply Succeeds.pass
  · rintro _ rfl
    rfl
  · exact fun _ same => Or.inl same
  · rintro _ rfl left crashed
    exact Or.inr (List.mem_singleton.mp crashed)

theorem link_succeeds {source : Path} (found : files.find? source = some (.regular content))
    (absent : files.find? path = none) :
    Succeeds (· = files) (link source path)
      (fun _ after => after = files.replace path (.regular content))
      (fun left => left = files ∨ left = files.replace path (.regular content)) := by
  have unused : files.mem path = false := Table.find?_eq_none_iff.mp absent
  have unfolded : (link source path) files = (Fallible.pass fun files : Files =>
      [files.replace path (.regular content)] : Action Unit) files := by
    rw [link, get_bind, found]
    dsimp only
    rw [if_neg (by simp [unused])]
  apply Succeeds.congr unfolded
  apply Succeeds.pass
  · rintro _ rfl
    rfl
  · exact fun _ same => Or.inl same
  · rintro _ rfl left crashed
    exact Or.inr (List.mem_singleton.mp crashed)

theorem attempt_succeeds {α : Type} {m : Action α} {P C : Files → Prop}
    {Q : α → Files → Prop} (triple : Succeeds P m Q C)
    (safe : ∀ value after, Q value after → C after) :
    Succeeds P (attempt m)
      (fun result after => ∃ value, result = .ok value ∧ Q value after) C := by
  apply Succeeds.unhandled
  apply triple.bind
  intro value
  exact Succeeds.pure (fun _ holds => ⟨value, rfl, holds⟩) (safe value)

theorem readdir_returns (there : files.isDirectory path) (listing : Listing) :
    (readdir listing path).Returns files (listing.list (files.names path)) := by
  rw [Fallible.Returns, readdir, get_bind, if_pos there]
  rfl

theorem attempt_syncDir_returns (path : Path) :
    (attempt (syncDir path)).Returns files (.ok ()) := rfl

/-- A directory that is made where there is none. -/
def ensured (files : Files) (path : Path) : Files :=
  if files.find? path = none then files.replace path .directory else files

theorem find?_ensured (files : Files) (path other : Path) :
    (ensured files path).find? other =
      if other = path ∧ files.find? path = none then some .directory
      else files.find? other := by
  unfold ensured
  split
  · next absent =>
    rw [Table.find?_replace_eq_ite]
    simp [absent]
  · next present => simp [present]

theorem directory_ensured {made : Path} (found : files.find? path = some .directory) :
    (ensured files made).find? path = some .directory := by
  rw [find?_ensured]
  split <;> simp [found]

theorem directory_replace {made : Path} (absent : files.find? made = none)
    (found : files.find? path = some .directory) :
    (files.replace made node).find? path = some .directory := by
  rw [Table.find?_replace_ne, found]
  rintro rfl
  rw [absent] at found
  cases found

/-- A path where there is a directory, or where one can be made. -/
structure Placeable (files : Files) (path : Path) : Prop where
  parent : files.isDirectory path.tail = true
  free : files.find? path = none ∨ files.find? path = some .directory

theorem Placeable.find?_ensured (placeable : Placeable files path) :
    (ensured files path).find? path = some .directory := by
  rw [Files.find?_ensured]
  rcases placeable.free with absent | present
  · simp [absent]
  · simp [present]

theorem makeDirectory_succeeds (placeable : Placeable files path) (reason : String) :
    Succeeds (· = files) (makeDirectory reason path)
      (fun _ after => after = ensured files path)
      (fun left => left = files ∨ left = ensured files path) := by
  rcases placeable.free with absent | present
  · have target : ensured files path = files.replace path .directory := if_pos absent
    rw [target]
    apply ((lstat_refuses absent).bind _).handled
    apply (mkdir_succeeds absent placeable.parent).bind
    intro _
    exact Succeeds.pure (fun _ same => same) fun _ same => Or.inr same
  · have target : ensured files path = files := by simp [ensured, present]
    rw [target]
    apply Succeeds.unhandled
    apply (lstat_returns present).succeeds_bind
    exact Succeeds.pure (fun _ same => same) fun _ same => Or.inl same

theorem directoryExists_returns_false (absent : files.find? path = none) (reason : String) :
    (directoryExists reason path).Returns files false := by
  rw [Fallible.Returns, directoryExists, ((lstat_refuses absent).bind _).tryCatch]
  rfl

theorem directoryExists_returns_true
    (present : files.find? path = some .directory) (reason : String) :
    (directoryExists reason path).Returns files true := by
  apply Returns.unhandled
  apply (lstat_returns present).bind
  rfl

end Operations
end Files
end LiteNode
