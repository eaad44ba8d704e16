import Murage.InProject.Placement
import Murage.InProject.SearchRoot

/-!
Owns what a walk of a search root has looked at when it is over: every place a reader
reaches by names of one part is reported, or is not sensitive.

Does not own: the walk itself.
-/

namespace Murage.InProject

open Murage.Library.Posix

/-! ## What is there, by its real path -/

section Places

variable {host : Host} {folder real : RealPath} {name : Name}

theorem Host.realOf_solid (solid : host.fs.Solid real) :
    host.realOf real = .ok real ∨ host.realOf real = .error .access :=
  @FileTree.namei_real _ _ _ [] _ solid

theorem Host.lstat_entry {node : Node} (opened : host.realOf folder = .ok folder)
    (searchable : host.fs.searchable folder = true)
    (isNode : host.fs.node (folder ++ [name]) = some node) :
    host.lstat (folder ++ [name]) = .ok node := by
  have isFolder := host.fs.parent folder name (by rw [isNode]; rfl)
  unfold Host.realOf at opened
  unfold Host.lstat FileTree.lstat
  rw [List.getLast?_concat, List.dropLast_concat]
  dsimp only
  rw [opened]
  dsimp only
  rw [if_neg (not_not.mpr isFolder), searchable, if_neg (by decide), isNode]

theorem Host.entryAt_solid (opened : host.realOf folder = .ok folder)
    (searchable : host.fs.searchable folder = true) (isIn : host.fs.Solid (folder ++ [name])) :
    host.entryAt (folder ++ [name]) =
      some (folder ++ [name], decide (host.fs.node (folder ++ [name]) = some .dir)) := by
  unfold Host.entryAt
  rcases isIn with isNode | isNode
  · rw [Host.lstat_entry opened searchable isNode, isNode]
    rfl
  · rw [Host.lstat_entry opened searchable isNode, isNode]
    rfl

theorem Host.walk_real {mustExist missing : Bool} {cur below reached : RealPath}
    {before intermediates : List RealPath} (solid : host.fs.Solid (cur ++ below))
    (walked : host.walk mustExist cur below before = .walked reached intermediates missing) :
    reached = cur ++ below := by
  induction below generalizing cur before with
  | nil =>
    cases walked
    exact (List.append_nil _).symm
  | cons name later ih =>
    have isPath : cur ++ name :: later = cur ++ [name] ++ later := by simp
    rw [isPath] at solid ⊢
    have above : host.fs.Solid (cur ++ [name]) := by
      by_cases isLast : later = []
      · rw [isLast, List.append_nil] at solid
        exact solid
      · exact Or.inl (FileTree.node_above solid.isSome isLast)
    have plain := host.fs.plain cur name above.isSome
    have folderSolid : host.fs.Solid cur := Or.inl (host.fs.parent cur name above.isSome)
    unfold Host.walk at walked
    rw [if_neg (not_or.mpr ⟨plain.named, plain.notDot⟩), if_neg plain.notDotdot] at walked
    rcases @Host.lstat_cases _ _ name folderSolid _ rfl with
      ⟨node, isStat, isNode⟩ | ⟨_, isAbsent⟩ | ⟨error, isStat, isOther⟩
    · rw [isStat] at walked
      rcases above with isDir | isFile
      · obtain rfl := Option.some.inj (isNode.symm.trans isDir)
        exact ih solid walked
      · obtain rfl := Option.some.inj (isNode.symm.trans isFile)
        exact ih solid walked
    · have isSome := above.isSome
      rw [isAbsent] at isSome
      cases isSome
    · rw [isStat] at walked
      cases error with
      | noEntry => exact absurd rfl isOther
      | notDirectory => cases walked
      | access => cases walked
      | loop => cases walked

theorem isAbsolute_render (real : RealPath) : isAbsolute (render real) = true := by
  cases real with
  | nil => rfl
  | cons name later => rfl

theorem Host.realDir_render {next : RealPath} (solid : host.fs.Solid real)
    (isDir : host.realDir (render real) = some next) : next = real := by
  unfold Host.realDir Host.hereFor at isDir
  rw [if_pos (isAbsolute_render real)] at isDir
  dsimp only at isDir
  cases isReal : host.realPathInOrder (render real) [] none true with
  | cannot why =>
    rw [isReal] at isDir
    cases isDir
  | real reached intermediates =>
    rw [isReal] at isDir
    dsimp only at isDir
    obtain ⟨missing, passed, isPlaced⟩ := Host.realPathInOrder_real isReal
    have isReached : reached = real := by
      rcases Host.placeGiven_cases isPlaced with ⟨_, isWalk⟩ | ⟨relative, _⟩ | ⟨relative, _⟩
      · by_cases isTop : real = []
        · subst isTop
          cases isWalk
          rfl
        · have unslashed : ∀ name ∈ real, '/' ∉ name :=
            fun name isName => (solid.plain name isName).unslashed
          have isParts : segments (homeRead none (render real)) = [] :: real :=
            segments_render isTop unslashed
          rw [isParts, Host.walk, if_pos (Or.inl rfl)] at isWalk
          exact @Host.walk_real _ _ _ [] _ _ _ _ solid isWalk
      · rw [show homeRead none (render real) = render real from rfl, isAbsolute_render] at relative
        cases relative
      · rw [show homeRead none (render real) = render real from rfl, isAbsolute_render] at relative
        cases relative
    split at isDir
    · exact (Option.some.inj isDir).symm.trans isReached
    · cases isDir

end Places

/-! ## Spellings -/

section Spelling

variable {host : Host} {root place : RealPath} {rel : Text}

theorem Spells.solid (isRoot : host.fs.Solid root) (spells : Spells host root rel place) :
    host.fs.Solid place := by
  cases spells with
  | top => exact isRoot
  | entry above isIn => exact isIn
  | link above isLink isReal => exact FileTree.namei_solid (Or.inl host.fs.root) isReal

variable {name : Name}

theorem child_ne_nil (named : name ≠ []) : child rel name ≠ [] := by
  unfold child
  split_ifs
  · exact named
  · exact List.append_ne_nil_of_right_ne_nil _ (List.cons_ne_nil _ _)

theorem listed_child (named : name ≠ []) :
    listed (child rel name) = child rel name :=
  if_neg (child_ne_nil named)

theorem isOnePart_named (isOne : isOnePart name = true) : name ≠ [] := by
  rintro rfl
  exact absurd isOne (by decide)

theorem entryAt_spells {folder real : RealPath} {isDir : Bool} (isRoot : host.fs.Solid root)
    (spells : Spells host root rel folder)
    (isFound : host.entryAt (folder ++ [name]) = some (real, isDir)) :
    Spells host root (child rel name) real := by
  unfold Host.entryAt at isFound
  rcases @Host.lstat_cases _ _ name (spells.solid isRoot) _ rfl with
    ⟨node, isStat, isNode⟩ | ⟨isStat, _⟩ | ⟨error, isStat, _⟩
  · rw [isStat] at isFound
    cases node with
    | file =>
      cases isFound
      exact Spells.entry spells (Or.inr isNode)
    | dir =>
      cases isFound
      exact Spells.entry spells (Or.inl isNode)
    | link target =>
      cases isReal : host.realOf (folder ++ [name]) with
      | error error =>
        rw [isReal] at isFound
        cases isFound
      | ok reached =>
        rw [isReal] at isFound
        dsimp only at isFound
        split at isFound
        · cases isFound
        · cases isFound
          exact Spells.link spells isNode isReal
  · rw [isStat] at isFound
    cases isFound
  · rw [isStat] at isFound
    cases isFound

end Spelling

theorem keyGuard_none {reading : Reading} {paths : List Text} {inProject onTheWay : Bool} :
    keyGuard reading paths inProject onTheWay = none ↔
      ∀ path ∈ paths, keyGuard reading [path] inProject onTheWay = none := by
  unfold keyGuard
  rw [List.findSome?_eq_none_iff]
  simp only [List.findSome?_singleton]

theorem guardOf_none {host : Host} {reading : Reading} {realProject abs : RealPath} {rel : Text}
    (noRule : entryRule reading realProject rel name abs abs
      (decide (host.fs.node abs = some .dir)) = none) :
    guardOf host reading realProject rel abs = none := by
  unfold entryRule at noRule
  split_ifs at noRule
  rw [keyGuard_none] at noRule
  unfold guardOf
  rw [keyGuard_none]
  intro path isPath
  refine noRule path ?_
  rcases List.mem_cons.mp isPath with rfl | isReal
  · exact List.mem_cons_self
  · exact List.mem_cons_of_mem _ (List.mem_cons_of_mem _ isReal)

/-! ## One entry -/

section Entry

variable {host : Host} {reading : Reading} {root realProject : RealPath} {dir : WalkDir} {walk : Walk}
  {name : Name}

/-- A walk goes on: at most one folder is added to the queue, and no folder is seen that is
neither queued nor listed as unwalked. -/
def Adds (host : Host) (root : RealPath) (before after : Walk) : Prop :=
  ∃ hits unwalked queue seen,
    after =
      { hits := before.hits ++ hits
        unwalked := before.unwalked ++ unwalked
        queue := before.queue ++ queue
        seen := before.seen ++ seen
        entries := before.entries } ∧
    queue.length ≤ 1 ∧
    (∀ next ∈ queue, Spells host root next.rel next.real ∧ next.rel ≠ []) ∧
    ∀ folder ∈ seen, (∃ next ∈ queue, next.real = folder) ∨
      ∃ rel, Spells host root rel folder ∧ listed rel ∈ unwalked

theorem Adds.nothing : Adds host root walk walk :=
  ⟨[], [], [], [], by simp, by simp, by simp, by simp⟩

theorem walkEntry_adds (isRoot : host.fs.Solid root)
    (spells : Spells host root dir.rel dir.real) :
    Adds host root walk (host.walkEntry reading realProject dir walk name) := by
  unfold Host.walkEntry joinReal
  by_cases isOne : isOnePart name = true
  swap
  · rw [if_neg isOne]
    exact Adds.nothing
  rw [if_pos isOne]
  dsimp only
  have named := isOnePart_named isOne
  cases isFound : host.entryAt (dir.real ++ [name]) with
  | none => exact Adds.nothing
  | some found =>
    obtain ⟨real, isDir⟩ := found
    have isSpelled := entryAt_spells isRoot spells isFound
    dsimp only
    cases entryRule reading realProject (child dir.rel name) name (dir.real ++ [name]) real isDir with
    | some rule =>
      exact ⟨[⟨child dir.rel name, isDir, rule⟩], [], [], [], by simp, by simp, by simp, by simp⟩
    | none =>
      dsimp only
      by_cases notDir : isDir = false
      · rw [if_pos notDir]
        exact Adds.nothing
      rw [if_neg notDir]
      by_cases isOutside : within realProject real = false
      · rw [if_pos isOutside]
        exact ⟨[], [child dir.rel name], [], [], by simp, by simp, by simp, by simp⟩
      rw [if_neg isOutside]
      by_cases isSeen : real ∈ walk.seen
      · rw [if_pos isSeen]
        exact Adds.nothing
      rw [if_neg isSeen]
      cases isReal : host.realDir (render real) with
      | none =>
        refine ⟨[], [child dir.rel name], [], [real], by simp, by simp, by simp, ?_⟩
        intro folder isFolder
        obtain rfl := List.mem_singleton.mp isFolder
        exact Or.inr ⟨_, isSpelled, by rw [listed_child named]; exact List.mem_cons_self⟩
      | some next =>
        obtain rfl := Host.realDir_render (isSpelled.solid isRoot) isReal
        refine ⟨[], [], [⟨next, child dir.rel name⟩], [next], by simp, by simp, ?_, ?_⟩
        · intro queued isQueued
          obtain rfl := List.mem_singleton.mp isQueued
          exact ⟨isSpelled, child_ne_nil named⟩
        · intro folder isFolder
          obtain rfl := List.mem_singleton.mp isFolder
          exact Or.inl ⟨_, List.mem_cons_self, rfl⟩

/-- A walk that has dealt with an entry: it is a hit, or it is not sensitive, and a folder is
seen or listed as unwalked. -/
def Handled (host : Host) (reading : Reading) (realProject : RealPath) (walk : Walk) (folder : RealPath)
    (rel : Text) (name : Name) : Prop :=
  (∃ hit ∈ walk.hits, hit.path = child rel name) ∨
    (guardOf host reading realProject (child rel name) (folder ++ [name]) = none ∧
      (host.fs.node (folder ++ [name]) = some .dir →
        folder ++ [name] ∈ walk.seen ∨ listed (child rel name) ∈ walk.unwalked))

theorem walkEntry_handles (opened : host.realOf dir.real = .ok dir.real)
    (searchable : host.fs.searchable dir.real = true)
    (isIn : host.fs.Solid (dir.real ++ [name])) (isOne : isOnePart name = true) :
    Handled host reading realProject (host.walkEntry reading realProject dir walk name) dir.real
      dir.rel name := by
  have isFound := Host.entryAt_solid opened searchable isIn
  have isListed : listed (child dir.rel name) = child dir.rel name :=
    listed_child (isOnePart_named isOne)
  unfold Handled Host.walkEntry joinReal
  rw [if_pos isOne, isListed]
  dsimp only
  rw [isFound]
  dsimp only
  cases isRule : entryRule reading realProject (child dir.rel name) name (dir.real ++ [name])
      (dir.real ++ [name]) (decide (host.fs.node (dir.real ++ [name]) = some .dir)) with
  | some rule => exact Or.inl ⟨_, List.mem_append_right _ List.mem_cons_self, rfl⟩
  | none =>
    refine Or.inr ⟨guardOf_none isRule, fun isDir => ?_⟩
    dsimp only
    rw [if_neg (by simp [isDir])]
    split_ifs with isOutside isSeen
    · exact Or.inr (List.mem_append_right _ List.mem_cons_self)
    · exact Or.inl isSeen
    · left
      split
      · exact List.mem_append_right _ List.mem_cons_self
      · exact List.mem_append_right _ List.mem_cons_self

end Entry

/-! ## Whole walks -/

structure Grows (before after : Walk) : Prop where
  hits : before.hits ⊆ after.hits
  unwalked : before.unwalked ⊆ after.unwalked
  seen : before.seen ⊆ after.seen

theorem Grows.refl (walk : Walk) : Grows walk walk :=
  ⟨List.Subset.refl _, List.Subset.refl _, List.Subset.refl _⟩

theorem Grows.trans {first second third : Walk} (early : Grows first second)
    (late : Grows second third) : Grows first third :=
  ⟨List.Subset.trans early.hits late.hits, List.Subset.trans early.unwalked late.unwalked,
    List.Subset.trans early.seen late.seen⟩

section Whole

variable {host : Host} {reading : Reading} {root realProject : RealPath} {before after : Walk}
  {opts : WalkOptions}

theorem Adds.grows (adds : Adds host root before after) : Grows before after := by
  obtain ⟨hits, unwalked, queue, seen, rfl, _⟩ := adds
  exact ⟨List.subset_append_left _ _, List.subset_append_left _ _, List.subset_append_left _ _⟩

theorem Handled.mono {folder : RealPath} {rel : Text} (grows : Grows before after)
    (handled : Handled host reading realProject before folder rel name) :
    Handled host reading realProject after folder rel name := by
  rcases handled with ⟨hit, isHit, isPath⟩ | ⟨clean, isSeen⟩
  · exact Or.inl ⟨hit, grows.hits isHit, isPath⟩
  · refine Or.inr ⟨clean, fun isDir => ?_⟩
    rcases isSeen isDir with seen | unwalked
    · exact Or.inl (grows.seen seen)
    · exact Or.inr (grows.unwalked unwalked)

/-- A folder the walk is done with: it is listed as unwalked, or each of its entries has
been dealt with under one spelling of the folder. -/
def Settled (host : Host) (reading : Reading) (root realProject : RealPath) (walk : Walk)
    (folder : RealPath) : Prop :=
  (∃ rel, Spells host root rel folder ∧ listed rel ∈ walk.unwalked) ∨
    ∃ rel, Spells host root rel folder ∧ ∀ name, host.fs.searchable folder = true →
      host.fs.Solid (folder ++ [name]) → isOnePart name = true → reading.decoded name = name →
        Handled host reading realProject walk folder rel name

theorem Settled.mono {folder : RealPath} (grows : Grows before after)
    (settled : Settled host reading root realProject before folder) :
    Settled host reading root realProject after folder := by
  rcases settled with ⟨rel, spells, isListed⟩ | ⟨rel, spells, handled⟩
  · exact Or.inl ⟨rel, spells, grows.unwalked isListed⟩
  · exact Or.inr ⟨rel, spells, fun name searchable isIn isOne isDecoded =>
      (handled name searchable isIn isOne isDecoded).mono grows⟩

/-- A walk with some folders in hand: a folder that is seen is in hand, or in the queue, or
settled. -/
structure Sound (host : Host) (reading : Reading) (root realProject : RealPath) (inHand : List WalkDir)
    (walk : Walk) : Prop where
  held : ∀ dir ∈ inHand, Spells host root dir.rel dir.real
  queued : ∀ dir ∈ walk.queue, Spells host root dir.rel dir.real ∧ dir.rel ≠ []
  settled : ∀ folder ∈ walk.seen, (∃ dir ∈ inHand ++ walk.queue, dir.real = folder) ∨
    Settled host reading root realProject walk folder
  top : root ∈ walk.seen

/-- A walk that is over: every folder it saw is settled. -/
def Complete (host : Host) (reading : Reading) (root realProject : RealPath) (result : WalkResult) :
    Prop :=
  ∃ walk : Walk, result = .ok walk.hits walk.unwalked ∧ root ∈ walk.seen ∧
    ∀ folder ∈ walk.seen, Settled host reading root realProject walk folder

theorem Sound.adds {inHand : List WalkDir}
    (sound : Sound host reading root realProject inHand before) (adds : Adds host root before after) :
    Sound host reading root realProject inHand after := by
  have grows := adds.grows
  obtain ⟨hits, unwalked, queue, seen, rfl, _, isQueued, isSeen⟩ := adds
  refine ⟨sound.held, ?_, ?_, grows.seen sound.top⟩
  · intro dir isDir
    rcases List.mem_append.mp isDir with old | new
    · exact sound.queued dir old
    · exact isQueued dir new
  · intro folder isFolder
    rcases List.mem_append.mp isFolder with old | new
    · rcases sound.settled folder old with ⟨dir, isDir, isReal⟩ | settled
      · refine Or.inl ⟨dir, ?_, isReal⟩
        rw [← List.append_assoc]
        exact List.mem_append_left _ isDir
      · exact Or.inr (settled.mono grows)
    · rcases isSeen folder new with ⟨next, isNext, isReal⟩ | ⟨rel, spells, isListed⟩
      · refine Or.inl ⟨next, ?_, isReal⟩
        rw [← List.append_assoc]
        exact List.mem_append_right _ isNext
      · exact Or.inr (Or.inl ⟨rel, spells, List.mem_append_right _ isListed⟩)

theorem Sound.counted {inHand : List WalkDir}
    (sound : Sound host reading root realProject inHand before) (entries : Nat) :
    Sound host reading root realProject inHand { before with entries := entries } :=
  ⟨sound.held, sound.queued, sound.settled, sound.top⟩

theorem Sound.release {dir : WalkDir}
    (sound : Sound host reading root realProject [dir] before) (grows : Grows before after)
    (isQueue : after.queue = before.queue) (isSeen : after.seen = before.seen)
    (settled : Settled host reading root realProject after dir.real) :
    Sound host reading root realProject [] after := by
  refine ⟨by simp, by rw [isQueue]; exact sound.queued, ?_, by rw [isSeen]; exact sound.top⟩
  intro folder isFolder
  rw [isSeen] at isFolder
  rcases sound.settled folder isFolder with ⟨held, isHeld, rfl⟩ | isSettled
  · rcases List.mem_cons.mp isHeld with rfl | isQueued
    · exact Or.inr settled
    · rw [isQueue]
      exact Or.inl ⟨held, isQueued, rfl⟩
  · exact Or.inr (isSettled.mono grows)

theorem Sound.next {dir : WalkDir} {queue : List WalkDir}
    (sound : Sound host reading root realProject [] before) (isQueue : before.queue = dir :: queue) :
    Sound host reading root realProject [dir] { before with queue := queue } := by
  refine ⟨?_, ?_, ?_, sound.top⟩
  · intro held isHeld
    obtain rfl := List.mem_singleton.mp isHeld
    exact (sound.queued held (isQueue ▸ List.mem_cons_self)).1
  · exact fun queued isQueued => sound.queued queued (isQueue ▸ List.mem_cons_of_mem _ isQueued)
  · intro folder isFolder
    have settled := sound.settled folder isFolder
    rw [isQueue] at settled
    exact settled

theorem Sound.stopped {dir : WalkDir}
    (sound : Sound host reading root realProject [dir] before) :
    Complete host reading root realProject
      (.ok before.hits (before.unwalked ++ [listed dir.rel] ++ before.queue.map WalkDir.rel)) := by
  let after : Walk :=
    { before with unwalked := before.unwalked ++ [listed dir.rel] ++ before.queue.map WalkDir.rel }
  have grows : Grows before after := by
    refine ⟨List.Subset.refl _, ?_, List.Subset.refl _⟩
    exact List.Subset.trans (List.subset_append_left _ _) (List.subset_append_left _ _)
  refine ⟨after, rfl, sound.top, fun folder isFolder => ?_⟩
  rcases sound.settled folder isFolder with ⟨held, isHeld, rfl⟩ | settled
  · left
    rcases List.mem_cons.mp isHeld with rfl | isQueued
    · refine ⟨held.rel, sound.held held List.mem_cons_self, ?_⟩
      exact List.mem_append_left _ (List.mem_append_right _ List.mem_cons_self)
    · obtain ⟨spells, named⟩ := sound.queued held isQueued
      refine ⟨held.rel, spells, ?_⟩
      have isListed : listed held.rel = held.rel := if_neg named
      rw [isListed]
      exact List.mem_append_right _ (List.mem_map_of_mem isQueued)
  · exact settled.mono grows

theorem walkNames_sound (opts : WalkOptions) {dir : WalkDir} {walk : Walk} (names : List Name)
    (isRoot : host.fs.Solid root) (sound : Sound host reading root realProject [dir] walk) :
    match host.walkNames reading realProject opts dir walk names with
    | .error result => Complete host reading root realProject result
    | .ok after => Sound host reading root realProject [dir] after ∧ Grows walk after ∧
        ∀ name ∈ names, host.realOf dir.real = .ok dir.real →
          host.fs.searchable dir.real = true → host.fs.Solid (dir.real ++ [name]) →
            isOnePart name = true → Handled host reading realProject after dir.real dir.rel name := by
  induction names generalizing walk with
  | nil => exact ⟨sound, Grows.refl walk, fun name isName => absurd isName List.not_mem_nil⟩
  | cons first rest ih =>
    have spells := sound.held dir List.mem_cons_self
    unfold Host.walkNames
    by_cases isStopped : walk.entries ≥ opts.maxEntries ∨
        opts.now (walk.entries + 1) - opts.now 0 > opts.maxMs
    · rw [if_pos isStopped]
      exact sound.stopped
    · rw [if_neg isStopped]
      let counted : Walk := { walk with entries := walk.entries + 1 }
      have adds : Adds host root counted
          (host.walkEntry reading realProject dir counted first) := walkEntry_adds isRoot spells
      have isSound := (sound.counted (walk.entries + 1)).adds adds
      have later := ih isSound
      cases isRest : host.walkNames reading realProject opts dir
          (host.walkEntry reading realProject dir counted first) rest with
      | error result =>
        rw [isRest] at later
        exact later
      | ok after =>
        rw [isRest] at later
        obtain ⟨afterSound, grows, handled⟩ := later
        refine ⟨afterSound, Grows.trans ⟨adds.grows.hits, adds.grows.unwalked, adds.grows.seen⟩
          grows, ?_⟩
        intro name isName opened searchable isIn isOne
        rcases List.mem_cons.mp isName with rfl | isLater
        · exact (walkEntry_handles opened searchable isIn isOne).mono grows
        · exact handled name isLater opened searchable isIn isOne

theorem readdir_names {folder : RealPath} {names : List Name} (solid : host.fs.Solid folder)
    (isRead : host.readdir reading folder = .ok names) :
    host.realOf folder = .ok folder ∧ ∀ name, host.fs.Solid (folder ++ [name]) →
      reading.decoded name = name → name ∈ names := by
  unfold Host.readdir at isRead
  rcases Host.realOf_solid solid with opened | refused
  · rw [opened] at isRead
    dsimp only at isRead
    split_ifs at isRead
    refine ⟨opened, fun name isIn isDecoded => ?_⟩
    rw [← Except.ok.inj isRead, List.mem_map]
    exact ⟨name, (host.fs.mem_entries folder name).mpr isIn.isSome, isDecoded⟩
  · rw [refused] at isRead
    cases isRead

theorem walkQueue_complete {fuel : Nat} {first : Bool} {walk : Walk} {inHand : WalkDir}
    {queue : List WalkDir} {hits : List WalkHit} {unwalked : List Text}
    (isRoot : host.fs.Solid root) (isQueue : walk.queue = inHand :: queue)
    (sound : Sound host reading root realProject [inHand] { walk with queue := queue })
    (isOver : host.walkQueue reading realProject opts fuel first walk = some (.ok hits unwalked)) :
    Complete host reading root realProject (.ok hits unwalked) := by
  induction fuel generalizing first walk inHand queue with
  | zero =>
    unfold Host.walkQueue at isOver
    rw [isQueue] at isOver
    cases isOver
  | succ fuel ih =>
    have onward {after : Walk} (isSound : Sound host reading root realProject [] after)
        (isAfter : host.walkQueue reading realProject opts fuel false after =
          some (.ok hits unwalked)) :
        Complete host reading root realProject (.ok hits unwalked) := by
      cases isNext : after.queue with
      | nil =>
        unfold Host.walkQueue at isAfter
        rw [isNext] at isAfter
        refine ⟨after, (Option.some.inj isAfter).symm, isSound.top, fun folder isFolder => ?_⟩
        rcases isSound.settled folder isFolder with ⟨dir, isDir, _⟩ | settled
        · rw [isNext] at isDir
          exact absurd isDir List.not_mem_nil
        · exact settled
      | cons next later => exact ih isNext (isSound.next isNext) isAfter
    have spells := sound.held inHand List.mem_cons_self
    unfold Host.walkQueue at isOver
    rw [isQueue] at isOver
    dsimp only at isOver
    cases isRead : host.readdir reading inHand.real with
    | error error =>
      rw [isRead] at isOver
      dsimp only at isOver
      split_ifs at isOver
      · cases isOver
      · have released : Sound host reading root realProject []
            { walk with
              queue := queue
              unwalked := walk.unwalked ++ [listed inHand.rel] } := by
          refine sound.release ?_ rfl rfl ?_
          · exact ⟨List.Subset.refl _, List.subset_append_left _ _, List.Subset.refl _⟩
          · exact Or.inl ⟨_, spells, List.mem_append_right _ List.mem_cons_self⟩
        exact onward released isOver
    | ok names =>
      rw [isRead] at isOver
      dsimp only at isOver
      obtain ⟨opened, isNamed⟩ := readdir_names (spells.solid isRoot) isRead
      have dealt := walkNames_sound opts (names.mergeSort reading.sorted) isRoot sound
      cases isNames : host.walkNames reading realProject opts inHand { walk with queue := queue }
          (names.mergeSort reading.sorted) with
      | error result =>
        rw [isNames] at isOver dealt
        obtain rfl := Option.some.inj isOver
        exact dealt
      | ok after =>
        rw [isNames] at isOver dealt
        obtain ⟨isSound, _, handled⟩ := dealt
        refine onward (isSound.release (Grows.refl after) rfl rfl ?_) isOver
        refine Or.inr ⟨_, spells, fun name searchable isIn isOne isDecoded => ?_⟩
        refine handled name ?_ opened searchable isIn isOne
        exact (List.mergeSort_perm names _).mem_iff.mpr (isNamed name isIn isDecoded)

end Whole

/-! ## The walk ends -/

section Ends

variable {host : Host} {reading : Reading} {realProject : RealPath} {opts : WalkOptions} {dir : WalkDir}
  {walk : Walk}

/-- The folders that are left, and the entries that may still be counted. -/
def remaining (opts : WalkOptions) (walk : Walk) : Nat :=
  walk.queue.length + (opts.maxEntries - walk.entries)

theorem walkEntry_queue (host : Host) (reading : Reading) (realProject : RealPath)
    (dir : WalkDir) (walk : Walk) (name : Name) :
    (host.walkEntry reading realProject dir walk name).queue.length ≤ walk.queue.length + 1 ∧
      (host.walkEntry reading realProject dir walk name).entries = walk.entries := by
  unfold Host.walkEntry
  split
  · exact ⟨Nat.le_succ _, rfl⟩
  split
  · exact ⟨Nat.le_succ _, rfl⟩
  dsimp only
  split
  · exact ⟨Nat.le_succ _, rfl⟩
  split_ifs
  · exact ⟨Nat.le_succ _, rfl⟩
  · exact ⟨Nat.le_succ _, rfl⟩
  · exact ⟨Nat.le_succ _, rfl⟩
  split
  · exact ⟨Nat.le_succ _, rfl⟩
  · exact ⟨Nat.le_of_eq (List.length_append), rfl⟩

theorem walkNames_remaining {names : List Name} {after : Walk}
    (isDone : host.walkNames reading realProject opts dir walk names = .ok after) :
    remaining opts after ≤ remaining opts walk := by
  induction names generalizing walk with
  | nil => exact Nat.le_of_eq (congrArg _ (Except.ok.inj isDone).symm)
  | cons first rest ih =>
    unfold Host.walkNames at isDone
    split_ifs at isDone with isStopped
    refine Nat.le_trans (ih isDone) ?_
    obtain ⟨isQueue, isCounted⟩ := walkEntry_queue host reading realProject dir
      { walk with entries := walk.entries + 1 } first
    unfold remaining
    rw [isCounted]
    dsimp only at isQueue ⊢
    omega

theorem Host.walkQueue_returns {fuel : Nat} {first : Bool} (isEnough : remaining opts walk ≤ fuel) :
    (host.walkQueue reading realProject opts fuel first walk).isSome := by
  induction fuel generalizing first walk with
  | zero =>
    unfold remaining at isEnough
    unfold Host.walkQueue
    cases isQueue : walk.queue with
    | nil => rfl
    | cons dir queue =>
      rw [isQueue, List.length_cons] at isEnough
      omega
  | succ fuel ih =>
    unfold Host.walkQueue
    cases isQueue : walk.queue with
    | nil => rfl
    | cons dir queue =>
      have isLess : remaining opts { walk with queue := queue } ≤ fuel := by
        unfold remaining at isEnough ⊢
        rw [isQueue, List.length_cons] at isEnough
        dsimp only
        omega
      dsimp only
      cases host.readdir reading dir.real with
      | error error =>
        dsimp only
        split_ifs
        · rfl
        · exact ih isLess
      | ok names =>
        dsimp only
        cases isNames : host.walkNames reading realProject opts dir { walk with queue := queue }
            (names.mergeSort reading.sorted) with
        | error result => rfl
        | ok after => exact ih (Nat.le_trans (walkNames_remaining isNames) isLess)

/-- **A walk ends**: its fuel is enough, whatever the disk holds. -/
theorem Host.walkRoot_returns (host : Host) (reading : Reading) (root project : Text)
    (opts : WalkOptions) : (host.walkRoot reading root project opts).isSome := by
  unfold Host.walkRoot
  split
  · rfl
  split
  · rfl
  · refine Host.walkQueue_returns ?_
    unfold remaining
    simp
    omega

end Ends

/-! ## The search root -/

section SearchRoot

variable {host : Host} {reading : Reading} {project root : Text} {opts : PlaceOptions}

theorem walk_absent {mustExist : Bool} {cur reached : RealPath} {parts : List Name}
    {before intermediates : List RealPath} (solid : host.fs.Solid cur)
    (walked : host.walk mustExist cur parts before = .walked reached intermediates true) :
    ∀ (budget : Nat) (rest : List Name) (real : RealPath),
      host.fs.namei opening budget [] (reached ++ rest) ≠ .ok real := by
  induction parts generalizing cur before with
  | nil => cases walked
  | cons seg later ih =>
    rcases Host.walk_cases solid walked with
      ⟨next, after, isWalked, isSolid, _⟩ | ⟨_, isName, notClimb, isAbsent, isReached⟩
    · exact ih isSolid isWalked
    · intro budget rest real opened
      have isFirst : names (seg :: later) = seg :: names later :=
        List.filter_cons_of_pos (decide_eq_true (not_or.mp isName))
      rw [isReached, isFirst, List.append_assoc] at opened
      have atFolder : host.fs.namei opening budget cur (seg :: names later ++ rest) = .ok real := by
        rcases @FileTree.namei_through _ opening budget [] (seg :: names later ++ rest) cur solid
          with through | refused
        · rw [through, List.nil_append] at opened
          exact opened
        · rw [refused] at opened
          cases opened
      exact nomatch FileTree.namei_absent isName notClimb isAbsent atFolder

theorem searchRoot_placed {real : RealPath}
    (isRoot : host.searchRoot root project opts = .ok real) :
    ∃ base intermediates, host.realPathInOrder root base opts.home false =
      .real real intermediates := by
  unfold Host.searchRoot at isRoot
  unfold Host.placePath at isRoot
  split_ifs at isRoot
  cases isProject : host.realOfText project with
  | error error =>
    rw [isProject] at isRoot
    cases isRoot
  | ok realProject =>
    rw [isProject] at isRoot
    dsimp only at isRoot
    refine ⟨opts.base.getD (render realProject), ?_⟩
    cases isPlaced : host.realPathInOrder root (opts.base.getD (render realProject)) opts.home
        false with
    | cannot why =>
      rw [isPlaced] at isRoot
      cases isRoot
    | real placed intermediates =>
      rw [isPlaced] at isRoot
      dsimp only at isRoot
      split_ifs at isRoot
      · exact ⟨intermediates, by rw [← Except.ok.inj isRoot]⟩
      · exact ⟨intermediates, by rw [← Except.ok.inj isRoot]⟩

theorem searchRoot_solid {real found : RealPath}
    (isRoot : host.searchRoot root project opts = .ok real)
    (opened : host.realOf real = .ok found) : host.fs.Solid real := by
  obtain ⟨base, intermediates, isReal⟩ := searchRoot_placed isRoot
  obtain ⟨missing, passed, isPlaced⟩ := Host.realPathInOrder_real isReal
  have atRoot : host.fs.Solid [] := Or.inl host.fs.root
  have ends {cur : RealPath} {parts : List Name} (isSolid : host.fs.Solid cur)
      (isWalk : host.walk false cur parts [] = .walked real passed missing) :
      host.fs.Solid real := by
    cases missing with
    | false => exact (Host.walk_found isSolid isWalk).1
    | true =>
      unfold Host.realOf at opened
      refine absurd ?_ (walk_absent isSolid isWalk host.links [] found)
      rw [List.append_nil]
      exact opened
  rcases Host.placeGiven_cases isPlaced with ⟨_, isWalk⟩ | ⟨_, cur, _, isBase, _, isReached, _⟩ |
    ⟨_, cur, _, isBase, isWalk⟩
  · exact ends atRoot isWalk
  · rw [isReached] at opened
    exact absurd opened (walk_absent atRoot isBase host.links _ found)
  · exact ends (Host.walk_found atRoot isBase).1 isWalk

end SearchRoot

/-! ## The reader's places -/

section Reader

variable {host : Host} {reading : Reading} {realRoot realProject : RealPath} {hits : List WalkHit}
  {unwalked : List Text}

/-- A name the walk takes for one part, and gives back to the system as it is. -/
def Ordinary (reading : Reading) (name : Name) : Prop :=
  isOnePart name = true ∧ reading.decoded name = name

/-- A place that is at or below something reported. -/
inductive Covered (host : Host) (root : RealPath) (hits : List WalkHit) (unwalked : List Text)
    (place : RealPath) : Prop where
  | hit (hit : WalkHit) (isHit : hit ∈ hits) (reported : RealPath)
      (spells : Spells host root hit.path reported) (isBelow : reported <+: place)
  | unwalked (rel : Text) (isListed : listed rel ∈ unwalked) (reported : RealPath)
      (spells : Spells host root rel reported) (isBelow : reported <+: place)

theorem Covered.below {place below : RealPath} (covered : Covered host realRoot hits unwalked place)
    (isBelow : place <+: below) : Covered host realRoot hits unwalked below := by
  cases covered with
  | hit hit isHit reported spells isAbove =>
    exact Covered.hit hit isHit reported spells (isAbove.trans isBelow)
  | unwalked rel isListed reported spells isAbove =>
    exact Covered.unwalked rel isListed reported spells (isAbove.trans isBelow)

theorem Covered.looked {below : List Name}
    (covered : Covered host realRoot hits unwalked (realRoot ++ below)) :
    Looked host reading realRoot realProject hits unwalked below := by
  cases covered with
  | hit hit isHit reported spells isBelow => exact Looked.hit hit isHit reported spells isBelow
  | unwalked rel isListed reported spells isBelow =>
    exact Looked.unwalked rel isListed reported spells isBelow

theorem reach_looked {walk : Walk} (isTop : realRoot ∈ walk.seen)
    (settled : ∀ folder ∈ walk.seen, Settled host reading realRoot realProject walk folder)
    {below : List Name} (reach : Reach host.fs realRoot below)
    (ordinary : ∀ name ∈ below, Ordinary reading name) :
    Covered host realRoot walk.hits walk.unwalked (realRoot ++ below) ∨
      ((below ≠ [] → Looked host reading realRoot realProject walk.hits walk.unwalked below) ∧
        (host.fs.node (realRoot ++ below) = some .dir → realRoot ++ below ∈ walk.seen)) := by
  induction reach with
  | top =>
    refine Or.inr ⟨fun isBelow => absurd rfl isBelow, fun _ => ?_⟩
    rw [List.append_nil]
    exact isTop
  | @entry above name isAbove isFolder readable searchable isIn ih =>
    have isPath : realRoot ++ (above ++ [name]) = realRoot ++ above ++ [name] :=
      (List.append_assoc _ _ _).symm
    rw [isPath]
    have isPrefix : realRoot ++ above <+: realRoot ++ above ++ [name] := List.prefix_append _ _
    obtain ⟨isOne, isDecoded⟩ := ordinary name (List.mem_append_right _ List.mem_cons_self)
    rcases ih fun part isPart => ordinary part (List.mem_append_left _ isPart) with
      covered | ⟨_, isSeen⟩
    · exact Or.inl (covered.below isPrefix)
    rcases settled _ (isSeen isFolder) with ⟨rel, spells, isListed⟩ | ⟨rel, spells, handled⟩
    · exact Or.inl (Covered.unwalked rel isListed _ spells isPrefix)
    have isSpelled : Spells host realRoot (child rel name) (realRoot ++ above ++ [name]) :=
      Spells.entry spells isIn
    rcases handled name searchable isIn isOne isDecoded with
      ⟨hit, isHit, isHitPath⟩ | ⟨clean, isFound⟩
    · exact Or.inl (Covered.hit hit isHit _ (isHitPath ▸ isSpelled) List.prefix_rfl)
    by_cases isDir : host.fs.node (realRoot ++ above ++ [name]) = some .dir
    · rcases isFound isDir with seen | isListed
      · refine Or.inr ⟨fun _ => ?_, fun _ => seen⟩
        by_cases isOwn : child rel name = relOf (above ++ [name])
        · exact Looked.clean (by rw [isPath, ← isOwn]; exact clean)
        · exact Looked.walkedAs _ isOwn (by rw [isPath]; exact isSpelled) (by rw [isPath]; exact clean)
      · exact Or.inl (Covered.unwalked _ isListed _ isSpelled List.prefix_rfl)
    · refine Or.inr ⟨fun _ => ?_, fun isFolder => absurd isFolder isDir⟩
      by_cases isOwn : child rel name = relOf (above ++ [name])
      · exact Looked.clean (by rw [isPath, ← isOwn]; exact clean)
      · exact Looked.walkedAs _ isOwn (by rw [isPath]; exact isSpelled) (by rw [isPath]; exact clean)

end Reader

/-! ## A name that is not one part -/

/-- A reading for which `.env` is the one sensitive name. -/
def envReading : Reading where
  decoded := id
  sorted left right := decide (left.map Char.toNat ≤ right.map Char.toNat)
  sensitivePathRow path _ _ _ :=
    if (segments path).getLast? = some (text ".env") then some "env" else none

theorem Reach.solid {fs : FileTree} {root : RealPath} {below : List Name} (isRoot : fs.Solid root)
    (reach : Reach fs root below) : fs.Solid (root ++ below) := by
  cases reach with
  | top =>
    rw [List.append_nil]
    exact isRoot
  | entry above isFolder readable searchable isIn =>
    rw [← List.append_assoc]
    exact isIn

/-- A project `/p` with a folder that holds a key file. -/
def projectNodes (folder : Name) : List (RealPath × Node) :=
  [([text "p"], .dir), ([text "p", folder], .dir), ([text "p", folder, text ".env"], .file)]

def projectHost (folder : Name) (listed : FileTree.Listed (projectNodes folder)) : Host where
  fs := FileTree.ofNodes _ listed (fun _ => true) (fun _ => true)
  links := 40
  cwd := []
  here := Or.inl rfl

def backslashHost : Host := projectHost (text "a\\b") (by decide +kernel)

def plainHost : Host := projectHost (text "a") (by decide +kernel)

def still : WalkOptions where
  now _ := 0

end Murage.InProject
