/-
What a write to the disk changes: the file at one place, what leads to it, and
nothing else.
-/
import ImageLock.Disk
import ImageLock.Proofs.Names
import ImageLock.Proofs.Pieces
import ImageLock.Update

namespace ImageLock

/-! What is found. -/

namespace Found

def isMissing : Found → Bool
  | .missing => true
  | _ => false

def isDirectory : Found → Bool
  | .directory => true
  | _ => false

theorem eq_missing {found : Found} (missing : found.isMissing = true) : found = .missing := by
  cases found <;> simp_all [isMissing]

end Found

namespace Disk

/-! Places and what leads to them. -/

theorem ofParts_cons (part : String) (parts : List String) :
    ofParts (part :: parts) = ofParts parts ++ "/" ++ part := by
  simp [ofParts, String.join_append, String.append_assoc]

theorem leadsThrough_iff {place path : String} :
    leadsThrough place path = true ↔ place.toList ++ ['/'] <+: path.toList := by
  simp [leadsThrough, Text.startsWith]

theorem leadsThrough_trans {a b c : String} (one : leadsThrough a b = true)
    (other : leadsThrough b c = true) : leadsThrough a c = true := by
  rw [leadsThrough_iff] at one other ⊢
  exact one.trans ((List.prefix_append _ _).trans other)

theorem leadsThrough_ofParts (part : String) (parts : List String) :
    leadsThrough (ofParts parts) (ofParts (part :: parts)) = true := by
  rw [leadsThrough_iff, ofParts_cons]
  exact ⟨part.toList, by simp⟩

/-- What leads to a place with one more part leads to the place or is it. -/
theorem leadsThrough_cons {place part : String} {parts : List String} (whole : '/' ∉ part.toList)
    (leads : leadsThrough place (ofParts (part :: parts)) = true) :
    place = ofParts parts ∨ leadsThrough place (ofParts parts) = true := by
  rw [leadsThrough_iff, ofParts_cons] at leads
  obtain ⟨rest, same⟩ := leads
  have joined : (place.toList ++ ['/']) ++ rest =
      ((ofParts parts).toList ++ ['/']) ++ part.toList := by simpa using same
  -- One of the two places is shorter. If the added part were split, it would
  -- have a slash.
  rcases List.append_eq_append_iff.mp joined with ⟨front, shorter, _⟩ | ⟨back, longer, split⟩
  · rcases List.eq_nil_or_concat front with rfl | ⟨front, last, rfl⟩
    · left
      exact String.toList_inj.mp (by simpa using shorter.symm)
    · right
      rw [leadsThrough_iff]
      have ends : (ofParts parts).toList ++ ['/'] = (place.toList ++ ['/'] ++ front) ++ [last] := by
        simpa using shorter
      exact ⟨front, (List.append_inj' ends rfl).1.symm⟩
  · rcases List.eq_nil_or_concat back with rfl | ⟨back, last, rfl⟩
    · left
      exact String.toList_inj.mp (by simpa using longer)
    · exfalso
      have ends : place.toList ++ ['/'] = ((ofParts parts).toList ++ ['/'] ++ back) ++ [last] := by
        simpa using longer
      have slash : last = '/' := by simpa using (List.append_inj' ends rfl).2.symm
      exact whole (by simp [split, slash])

theorem isDirectory_of_leadsThrough {disk : Disk} {place below : String}
    (leads : leadsThrough place below = true) (directory : disk.isDirectory below = true) :
    disk.isDirectory place = true := by
  have filled : below.isEmpty = false := by
    rw [leadsThrough_iff] at leads
    obtain ⟨rest, same⟩ := leads
    have content : below.toList ≠ [] := by simp [← same]
    simpa [String.toList_eq_nil_iff] using content
  simp only [isDirectory, filled, Bool.false_or, Bool.or_eq_true, List.any_eq_true] at directory ⊢
  rcases directory with ⟨d, member, there⟩ | ⟨file, member, through⟩
  · refine .inl (.inr ⟨d, member, ?_⟩)
    rcases there with same | through
    · have equal : d = below := by simpa using same
      simp [equal, leads]
    · simp [leadsThrough_trans leads through]
  · exact .inr ⟨file, member, leadsThrough_trans leads through⟩

/-- A step up from a directory does not lead to where nothing is. -/
theorem at?_drop_ne_missing {disk : Disk} {parts : List String}
    (directory : disk.isDirectory (ofParts parts) = true) :
    disk.at? (ofParts (parts.drop 1)) ≠ .missing := by
  have above : disk.isDirectory (ofParts (parts.drop 1)) = true := by
    cases parts with
    | nil => exact directory
    | cons part parts =>
        exact isDirectory_of_leadsThrough (leadsThrough_ofParts part parts) directory
  simp only [at?, above]
  split <;> simp

/-! Following a path. -/

theorem isDirectory_of_at? {disk : Disk} {place : String}
    (found : disk.at? place = .directory) : disk.isDirectory place = true := by
  simp only [at?] at found
  split at found
  · cases found
  · split at found
    · assumption
    · cases found

/-- A path is followed to its end, if nothing is missing or in the way. -/
theorem follow_cases (disk : Disk) (parts pieces : List String) :
    disk.follow parts pieces = disk.at? (ofParts (pieces.foldl enter parts)) ∨
      disk.follow parts pieces = .missing ∨ disk.follow parts pieces = .blocked := by
  induction pieces generalizing parts with
  | nil => exact .inl rfl
  | cons piece rest ih =>
      simp only [follow, List.foldl_cons]
      cases disk.at? (ofParts parts) with
      | directory =>
          by_cases long : nameLimit < Text.byteLength piece.toList
          · simp [long]
          · simpa [long] using ih (enter parts piece)
      | file content => simp
      | missing => simp
      | blocked => simp

theorem follow_append (disk : Disk) (parts front back : List String) :
    disk.follow parts (front ++ back) =
      match disk.follow parts front with
      | .directory => disk.follow (front.foldl enter parts) back
      | .file content => if back = [] then .file content else .blocked
      | found => found := by
  induction front generalizing parts with
  | nil =>
      cases back with
      | nil => cases here : disk.at? (ofParts parts) <;> simp [follow, here]
      | cons piece rest => cases here : disk.at? (ofParts parts) <;> simp [follow, here]
  | cons piece rest ih =>
      simp only [List.cons_append, follow, List.foldl_cons]
      cases here : disk.at? (ofParts parts) with
      | directory =>
          by_cases long : nameLimit < Text.byteLength piece.toList
          · simp [long]
          · simpa [long] using ih (enter parts piece)
      | file content => simp
      | missing => simp
      | blocked => simp

/-! Writing a file. -/

/-- A place for a file: what leads to it are directories, and there is a file or
nothing. -/
structure CanHold (disk : Disk) (place : String) : Prop where
  above : ∀ p, leadsThrough p place = true → disk.isDirectory p = true
  free : disk.at? place = .missing ∨ ∃ content, disk.at? place = .file content

variable {disk : Disk} {path : String}

theorem isDirectory_write (can : CanHold disk (disk.place path)) (content : ByteArray)
    (p : String) :
    (disk.write path content).isDirectory p = disk.isDirectory p := by
  have keys (key : String) : key ∈ (disk.files.insert (disk.place path) content).keys ↔
      key = disk.place path ∨ key ∈ disk.files.keys := by
    rw [Names.mem_keys, Names.has_insert, Names.mem_keys, Bool.or_eq_true, beq_iff_eq,
      eq_comm (b := key)]
  rw [Bool.eq_iff_iff]
  constructor
  · intro directory
    simp only [isDirectory, write, Bool.or_eq_true, List.any_eq_true] at directory
    rcases directory with known | ⟨file, member, through⟩
    · simp only [isDirectory, Bool.or_eq_true, List.any_eq_true]
      exact .inl known
    · -- The written file leads only through directories that were there.
      rcases (keys file).mp member with rfl | member
      · exact can.above p through
      · simp only [isDirectory, Bool.or_eq_true, List.any_eq_true]
        exact .inr ⟨file, member, through⟩
  · intro directory
    simp only [isDirectory, Bool.or_eq_true, List.any_eq_true] at directory
    simp only [isDirectory, write, Bool.or_eq_true, List.any_eq_true]
    rcases directory with known | ⟨file, member, through⟩
    · exact .inl known
    · exact .inr ⟨file, (keys file).mpr (.inr member), through⟩

theorem at?_write (can : CanHold disk (disk.place path)) (content : ByteArray) (p : String) :
    (disk.write path content).at? p =
      if p = disk.place path then .file content else disk.at? p := by
  have found : (disk.write path content).files.find? p =
      if disk.place path = p then some content else disk.files.find? p :=
    Names.find?_insert disk.files (disk.place path) p content
  rw [at?, found, isDirectory_write can]
  by_cases here : p = disk.place path
  · rw [if_pos here.symm, if_pos here]
  · rw [if_neg (Ne.symm here), if_neg here, at?]

/-- Following a path to its end finds the written file there, or what was there
before. A path through the written file is blocked, where there was nothing. -/
theorem follow_write (can : CanHold disk (disk.place path)) (content : ByteArray)
    (parts pieces : List String) :
    (disk.write path content).follow parts pieces = disk.follow parts pieces ∨
    ((disk.write path content).follow parts pieces = .file content ∧
      ofParts (pieces.foldl enter parts) = disk.place path ∧
      disk.follow parts pieces = disk.at? (disk.place path)) ∨
    ((disk.write path content).follow parts pieces = .blocked ∧
      disk.follow parts pieces = .missing) := by
  induction pieces generalizing parts with
  | nil =>
      by_cases here : ofParts parts = disk.place path
      · right; left
        simp [follow, at?_write can, here]
      · left
        simp [follow, at?_write can, here]
  | cons piece rest ih =>
      -- A path that goes on from the written place is blocked by any file there.
      by_cases here : ofParts parts = disk.place path
      · rcases can.free with missing | ⟨old, file⟩
        · right; right
          simp [follow, at?_write can, here, missing]
        · left
          simp [follow, at?_write can, here, file]
      · simp only [follow, at?_write can, here, if_false, List.foldl_cons]
        cases disk.at? (ofParts parts) with
        | directory =>
            by_cases long : nameLimit < Text.byteLength piece.toList
            · simp [long]
            · simpa [long] using ih (enter parts piece)
        | file old => simp
        | missing => simp
        | blocked => simp

theorem look_write (can : CanHold disk (disk.place path)) (content : ByteArray)
    (other : String) :
    (disk.write path content).look other = disk.look other ∨
    ((disk.write path content).look other = .file content ∧
      disk.place other = disk.place path ∧ disk.look other = disk.at? (disk.place path)) ∨
    ((disk.write path content).look other = .blocked ∧ disk.look other = .missing) := by
  by_cases empty : other.isEmpty
  · simp [look, empty]
  · by_cases possible : canBePath other
    · have origin : (disk.write path content).origin other = disk.origin other := rfl
      simpa [look, empty, possible, origin, place] using
        follow_write can content (disk.origin other) (pieces other)
    · simp [look, empty, possible]

/-- A file that is written leaves directories as they were. -/
theorem look_directory_write (can : CanHold disk (disk.place path)) (content : ByteArray)
    {other : String} :
    (disk.write path content).look other = .directory ↔ disk.look other = .directory := by
  rcases look_write can content other with same | ⟨here, _, old⟩ | ⟨here, old⟩
  · rw [same]
  · rcases can.free with missing | ⟨_, file⟩
    · simp [here, old, missing]
    · simp [here, old, file]
  · simp [here, old]

/-- A file is at the place of its path. -/
theorem at?_of_look {other : String} {old : ByteArray} (found : disk.look other = .file old) :
    disk.at? (disk.place other) = .file old := by
  simp only [look] at found
  split at found
  · cases found
  · split at found
    · rcases follow_cases disk (disk.origin other) (pieces other) with ends | fails | fails
      · rw [place, ← ends, found]
      · simp [found] at fails
      · simp [found] at fails
    · cases found

/-! Files that come and go. -/

theorem write_write (disk : Disk) (path : String) (one other : ByteArray) :
    (disk.write path one).write path other = disk.write path other :=
  congrArg (fun files => { disk with files })
    (Names.insert_insert disk.files (disk.place path) one other)

theorem find?_of_missing {place : String} (missing : disk.at? place = .missing) :
    disk.files.find? place = none := by
  simp only [at?] at missing
  split at missing
  · cases missing
  · assumption

/-- A new file that is removed again has not been there. -/
theorem delete_write (new : disk.at? (disk.place path) = .missing)
    (content : ByteArray) : (disk.write path content).delete path = disk :=
  congrArg (fun files => { disk with files })
    (Names.erase_insert disk.files (disk.place path) content (find?_of_missing new))

/-! A file in its directory. -/

/-- A path with the name of a file at its end. -/
structure Named (path : String) (directory name : List Char) : Prop where
  split : path.toList = directory ++ name
  whole : '/' ∉ name
  named : name ≠ []
  ends : directory = [] ∨ directory.getLast? = some '/'

theorem parent_eq {directory name : List Char} (named : Named path directory name) :
    Path.parent path = if directory = [] then "." else String.ofList directory := by
  obtain ⟨split, whole, filled, ends⟩ := named
  have last : path.toList.reverse.dropWhile (· == '/') = path.toList.reverse := by
    cases reversed : name.reverse with
    | nil => exact absurd (List.reverse_eq_nil_iff.mp reversed) filled
    | cons c rest =>
        have other : c ≠ '/' := fun same =>
          whole (List.mem_reverse.mp (by simp [reversed, same]))
        simp [split, reversed, other]
  have outside : (directory.reverse.dropWhile (· != '/')) = directory.reverse := by
    rcases ends with rfl | slash
    · rfl
    · obtain ⟨front, rfl⟩ := List.getLast?_eq_some_iff.mp slash
      simp
  have inner : path.toList.reverse.dropWhile (· != '/') = directory.reverse := by
    rw [split, List.reverse_append, List.dropWhile_append_of_pos, outside]
    intro c member
    have other : c ≠ '/' := fun same => whole (by simpa [same] using member)
    simp [other]
  simp [Path.parent, last, inner]

theorem splitWhere_slash (front tail : List Char) :
    Text.splitWhere (· == '/') (front ++ '/' :: tail) =
      Text.splitWhere (· == '/') front ++ Text.splitWhere (· == '/') tail :=
  Text.splitWhere_append rfl front tail

/-- A directory that is looked up with a slash at its end is followed without it. -/
theorem follow_of_look {front tail : List Char} (split : path.toList = front ++ '/' :: tail)
    (inside : disk.look (String.ofList (front ++ ['/'])) = .directory) :
    disk.follow (disk.origin path) ((Text.splitWhere (· == '/') front).map String.ofList) =
      .directory := by
  have start : disk.origin (String.ofList (front ++ ['/'])) = disk.origin path := by
    cases front <;> simp [origin, split]
  have outer : pieces (String.ofList (front ++ ['/'])) =
      (Text.splitWhere (· == '/') front).map String.ofList ++ [""] := by
    simp [pieces, splitWhere_slash, Text.splitWhere]
  simp only [look, outer, start] at inside
  split at inside
  · cases inside
  · split at inside
    · -- The piece behind the last slash is empty, and stays where it is.
      rw [follow_append] at inside
      split at inside
      · assumption
      · simp at inside
      · assumption
    · cases inside

/-- Where a name stands alone, it is looked up from the directory at home. -/
theorem follow_home {name : List Char} (split : path.toList = name) (whole : '/' ∉ name)
    (inside : disk.look "." = .directory) : disk.follow (disk.origin path) [] = .directory := by
  have relative : path.toList.head? ≠ some '/' := by
    intro absolute
    exact whole (List.mem_of_mem_head? (by simpa [split] using absolute))
  have start : disk.origin path = partsOf disk.home := by simp [origin, relative]
  have here : disk.look "." = disk.follow (partsOf disk.home) ["."] := rfl
  rw [here] at inside
  rw [start]
  simp only [follow] at inside ⊢
  split at inside
  next found => exact found
  next => cases inside
  next notDirectory _ => exact (notDirectory inside).elim

/-- A path in a directory that is there is a piece behind a path to it. -/
theorem exists_pieces {directory name : List Char} (named : Named path directory name)
    (inside : disk.look (Path.parent path) = .directory) :
    ∃ front, pieces path = front ++ [String.ofList name] ∧
      disk.follow (disk.origin path) front = .directory := by
  have single : Text.splitWhere (· == '/') name = [name] := by
    refine Text.splitWhere_of_none fun c member => ?_
    have other : c ≠ '/' := fun same => named.whole (by rwa [← same])
    simpa using other
  rw [parent_eq named] at inside
  obtain ⟨split, whole, _, ends⟩ := named
  rcases ends with rfl | slash
  · rw [if_pos rfl] at inside
    exact ⟨[], by simp [pieces, split, single], follow_home (by simpa using split) whole inside⟩
  · obtain ⟨front, rfl⟩ := List.getLast?_eq_some_iff.mp slash
    have behind : path.toList = front ++ '/' :: name := by simpa using split
    rw [if_neg (by simp)] at inside
    refine ⟨(Text.splitWhere (· == '/') front).map String.ofList, ?_, follow_of_look behind inside⟩
    simp [pieces, behind, splitWhere_slash, single]

/-- A name that is looked up in a directory. -/
theorem look_named {directory name : List Char} (named : Named path directory name)
    (inside : disk.look (Path.parent path) = .directory) :
    ∃ parts, disk.at? (ofParts parts) = .directory ∧
      disk.place path = ofParts (enter parts (String.ofList name)) ∧
      disk.look path =
        if canBePath path = true ∧ ¬nameLimit < Text.byteLength name then
          disk.at? (disk.place path)
        else .blocked := by
  obtain ⟨front, split, reached⟩ := exists_pieces named inside
  have directory : disk.at? (ofParts (front.foldl enter (disk.origin path))) = .directory := by
    rcases follow_cases disk (disk.origin path) front with ends | fails | fails
    · rw [← ends, reached]
    · simp [reached] at fails
    · simp [reached] at fails
  have place_eq : disk.place path =
      ofParts (enter (front.foldl enter (disk.origin path)) (String.ofList name)) := by
    simp [place, split]
  have filled : path.isEmpty = false := by
    have content : path.toList ≠ [] := by simp [named.split, named.named]
    simpa [String.toList_eq_nil_iff] using content
  have step : disk.follow (disk.origin path) (pieces path) =
      if nameLimit < Text.byteLength name then .blocked else disk.at? (disk.place path) := by
    rw [split, follow_append, reached, place_eq]
    simp [follow, directory]
  refine ⟨_, directory, place_eq, ?_⟩
  by_cases possible : canBePath path
  · by_cases long : nameLimit < Text.byteLength name <;> simp [look, filled, possible, step, long]
  · simp [look, filled, possible]

theorem mem_keys_of_at? {place : String} {old : ByteArray} (found : disk.at? place = .file old) :
    place ∈ disk.files.keys := by
  rw [Names.mem_keys, ← Names.isSome_find?]
  simp only [at?] at found
  split at found
  next known => simp [known]
  next => split at found <;> cases found

/-- Where a file is put, it can be. -/
theorem canHold_of_named {directory name : List Char} (named : Named path directory name)
    (inside : disk.look (Path.parent path) = .directory)
    (free : disk.look path = .missing ∨ ∃ old, disk.look path = .file old) :
    CanHold disk (disk.place path) ∧ disk.look path = disk.at? (disk.place path) := by
  obtain ⟨parts, above, place_eq, found⟩ := look_named named inside
  have ends : disk.look path = disk.at? (disk.place path) := by
    split at found
    · exact found
    · rw [found] at free
      simp at free
  rw [ends] at free
  refine ⟨⟨?_, free⟩, ends⟩
  intro p leads
  rcases free with missing | ⟨old, file⟩
  · have directory := isDirectory_of_at? above
    rw [place_eq] at leads missing
    -- A piece that stays or goes up leads to a directory, where something is.
    simp only [enter] at leads missing
    split at missing
    · rw [above] at missing
      cases missing
    · split at missing
      · exact absurd missing (at?_drop_ne_missing directory)
      · have whole : '/' ∉ (String.ofList name).toList := by simpa using named.whole
        simp only [*] at leads
        rcases leadsThrough_cons whole leads with rfl | through
        · exact directory
        · exact isDirectory_of_leadsThrough through directory
  · simp only [isDirectory, Bool.or_eq_true, List.any_eq_true]
    exact .inr ⟨_, mem_keys_of_at? file, leads⟩

/-- A file that is written in a directory is found there. -/
theorem look_write_self {directory name : List Char} (named : Named path directory name)
    (inside : disk.look (Path.parent path) = .directory)
    (free : disk.look path = .missing ∨ ∃ old, disk.look path = .file old)
    (content : ByteArray) : (disk.write path content).look path = .file content := by
  obtain ⟨can, _⟩ := canHold_of_named named inside free
  have inside' : (disk.write path content).look (Path.parent path) = .directory :=
    (look_directory_write can content).mpr inside
  obtain ⟨_, _, _, before⟩ := look_named named inside
  obtain ⟨_, _, _, found⟩ := look_named named inside'
  -- A path that could be written is not too long, or nothing would have been free.
  have fits : canBePath path = true ∧ ¬nameLimit < Text.byteLength name := by
    refine Classical.not_not.mp fun fails => ?_
    rw [before, if_neg fails] at free
    simp at free
  have here : (disk.write path content).place path = disk.place path := rfl
  rw [found, if_pos fits, here, at?_write can, if_pos rfl]

/-- Whether there is a file or room for one does not depend on other files. -/
theorem look_free_write {directory name : List Char} {other : String}
    (can : CanHold disk (disk.place path)) (content : ByteArray)
    (named : Named other directory name) (inside : disk.look (Path.parent other) = .directory) :
    ((disk.write path content).look other = .missing ∨
      ∃ old, (disk.write path content).look other = .file old) ↔
    (disk.look other = .missing ∨ ∃ old, disk.look other = .file old) := by
  obtain ⟨_, _, _, before⟩ := look_named named inside
  obtain ⟨_, _, _, after⟩ :=
    look_named named ((look_directory_write can content).mpr inside)
  have here : (disk.write path content).place other = disk.place other := rfl
  rw [before, after, here, at?_write can]
  split
  · split
    next same =>
      rw [same]
      simp [can.free]
    · rfl
  · rfl

end Disk
end ImageLock
