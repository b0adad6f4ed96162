import MiniRisc.Proofs.Operands
import MiniRisc.Proofs.Tokens
import MiniRisc.Tool.Store

/-!
# What the writing of a file changes

A path that can be written leads to a name in a directory that is there, and no directory has the
name. So writing a file makes no directory, and every path leads where it led before. What is
written is read back, and no other file changes.
-/

namespace MiniRisc

/-- A piece of a path that can be the name of a file: it is neither empty nor a dot, and has no
slash. -/
structure IsName (piece : String) : Prop where
  /-- It does not stand for the directory where it is looked up. -/
  busy : isIdlePiece piece = false
  /-- It has no slash. -/
  whole : '/' ∉ piece.toList

/-- No piece of a path has a slash. -/
theorem not_mem_of_mem_pathPieces {path piece : String} (h : piece ∈ pathPieces path) :
    '/' ∉ piece.toList := by
  obtain ⟨text, ht, rfl⟩ := List.mem_map.1 h
  rw [String.toList_ofList]
  exact Text.not_mem_of_mem_pieces (by decide) ht

/-- Pieces joined by slashes are cut into these pieces. -/
theorem pathPieces_intercalate {pieces : List String} (hne : pieces ≠ [])
    (h : ∀ piece ∈ pieces, '/' ∉ piece.toList) :
    pathPieces (String.intercalate "/" pieces) = pieces := by
  have hone : ∀ piece : String, '/' ∉ piece.toList →
      Text.pieces (· == '/') piece.toList = [piece.toList] := fun piece hp =>
    Text.pieces_eq_singleton fun c hc => beq_eq_false_iff_ne.2 fun he => hp (he ▸ hc)
  induction pieces with
  | nil => exact absurd rfl hne
  | cons first rest ih =>
    have hfirst := hone first (h first List.mem_cons_self)
    cases rest with
    | nil =>
      rw [String.intercalate_singleton, pathPieces, hfirst, List.map_singleton,
        String.ofList_toList]
    | cons second more =>
      have hrest := ih (List.cons_ne_nil second more) fun piece hp =>
        h piece (List.mem_cons_of_mem first hp)
      have hs : "/".toList = ['/'] := rfl
      rw [String.intercalate_cons_cons, pathPieces, String.toList_append, String.toList_append, hs,
        List.append_assoc, List.singleton_append, Text.pieces_append_cons (by decide), hfirst,
        List.map_append, List.map_singleton, String.ofList_toList]
      exact congrArg (first :: ·) hrest

namespace Place

/-- All parts of the place can be names of files. -/
def Proper (place : Place) : Prop := ∀ part ∈ place.parts, IsName part

/-- The name of a proper place is cut into its parts. -/
theorem Proper.pathParts_name {place : Place} (h : place.Proper) :
    pathParts place.name = place.parts := by
  obtain ⟨anchor, parts⟩ := place
  cases parts with
  | nil => rfl
  | cons first rest =>
    rw [pathParts, name, pathPieces_intercalate (List.cons_ne_nil first rest)
      fun part hp => (h part hp).whole]
    exact List.filter_eq_self.2 fun part hp => by rw [(h part hp).busy, Bool.not_false]

/-- Where one piece of a path leads from a place. -/
inductive Leads (place : Place) (piece : String) : Place → Prop
  /-- An idle piece stays. -/
  | stay (hi : isIdlePiece piece = true) : Leads place piece place
  /-- Two dots go to the parent. -/
  | up (hu : piece = "..") : Leads place piece place.parent
  /-- Any other piece is a name. -/
  | into (hi : isIdlePiece piece = false) (hu : piece ≠ "..")
    (hs : piece.utf8ByteSize ≤ nameLimit) : Leads place piece (place.child piece)

/-- A piece without a slash leads from a proper place to a proper place. -/
theorem Proper.leads {place next : Place} {piece : String} (h : place.Proper)
    (hp : '/' ∉ piece.toList) (hl : place.Leads piece next) : next.Proper := by
  cases hl with
  | stay => exact h
  | up =>
    intro part hm
    unfold parent at hm
    split at hm
    case isTrue => cases hm
    case isFalse => exact h part (List.dropLast_subset _ hm)
  | into hi =>
    intro part hm
    rcases List.mem_append.1 hm with hm | hm
    · exact h part hm
    · obtain rfl := List.mem_singleton.1 hm
      exact ⟨hi, hp⟩

end Place

namespace Store

variable {store after : Store}

/-- A step along a path succeeds from directories only. -/
theorem follow_eq_ok_iff {place next : Place} {piece : String} :
    store.follow place piece = .ok next ↔
      store.entry? place = some .directory ∧ place.Leads piece next := by
  constructor
  · intro h
    unfold follow at h
    split at h
    case h_1 => cases h
    case h_2 => cases h
    case h_3 hd =>
      refine ⟨hd, ?_⟩
      split at h
      case isTrue hi =>
        obtain rfl := Except.ok.inj h
        exact .stay hi
      case isFalse hi =>
        split at h
        case isTrue hu =>
          obtain rfl := Except.ok.inj h
          exact .up hu
        case isFalse hu =>
          split at h
          case isTrue => cases h
          case isFalse hs =>
            obtain rfl := Except.ok.inj h
            exact .into (Bool.eq_false_iff.2 hi) hu (Nat.not_lt.1 hs)
  · rintro ⟨hd, hl⟩
    rw [follow, hd]
    cases hl with
    | stay hi => exact if_pos hi
    | up hu =>
      obtain rfl := hu
      rfl
    | into hi hu hs =>
      dsimp only
      rw [if_neg (Bool.eq_false_iff.1 hi), if_neg hu, if_neg (Nat.not_lt.2 hs)]

/-- Files can be put into the directory itself and into what leads to a file. -/
theorem isDirectory_iff {parts : List String} :
    store.isDirectory parts = true ↔
      parts = [] ∨ ∃ file ∈ store.files, parts <+: (pathParts file.1).dropLast := by
  simp only [isDirectory, Bool.or_eq_true, List.isEmpty_iff, List.any_eq_true,
    List.isPrefixOf_iff_prefix]

/-- What leads to a directory is a directory. -/
theorem isDirectory_of_front {parts front : List String} (h : store.isDirectory parts = true)
    (hf : front <+: parts) : store.isDirectory front = true := by
  refine isDirectory_iff.2 ?_
  rcases isDirectory_iff.1 h with rfl | ⟨file, hm, hp⟩
  · exact .inl (List.prefix_nil.1 hf)
  · exact .inr ⟨file, hm, hf.trans hp⟩

/-- A directory is found exactly where files can be put. -/
theorem entry?_here_iff {parts : List String} :
    store.entry? ⟨.here, parts⟩ = some .directory ↔ store.isDirectory parts = true := by
  unfold entry?
  dsimp only
  split
  case isTrue hd => simp [hd]
  case isFalse hd => simp [hd]

/-- The parent of a directory is a directory. -/
theorem entry?_parent {place : Place} (h : store.entry? place = some .directory) :
    store.entry? place.parent = some .directory := by
  obtain ⟨anchor, parts⟩ := place
  cases anchor with
  | here =>
    have hd := entry?_here_iff.1 h
    unfold Place.parent
    split
    case isTrue => rfl
    case isFalse =>
      exact entry?_here_iff.2 (isDirectory_of_front hd (List.dropLast_prefix parts))
  | above =>
    cases parts with
    | nil => rfl
    | cons part rest => cases h
  | root =>
    unfold entry? Entry.standard? at h
    dsimp only at h
    split at h
    all_goals first | rfl | cases h

/-- The content of a file after another was put beside it or over it. -/
theorem content?_put (store : Store) (name other : String) (content : ByteArray) :
    (store.put name content).content? other =
      if other = name then some content else store.content? other := by
  have hkept : (store.files.filter (·.1 != name)).lookup other =
      if other = name then none else store.files.lookup other := by
    induction store.files with
    | nil => simp
    | cons file rest ih =>
      obtain ⟨known, bytes⟩ := file
      by_cases hk : known = name
      · obtain rfl := hk
        rw [List.filter_cons_of_neg (by simp), ih]
        split
        case isTrue => rfl
        case isFalse he => rw [List.lookup_cons, beq_eq_false_iff_ne.2 he]
      · rw [List.filter_cons_of_pos (by simpa using hk), List.lookup_cons, List.lookup_cons, ih]
        by_cases he : other = known
        · obtain rfl := he
          simp [hk]
        · rw [beq_eq_false_iff_ne.2 he]
  rw [content?, put, List.lookup_append, hkept, List.lookup_cons, List.lookup_nil]
  by_cases he : other = name
  · rw [if_pos he, if_pos he, beq_iff_eq.2 he, Option.none_or]
  · rw [if_neg he, if_neg he, beq_eq_false_iff_ne.2 he, Option.or_none, content?]

/-- Two stores have the same directories. -/
def SameDirectories (store after : Store) : Prop :=
  ∀ parts, after.isDirectory parts = store.isDirectory parts

namespace SameDirectories

variable (h : store.SameDirectories after)

include h

/-- The same places are found to be directories. -/
theorem entry?_iff {place : Place} :
    after.entry? place = some .directory ↔ store.entry? place = some .directory := by
  obtain ⟨anchor, parts⟩ := place
  cases anchor with
  | here => rw [entry?_here_iff, entry?_here_iff, h parts]
  | above | root => rfl

/-- The pieces of a path lead to the same place. -/
theorem foldlM_follow_iff {pieces : List String} {place next : Place} :
    pieces.foldlM after.follow place = .ok next ↔ pieces.foldlM store.follow place = .ok next := by
  induction pieces generalizing place with
  | nil => rfl
  | cons piece rest ih =>
    simp only [List.foldlM_cons, bind_eq_ok, follow_eq_ok_iff, h.entry?_iff, ih]

/-- A path leads to the same place. -/
theorem walk_iff {path : String} {pieces : List String} {place : Place} :
    after.walk path pieces = .ok place ↔ store.walk path pieces = .ok place := by
  unfold walk
  split
  case isTrue => rfl
  case isFalse =>
    split
    case isTrue => rfl
    case isFalse =>
      split
      case isTrue => rfl
      case isFalse => exact h.foldlM_follow_iff

end SameDirectories

/-- The pieces that are followed to the place where a file can be written. -/
def writtenPieces (path : String) : List String :=
  if endsInSlash path then directoryPieces path ++ ["."] else pathPieces path

/-- A file can be written where a path leads, unless there is a directory. -/
theorem target_eq_ok_iff {path : String} {place : Place} :
    store.target path = .ok place ↔
      store.walk path (writtenPieces path) = .ok place ∧
        store.entry? place ≠ some .directory := by
  unfold target writtenPieces
  dsimp only
  split
  case h_1 hw => simp [hw]
  case h_2 found hw =>
    rw [hw, Except.ok.injEq]
    split
    case h_1 hd =>
      simp only [reduceCtorEq, false_iff, not_and, not_not]
      rintro rfl
      exact hd
    case h_2 hd =>
      constructor
      · intro he
        obtain rfl := Except.ok.inj he
        exact ⟨rfl, hd⟩
      · rintro ⟨rfl, -⟩
        rfl

/-- No piece that is followed has a slash. -/
theorem not_mem_of_mem_writtenPieces {path piece : String} (h : piece ∈ writtenPieces path) :
    '/' ∉ piece.toList := by
  unfold writtenPieces at h
  split at h
  case isFalse => exact not_mem_of_mem_pathPieces h
  case isTrue =>
    rcases List.mem_append.1 h with h | h
    · have hd := List.mem_of_mem_drop (List.mem_reverse.1 h)
      have hp := (List.dropWhile_suffix _).subset hd
      exact not_mem_of_mem_pathPieces (List.mem_reverse.1 hp)
    · obtain rfl := List.mem_singleton.1 h
      decide

/-- Where a file can be written: at a name in a directory, and no directory has the name. -/
structure FilePlace (store : Store) (place : Place) : Prop where
  /-- All parts can be names. -/
  proper : place.Proper
  /-- The name is in a directory. -/
  inside : ∃ directory piece, store.entry? directory = some .directory ∧
    isIdlePiece piece = false ∧ place = directory.child piece
  /-- No directory has the name. -/
  free : store.entry? place ≠ some .directory

/-- Pieces without slashes lead from a proper place to proper places. -/
theorem proper_of_foldlM {pieces : List String} (hp : ∀ piece ∈ pieces, '/' ∉ piece.toList)
    {place next : Place} (hs : place.Proper)
    (h : pieces.foldlM store.follow place = .ok next) : next.Proper := by
  induction pieces generalizing place with
  | nil =>
    obtain rfl := Except.ok.inj h
    exact hs
  | cons piece rest ih =>
    rw [List.foldlM_cons] at h
    obtain ⟨middle, hm, h⟩ := bind_eq_ok.1 h
    have hproper := hs.leads (hp piece List.mem_cons_self) (follow_eq_ok_iff.1 hm).2
    exact ih (fun other ho => hp other (List.mem_cons_of_mem piece ho)) hproper h

/-- A walk follows all pieces. -/
theorem foldlM_of_walk {path : String} {pieces : List String} {place : Place}
    (h : store.walk path pieces = .ok place) :
    pieces.foldlM store.follow (Place.start path) = .ok place := by
  unfold walk at h
  split at h
  case isTrue => cases h
  case isFalse =>
    split at h
    case isTrue => cases h
    case isFalse =>
      split at h
      case isTrue => cases h
      case isFalse => exact h

/-- The start of a path is proper. -/
theorem proper_start (path : String) : (Place.start path).Proper := by
  have hempty : (Place.start path).parts = [] := by
    unfold Place.start
    split <;> rfl
  intro part hm
  rw [hempty] at hm
  cases hm

/-- The last piece of a way to a place that is no directory is a name in a directory. -/
theorem filePlace_of_foldlM {front : List String} {last : String} {start place : Place}
    (hp : ∀ piece ∈ front ++ [last], '/' ∉ piece.toList) (hs : start.Proper)
    (h : (front ++ [last]).foldlM store.follow start = .ok place)
    (hd : store.entry? place ≠ some .directory) :
    store.FilePlace place ∧ isIdlePiece last = false := by
  have hproper := proper_of_foldlM hp hs h
  rw [List.foldlM_append] at h
  obtain ⟨directory, -, h⟩ := bind_eq_ok.1 h
  rw [List.foldlM_cons] at h
  obtain ⟨reached, hr, h⟩ := bind_eq_ok.1 h
  obtain rfl := Except.ok.inj h
  obtain ⟨hdir, hl⟩ := follow_eq_ok_iff.1 hr
  cases hl with
  | stay => exact absurd hdir hd
  | up => exact absurd (entry?_parent hdir) hd
  | into hi => exact ⟨⟨hproper, ⟨directory, last, hdir, hi, rfl⟩, hd⟩, hi⟩

/-- A path that can be written does not end in a slash and leads to a place for a file. -/
theorem filePlace_of_target {path : String} {place : Place} (h : store.target path = .ok place) :
    store.FilePlace place ∧ writtenPieces path = pathPieces path := by
  obtain ⟨hw, hd⟩ := target_eq_ok_iff.1 h
  have hfold := foldlM_of_walk hw
  have hne : writtenPieces path ≠ [] := by
    unfold writtenPieces
    split
    case isTrue => exact List.append_ne_nil_of_right_ne_nil _ (List.cons_ne_nil _ _)
    case isFalse => exact fun hn => Text.pieces_ne_nil _ _ (List.map_eq_nil_iff.1 hn)
  obtain ⟨front, last, hsplit⟩ := List.eq_nil_or_concat' (writtenPieces path) |>.resolve_left hne
  have hslash : ∀ piece ∈ front ++ [last], '/' ∉ piece.toList := fun piece hm =>
    not_mem_of_mem_writtenPieces (hsplit ▸ hm)
  rw [hsplit] at hfold
  obtain ⟨hplace, hlast⟩ := filePlace_of_foldlM hslash (proper_start path) hfold hd
  refine ⟨hplace, ?_⟩
  unfold writtenPieces at hsplit ⊢
  split at hsplit
  case isTrue =>
    have hdot : "." = last := (List.append_inj' hsplit rfl).2 |> List.singleton_inj.1
    rw [← hdot] at hlast
    exact absurd hlast (by decide)
  case isFalse hs => rw [if_neg hs]

/-- A file that is put where one can be written makes no directory. -/
theorem FilePlace.sameDirectories {place : Place} (h : store.FilePlace place)
    (ha : place.anchor = .here) (content : ByteArray) :
    store.SameDirectories (store.put place.name content) := by
  obtain ⟨directory, piece, hd, -, rfl⟩ := h.inside
  have hparts : (pathParts (directory.child piece).name).dropLast = directory.parts := by
    rw [h.proper.pathParts_name]
    exact List.dropLast_concat
  have hhere : directory = ⟨.here, directory.parts⟩ := by
    obtain ⟨anchor, parts⟩ := directory
    obtain rfl : anchor = .here := ha
    rfl
  rw [hhere] at hd
  intro parts
  refine Bool.eq_iff_iff.2 ⟨fun hp => ?_, fun hp => ?_⟩
  · rcases isDirectory_iff.1 hp with rfl | ⟨file, hm, hf⟩
    · exact isDirectory_iff.2 (.inl rfl)
    · rcases List.mem_append.1 hm with hm | hm
      · exact isDirectory_iff.2 (.inr ⟨file, (List.mem_filter.1 hm).1, hf⟩)
      · obtain rfl := List.mem_singleton.1 hm
        rw [hparts] at hf
        exact isDirectory_of_front (entry?_here_iff.1 hd) hf
  · rcases isDirectory_iff.1 hp with rfl | ⟨file, hm, hf⟩
    · exact isDirectory_iff.2 (.inl rfl)
    · refine isDirectory_iff.2 (.inr ?_)
      by_cases hn : file.1 = (directory.child piece).name
      · exact ⟨_, List.mem_append_right _ List.mem_cons_self, hn ▸ hf⟩
      · exact ⟨file, List.mem_append_left _ (List.mem_filter.2 ⟨hm, bne_iff_ne.2 hn⟩), hf⟩

/-- A file is written where its path leads; outside of the directory it leaves no trace. -/
theorem write_eq_ok_iff {path text : String} :
    store.write path text = .ok after ↔ ∃ place, store.target path = .ok place ∧
      ((place.anchor = .here ∧ after = store.put place.name text.toUTF8) ∨
        (place.anchor ≠ .here ∧ after = store)) := by
  rw [write, map_eq_ok]
  refine exists_congr fun place => and_congr_right fun _ => ?_
  split
  case h_1 ha => simp [ha, eq_comm]
  case h_2 ha =>
    have hn : place.anchor ≠ .here := ha
    simp [hn, eq_comm]

/-- A path stands for the file with the name, which can be there or not: a write through the path
goes to this file. -/
def Reaches (store : Store) (path name : String) : Prop :=
  ∃ parts, store.target path = .ok ⟨.here, parts⟩ ∧ Place.name ⟨.here, parts⟩ = name

/-- What a store is after one text was written through a path. -/
structure Wrote (store : Store) (path text : String) (after : Store) : Prop where
  /-- The file that the path stands for has the text. -/
  content : ∀ name, store.Reaches path name → after.content? name = some text.toUTF8
  /-- The text is read through the path. -/
  reads : ∀ name, store.Reaches path name → after.read path = .ok text
  /-- All other files are as before. -/
  others : ∀ name, ¬ store.Reaches path name → after.content? name = store.content? name
  /-- All paths stand for the files that they stood for. -/
  reaches : ∀ other name, after.Reaches other name ↔ store.Reaches other name

/-- Stores with the same directories have the same paths. -/
theorem SameDirectories.target_iff (h : store.SameDirectories after) {path : String}
    {place : Place} : after.target path = .ok place ↔ store.target path = .ok place := by
  rw [target_eq_ok_iff, target_eq_ok_iff, h.walk_iff, ne_eq, h.entry?_iff]

/-- A text is what its bytes encode. -/
theorem fromUTF8?_toUTF8 (text : String) : String.fromUTF8? text.toUTF8 = some text :=
  dif_pos text.isValidUTF8

/-- What is put where a path leads is read through the path. -/
theorem read_put {path : String} {parts : List String}
    (h : store.target path = .ok ⟨.here, parts⟩) (text : String) :
    (store.put (Place.name ⟨.here, parts⟩) text.toUTF8).read path = .ok text := by
  obtain ⟨hplace, hpieces⟩ := filePlace_of_target h
  have hsame := hplace.sameDirectories rfl text.toUTF8
  obtain ⟨hw, hd⟩ := target_eq_ok_iff.1 (hsame.target_iff.2 h)
  rw [ne_eq, entry?_here_iff] at hd
  have hentry : Store.entry? (store.put (Place.name ⟨.here, parts⟩) text.toUTF8) ⟨.here, parts⟩ =
      some (.file text.toUTF8) := by
    unfold entry?
    dsimp only
    rw [if_neg hd, content?_put, if_pos rfl, Option.map_some]
  rw [hpieces] at hw
  simp only [read, hw, hentry, fromUTF8?_toUTF8]

/-- A text that is written is the only change. -/
theorem wrote_of_write {path text : String} (h : store.write path text = .ok after) :
    store.Wrote path text after := by
  obtain ⟨⟨anchor, parts⟩, ht, ⟨ha, rfl⟩ | ⟨ha, he⟩⟩ := write_eq_ok_iff.1 h
  case inl =>
    obtain rfl : anchor = .here := ha
    have hsame := (filePlace_of_target ht).1.sameDirectories rfl text.toUTF8
    have hname : ∀ {name}, store.Reaches path name → name = Place.name ⟨.here, parts⟩ := by
      rintro name ⟨others, ho, rfl⟩
      exact congrArg Place.name (Except.ok.inj (ho.symm.trans ht))
    constructor
    case content =>
      intro name hr
      rw [content?_put, if_pos (hname hr)]
    case reads => exact fun _ _ => read_put ht text
    case others =>
      intro name hr
      rw [content?_put, if_neg]
      rintro rfl
      exact hr ⟨parts, ht, rfl⟩
    case reaches =>
      exact fun other name => exists_congr fun others => and_congr_left fun _ => hsame.target_iff
  case inr =>
    rw [he]
    have hnone : ∀ name, ¬ store.Reaches path name := by
      rintro name ⟨others, ho, -⟩
      exact ha (congrArg Place.anchor (Except.ok.inj (ht.symm.trans ho)))
    exact ⟨fun name hr => absurd hr (hnone name), fun name hr => absurd hr (hnone name),
      fun _ _ => rfl, fun _ _ => Iff.rfl⟩

end Store

end MiniRisc
