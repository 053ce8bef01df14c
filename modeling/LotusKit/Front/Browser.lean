import LotusKit.Lib.Scan
import LotusKit.Server.JsonDispatch

/-! Going through the folders of the console from the page. What the page shows as the path of a file is
shortened, and the mod makes it whole again. -/

namespace LotusKit.Front
open LotusKit.Server

/-- The name of a directory entry. -/
structure Name where
  text : List Char
  some_text : text ≠ []
  no_slash : '/' ∉ text
  no_colon : ':' ∉ text
  no_nul : '\x00' ∉ text

inductive Mount where
  | sdcard | content
deriving DecidableEq

def Mount.text : Mount → List Char
  | sdcard => "sdcard:".toList
  | content => "content:".toList

namespace RemoteFileBrowser

def slash : List Char := ['/']

/-- `sdcard:/` where nothing is left, and never above the root. -/
def do_traverse_up (remote_path : Path) : Path :=
  let dest := slash.intercalate (remote_path.splitOn '/').dropLast
  let dest := if dest = [] then "sdcard:/".toList else dest
  if dest.getLast? = some ':' then remote_path.take (remote_path.idxOf '/' + 1) else dest

def do_traverse_down (remote_path : Path) (relpath : List Char) : Path :=
  slash.intercalate ((remote_path.splitOn '/' ++ [relpath]).filter (· ≠ []))

def modFolder : List Char := "totk_lotuskit".toList

/-- `sdcard:/totk_lotuskit` -/
def home : Path := Mount.sdcard.text ++ '/' :: modFolder

/-- The path of a file for the clipboard and for `onPick`. -/
def cpath (remote_path : Path) (name : List Char) : Path :=
  let cpath :=
    if home <+: remote_path then
      let cpath := remote_path.drop home.length
      if cpath.head? = some '/' then cpath.tail else cpath
    else remote_path
  (if 0 < cpath.length ∧ cpath.getLast? ≠ some '/' then cpath ++ slash else cpath) ++ name

end RemoteFileBrowser

inductive Click where
  | root (mount : Mount)
  | up
  | down (folder : Name)

def browse (remote_path : Path) : Click → Path
  | .root mount => mount.text ++ RemoteFileBrowser.slash
  | .up => RemoteFileBrowser.do_traverse_up remote_path
  | .down folder => RemoteFileBrowser.do_traverse_down remote_path folder.text

/-- Where one is: the folders from the root on. -/
structure Place where
  mount : Mount
  folders : List Name

namespace Place

def go (place : Place) : Click → Place
  | .root mount => ⟨mount, []⟩
  | .up => ⟨place.mount, place.folders.dropLast⟩
  | .down folder => ⟨place.mount, place.folders ++ [folder]⟩

def path (place : Place) : Path :=
  place.mount.text ++ '/' :: RemoteFileBrowser.slash.intercalate (place.folders.map Name.text)

theorem text_no_slash (place : Place) : ∀ text ∈ place.folders.map Name.text, '/' ∉ text :=
  List.forall_mem_map.mpr fun folder _ => folder.no_slash

theorem path_splitOn (place : Place) :
    place.path.splitOn '/' =
      place.mount.text :: (RemoteFileBrowser.slash.intercalate (place.folders.map Name.text)).splitOn '/' := by
  have plain : '/' ∉ place.mount.text := by
    cases place.mount with
    | sdcard => decide +kernel
    | content => decide +kernel
  exact List.splitOn_append_cons_self_of_not_mem plain _

/-- At the root there is one empty piece behind the mount point. -/
theorem path_splitOn_root (mount : Mount) : (Place.path ⟨mount, []⟩).splitOn '/' = [mount.text, []] :=
  (path_splitOn ⟨mount, []⟩).trans (congrArg _ (List.splitOn_nil '/'))

theorem path_splitOn_some (place : Place) (below : place.folders ≠ []) :
    place.path.splitOn '/' = place.mount.text :: place.folders.map Name.text := by
  have some_text : place.folders.map Name.text ≠ [] := fun nothing => below (List.map_eq_nil_iff.mp nothing)
  rw [path_splitOn, RemoteFileBrowser.slash, List.splitOn_intercalate '/' place.text_no_slash some_text]

theorem path_eq_intercalate (place : Place) (below : place.folders ≠ []) :
    place.path = RemoteFileBrowser.slash.intercalate (place.mount.text :: place.folders.map Name.text) := by
  have some_text : place.folders.map Name.text ≠ [] := fun nothing => below (List.map_eq_nil_iff.mp nothing)
  rw [List.intercalate_cons_of_ne_nil some_text, path, RemoteFileBrowser.slash, List.append_assoc, List.singleton_append]

theorem mount_ne_nil (mount : Mount) : mount.text ≠ [] := by
  cases mount with
  | sdcard => decide +kernel
  | content => decide +kernel

theorem mount_getLast (mount : Mount) : mount.text.getLast? = some ':' := by
  cases mount with
  | sdcard => decide +kernel
  | content => decide +kernel

theorem intercalate_concat {texts : List (List Char)} (some_text : texts ≠ []) (text : List Char) :
    RemoteFileBrowser.slash.intercalate (texts ++ [text]) = RemoteFileBrowser.slash.intercalate texts ++ '/' :: text := by
  induction texts with
  | nil => exact absurd rfl some_text
  | cons first texts ih =>
    rw [List.cons_append, List.intercalate_cons_of_ne_nil (List.append_ne_nil_of_right_ne_nil _ (List.cons_ne_nil _ _))]
    cases texts with
    | nil =>
      rw [List.nil_append, List.intercalate_singleton, List.intercalate_singleton, List.append_assoc]
      rfl
    | cons second texts =>
      rw [ih (List.cons_ne_nil _ _), List.intercalate_cons_of_ne_nil (List.cons_ne_nil _ _), ← List.append_assoc]

/-- The path of a folder, with a separator behind it unless it is the root, goes before its entries. -/
theorem path_down (place : Place) (folder : Name) :
    (place.go (.down folder)).path =
      (if place.folders = [] then place.path else place.path ++ RemoteFileBrowser.slash) ++ folder.text := by
  obtain ⟨mount, folders⟩ := place
  rw [go, path, path, List.map_append, List.map_singleton]
  dsimp only
  split
  case isTrue root =>
    subst root
    rw [List.map_nil, List.nil_append, List.intercalate_singleton, List.intercalate_nil, List.append_assoc]
    rfl
  case isFalse below =>
    have some_text : folders.map Name.text ≠ [] := fun nothing => below (List.map_eq_nil_iff.mp nothing)
    rw [intercalate_concat some_text, RemoteFileBrowser.slash, List.append_assoc, List.append_assoc, List.cons_append]
    rfl

theorem go_down (place : Place) (folder : Name) :
    RemoteFileBrowser.do_traverse_down place.path folder.text = (place.go (.down folder)).path := by
  have below : (place.go (.down folder)).folders ≠ [] := List.append_ne_nil_of_right_ne_nil _ (List.cons_ne_nil _ _)
  have kept : (place.path.splitOn '/' ++ [folder.text]).filter (· ≠ []) =
      place.mount.text :: (place.folders ++ [folder]).map Name.text := by
    obtain ⟨mount, folders⟩ := place
    have some_mount := mount_ne_nil mount
    have some_folder := folder.some_text
    by_cases root : folders = []
    · subst root
      rw [path_splitOn_root]
      simp [some_mount, some_folder]
    · rw [path_splitOn_some ⟨mount, folders⟩ root, List.map_append, List.map_singleton, List.cons_append]
      apply List.filter_eq_self.mpr
      intro text member
      apply decide_eq_true
      obtain rfl | member := List.mem_cons.mp member
      · exact some_mount
      obtain member | member := List.mem_append.mp member
      · obtain ⟨name, -, rfl⟩ := List.mem_map.mp member
        exact name.some_text
      · rwa [List.mem_singleton.mp member]
  rw [RemoteFileBrowser.do_traverse_down, kept, path_eq_intercalate _ below]
  rfl

/-- Up to the first separator there is only the root. -/
theorem path_root (place : Place) :
    place.path.take (place.path.idxOf '/' + 1) = (Place.path ⟨place.mount, []⟩) := by
  have plain : '/' ∉ place.mount.text := by
    cases place.mount with
    | sdcard => decide +kernel
    | content => decide +kernel
  have first : place.path.idxOf '/' = place.mount.text.length := by
    rw [path, List.idxOf_append_of_notMem plain, List.idxOf_cons_self, Nat.add_zero]
  rw [first, path, path, List.take_length_add_append, List.map_nil, List.intercalate_nil]
  rfl

/-- A path below the root ends as names do. -/
theorem path_getLast (place : Place) (below : place.folders ≠ []) {c : Char} (outside : ∀ name : Name, c ∉ name.text) :
    place.path.getLast? ≠ some c := by
  obtain ⟨mount, folders⟩ := place
  obtain rfl | ⟨folders, folder, rfl⟩ := List.eq_nil_or_concat' folders
  · exact absurd rfl below
  have path := path_down ⟨mount, folders⟩ folder
  rw [go] at path
  dsimp only at path
  rw [path, List.getLast?_append_of_ne_nil _ folder.some_text]
  intro last
  exact outside folder (List.mem_of_getLast? last)

theorem go_up (place : Place) : RemoteFileBrowser.do_traverse_up place.path = (place.go .up).path := by
  -- where only the mount point is left of the pieces
  have to_root : (place.path.splitOn '/').dropLast = [place.mount.text] →
      RemoteFileBrowser.do_traverse_up place.path = Place.path ⟨place.mount, []⟩ := by
    intro one_left
    rw [RemoteFileBrowser.do_traverse_up, one_left, List.intercalate_singleton]
    simp only [if_neg (mount_ne_nil _), if_pos (mount_getLast _), path_root]
  obtain ⟨mount, folders⟩ := place
  obtain rfl | ⟨folders, folder, rfl⟩ := List.eq_nil_or_concat' folders
  · exact to_root (by rw [path_splitOn_root]; rfl)
  have pieces := path_splitOn_some ⟨mount, folders ++ [folder]⟩
    (List.append_ne_nil_of_right_ne_nil _ (List.cons_ne_nil _ _))
  have left : ((Place.path ⟨mount, folders ++ [folder]⟩).splitOn '/').dropLast = mount.text :: folders.map Name.text := by
    rw [pieces, List.map_append, List.map_singleton, ← List.cons_append, List.dropLast_concat]
  have up : Place.go ⟨mount, folders ++ [folder]⟩ .up = ⟨mount, folders⟩ := by
    rw [go, List.dropLast_concat]
  rw [up]
  by_cases root : folders = []
  · subst root
    exact to_root left
  · have dest := path_eq_intercalate ⟨mount, folders⟩ root
    have some_path : Place.path ⟨mount, folders⟩ ≠ [] := List.append_ne_nil_of_right_ne_nil _ (List.cons_ne_nil _ _)
    rw [RemoteFileBrowser.do_traverse_up, left, ← dest]
    simp only [if_neg some_path, if_neg (path_getLast ⟨mount, folders⟩ root Name.no_colon)]

end Place

/-- What the page shows as the path is the path of the place one is at. -/
theorem browse_eq (place : Place) (click : Click) : browse place.path click = (place.go click).path := by
  cases click with
  | root mount => rfl
  | up => exact place.go_up
  | down folder => exact place.go_down folder

namespace Place

/-- What stands behind the root. -/
def rest (place : Place) : List Char := RemoteFileBrowser.slash.intercalate (place.folders.map Name.text)

/-- In a folder next to that of the mod, with a name that goes on where the name of that one ends. -/
def Beside (place : Place) : Prop :=
  place.mount = .sdcard ∧ ∃ folder ∈ place.folders.head?,
    RemoteFileBrowser.modFolder <+: folder.text ∧ folder.text ≠ RemoteFileBrowser.modFolder

theorem rest_no_colon (place : Place) : ':' ∉ place.rest := by
  apply Lib.Scan.not_mem_intercalate (by decide)
  exact List.forall_mem_map.mpr fun folder _ => folder.no_colon

theorem rest_cons (mount : Mount) (folder : Name) (folders : List Name) :
    ∃ back, Place.rest ⟨mount, folder :: folders⟩ = folder.text ++ back ∧ (back = [] ∨ ∃ more, back = '/' :: more ∧ more ≠ []) := by
  cases folders with
  | nil => exact ⟨[], by rw [rest, List.map_singleton, List.intercalate_singleton, List.append_nil], .inl rfl⟩
  | cons next folders =>
    have some_text : (next :: folders).map Name.text ≠ [] := List.cons_ne_nil _ _
    refine ⟨'/' :: RemoteFileBrowser.slash.intercalate ((next :: folders).map Name.text), ?_, .inr ⟨_, rfl, ?_⟩⟩
    · rw [rest, List.map_cons, List.intercalate_cons_of_ne_nil some_text, List.append_assoc]
      rfl
    · obtain ⟨c, text, spelled⟩ := List.exists_cons_of_ne_nil next.some_text
      cases folders with
      | nil =>
        rw [List.map_singleton, List.intercalate_singleton, spelled]
        exact List.cons_ne_nil _ _
      | cons last folders =>
        have some_more : (last :: folders).map Name.text ≠ [] := List.cons_ne_nil _ _
        rw [List.map_cons, List.intercalate_cons_of_ne_nil some_more, spelled]
        exact List.cons_ne_nil _ _

/-- Where a path begins with the home folder, the first folder does. -/
theorem home_prefix (place : Place) (inside : RemoteFileBrowser.home <+: place.path) :
    ∃ folder folders more, place = ⟨.sdcard, folder :: folders⟩ ∧ folder.text = RemoteFileBrowser.modFolder ++ more := by
  obtain ⟨mount, folders⟩ := place
  cases mount with
  | content =>
    obtain ⟨back, same⟩ := inside
    have first := congrArg List.head? same
    have home_s : (RemoteFileBrowser.home ++ back).head? = some 's' := by rfl
    have content_c : (Place.path ⟨.content, folders⟩).head? = some 'c' := by rfl
    rw [home_s, content_c] at first
    exact absurd first (by decide)
  | sdcard =>
    have both : Mount.sdcard.text ++ '/' :: RemoteFileBrowser.modFolder <+:
        Mount.sdcard.text ++ '/' :: Place.rest ⟨.sdcard, folders⟩ := inside
    rw [List.prefix_append_right_inj, List.cons_prefix_cons] at both
    have within := both.2
    cases folders with
    | nil =>
      exact absurd (List.prefix_nil.mp within) (by decide +kernel)
    | cons folder folders =>
      obtain ⟨back, spelled, separated⟩ := rest_cons .sdcard folder folders
      rw [spelled] at within
      have short : RemoteFileBrowser.modFolder.length ≤ folder.text.length := by
        obtain rfl | ⟨more, rfl, -⟩ := separated
        · have bound := within.length_le
          rwa [List.append_nil] at bound
        · -- or else the separator would stand within the name of the home folder
          by_contra long
          have separated : folder.text ++ ['/'] <+: folder.text ++ '/' :: more :=
            (List.prefix_append_right_inj _).mpr ⟨more, rfl⟩
          have bound : (folder.text ++ ['/']).length ≤ RemoteFileBrowser.modFolder.length := by
            rw [List.length_append, List.length_singleton]
            omega
          have member : '/' ∈ folder.text ++ ['/'] := List.mem_append_right _ List.mem_cons_self
          have also := (List.prefix_of_prefix_length_le separated within bound).subset member
          exact absurd also (by decide +kernel)
      obtain ⟨more, text⟩ := List.prefix_of_prefix_length_le within (List.prefix_append _ _) short
      exact ⟨folder, folders, more, rfl, text.symm⟩

end Place

theorem canonicalize_relative {text : List Char} (no_mount : ':' ∉ text) :
    canonicalize text = RemoteFileBrowser.home ++ '/' :: text := by
  have nowhere : ':' ∉ c_str text := fun member => no_mount ((List.takeWhile_sublist _).subset member)
  have prefixed : "sdcard:/totk_lotuskit/".toList = RemoteFileBrowser.home ++ ['/'] := by decide +kernel
  rw [canonicalize, if_neg nowhere, prefixed, List.append_assoc, List.singleton_append]

theorem canonicalize_path (place : Place) : canonicalize place.path = place.path := by
  apply if_pos
  have no_nul : ∀ c ∈ place.mount.text, decide (c ≠ '\x00') = true := by
    apply List.all_eq_true.mp
    cases place.mount with
    | sdcard => decide +kernel
    | content => decide +kernel
  have colon : ':' ∈ place.mount.text := List.mem_of_getLast? (Place.mount_getLast _)
  rw [c_str, Place.path, List.takeWhile_append_of_pos no_nul]
  exact List.mem_append_left _ colon

/-- A separator comes behind what is shown of a folder. -/
theorem cpath_inside {shown name : List Char} {left : List Char}
    (stripped : (if left.head? = some '/' then left.tail else left) = shown) (some_shown : shown ≠ [])
    (last : shown.getLast? ≠ some '/') :
    RemoteFileBrowser.cpath (RemoteFileBrowser.home ++ left) name = shown ++ '/' :: name := by
  rw [RemoteFileBrowser.cpath, if_pos (List.prefix_append _ _), List.drop_left]
  dsimp only
  rw [stripped, if_pos ⟨List.length_pos_of_ne_nil some_shown, last⟩, RemoteFileBrowser.slash, List.append_assoc,
    List.singleton_append]

/-- The last character of a list is that of what stands behind in it. -/
theorem getLast_ne {front back : List Char} {c : Char} (last : (front ++ back).getLast? ≠ some c) (some_back : back ≠ []) :
    back.getLast? ≠ some c := by
  rwa [List.getLast?_append_of_ne_nil _ some_back] at last

theorem picks_at (place : Place) (name : Name) :
    canonicalize (RemoteFileBrowser.cpath place.path name.text) = (place.go (.down name)).path ↔ ¬place.Beside := by
  by_cases inside : RemoteFileBrowser.home <+: place.path
  · obtain ⟨folder, folders, more, rfl, text⟩ := Place.home_prefix place inside
    obtain ⟨back, spelled, separated⟩ := Place.rest_cons .sdcard folder folders
    have below : (Place.mk .sdcard (folder :: folders)).folders ≠ [] := List.cons_ne_nil _ _
    have path : Place.path ⟨.sdcard, folder :: folders⟩ = RemoteFileBrowser.home ++ (more ++ back) := by
      change Mount.sdcard.text ++ '/' :: Place.rest ⟨.sdcard, folder :: folders⟩ = _
      rw [spelled, text, RemoteFileBrowser.home, List.append_assoc, List.append_assoc]
      rfl
    have no_colon : ':' ∉ more ++ back := by
      intro member
      apply (Place.mk .sdcard (folder :: folders)).rest_no_colon
      rw [spelled, text, List.append_assoc]
      exact List.mem_append_right _ member
    have last := Place.path_getLast ⟨.sdcard, folder :: folders⟩ below Name.no_slash
    have down := Place.path_down ⟨.sdcard, folder :: folders⟩ name
    rw [if_neg below, path, RemoteFileBrowser.slash, List.append_assoc, List.singleton_append] at down
    rw [path] at last
    rw [down, path]
    cases more with
    | nil =>
      have own : ¬Place.Beside ⟨.sdcard, folder :: folders⟩ := by
        rintro ⟨-, first, ⟨⟩, -, differs⟩
        rw [List.append_nil] at text
        exact differs text
      refine iff_of_true ?_ own
      rw [List.nil_append]
      obtain rfl | ⟨behind, rfl, some_behind⟩ := separated
      · have nothing : RemoteFileBrowser.cpath (RemoteFileBrowser.home ++ []) name.text = name.text := by
          rw [List.append_nil]
          rfl
        rw [nothing, canonicalize_relative name.no_colon, List.append_nil]
      · have whole : ((RemoteFileBrowser.home ++ ['/']) ++ behind).getLast? ≠ some '/' := by rwa [List.append_assoc]
        have ends := getLast_ne whole some_behind
        have stripped : (if ('/' :: behind).head? = some '/' then ('/' :: behind).tail else '/' :: behind) = behind :=
          if_pos rfl
        have relative : ':' ∉ behind ++ '/' :: name.text := by
          intro member
          obtain earlier | later := List.mem_append.mp member
          · exact no_colon (List.mem_cons_of_mem _ earlier)
          · exact name.no_colon (List.mem_of_ne_of_mem (by decide) later)
        rw [cpath_inside stripped some_behind ends, canonicalize_relative relative]
        rfl
    | cons c more =>
      have differs : c ≠ '/' := by
        rintro rfl
        apply folder.no_slash
        rw [text]
        exact List.mem_append_right _ List.mem_cons_self
      have beside : Place.Beside ⟨.sdcard, folder :: folders⟩ := by
        refine ⟨rfl, folder, rfl, ⟨c :: more, text.symm⟩, ?_⟩
        intro same
        have longer := congrArg List.length (same.symm.trans text)
        rw [List.length_append, List.length_cons] at longer
        omega
      have stripped : (if ((c :: more) ++ back).head? = some '/' then ((c :: more) ++ back).tail else (c :: more) ++ back) =
          (c :: more) ++ back := if_neg fun same => differs (Option.some.inj same)
      have relative : ':' ∉ ((c :: more) ++ back) ++ '/' :: name.text := by
        intro member
        obtain earlier | later := List.mem_append.mp member
        · exact no_colon earlier
        · exact name.no_colon (List.mem_of_ne_of_mem (by decide) later)
      refine iff_of_false ?_ (not_not.mpr beside)
      rw [cpath_inside stripped (List.cons_ne_nil _ _) (getLast_ne last (List.cons_ne_nil _ _)),
        canonicalize_relative relative]
      intro same
      have longer := congrArg List.length same
      simp only [List.length_append, List.length_cons] at longer
      omega
  · have elsewhere : ¬place.Beside := by
      rintro ⟨mount, folder, first, ⟨more, text⟩, -⟩
      obtain ⟨_, folders⟩ := place
      subst mount
      obtain ⟨folders, rfl⟩ := List.head?_eq_some_iff.mp first
      obtain ⟨back, spelled, -⟩ := Place.rest_cons .sdcard folder folders
      apply inside
      refine ⟨more ++ back, ?_⟩
      change Mount.sdcard.text ++ '/' :: RemoteFileBrowser.modFolder ++ (more ++ back) =
        Mount.sdcard.text ++ '/' :: Place.rest ⟨.sdcard, folder :: folders⟩
      rw [spelled, ← text, List.append_assoc, List.append_assoc]
      rfl
    refine iff_of_true ?_ elsewhere
    have whole : RemoteFileBrowser.cpath place.path name.text = (place.go (.down name)).path := by
      rw [RemoteFileBrowser.cpath, if_neg inside, place.path_down]
      congr 1
      by_cases root : place.folders = []
      · obtain ⟨mount, folders⟩ := place
        subst root
        have ends : (Place.path ⟨mount, []⟩).getLast? = some '/' := List.getLast?_append_of_ne_nil _ (List.cons_ne_nil _ _)
        rw [if_neg fun long => long.2 ends, if_pos rfl]
      · have some_path : 0 < place.path.length :=
          List.length_pos_of_ne_nil (List.append_ne_nil_of_right_ne_nil _ (List.cons_ne_nil _ _))
        rw [if_pos ⟨some_path, place.path_getLast root Name.no_slash⟩, if_neg root]
    rw [whole, canonicalize_path]

/-- Where the browser is when it opens. -/
def Place.home : Place :=
  ⟨.sdcard, [⟨RemoteFileBrowser.modFolder, by decide +kernel, by decide +kernel, by decide +kernel, by decide +kernel⟩]⟩

/-- However one has come to a folder: the path that is picked in it is that of the file that was meant,
but for folders next to the home folder whose names begin with its name. -/
theorem picks_iff (clicks : List Click) (name : Name) :
    canonicalize (RemoteFileBrowser.cpath (clicks.foldl browse RemoteFileBrowser.home) name.text) =
        ((clicks.foldl Place.go Place.home).go (.down name)).path ↔
      ¬(clicks.foldl Place.go Place.home).Beside := by
  have shown : ∀ place : Place, clicks.foldl browse place.path = (clicks.foldl Place.go place).path := by
    induction clicks with
    | nil => exact fun place => rfl
    | cons click clicks ih =>
      intro place
      rw [List.foldl_cons, List.foldl_cons, browse_eq]
      exact ih (place.go click)
  have start : RemoteFileBrowser.home = Place.home.path := by
    rw [Place.home, Place.path, List.map_singleton, List.intercalate_singleton, RemoteFileBrowser.home]
  rw [start, shown]
  exact picks_at _ name

end LotusKit.Front
