import Mathlib.Data.List.Basic
import Mathlib.Order.Basic
import UmlTyping.Disk.Basic
import UmlTyping.Proofs.Outcome

/-!
# Places of files

Where a path leads, and what the operations on a disk do to other places. The path of a file in a
directory leads one name further than the path of the directory (`locate_join`), as long as no slash
is in the name.

Writing a file changes one place only, and making directories fills none but empty ones. So no
directory is lost and nothing that stands somewhere vanishes (`Grows`). A path that leads somewhere
therefore leads there ever after (`Grows.locate`), however much is written in between.
-/

namespace UmlTyping

namespace Path

/-! ## Segments -/

theorem pieces_of_not_mem {cs : List Char} (h : '/' ∉ cs) : pieces cs = [cs] := by
  induction cs with
  | nil => rfl
  | cons c rest ih =>
    rw [List.mem_cons, not_or] at h
    rw [pieces, if_neg (Ne.symm h.1), ih h.2]

theorem pieces_ne_nil (cs : List Char) : pieces cs ≠ [] := by
  cases cs with
  | nil => exact List.cons_ne_nil _ _
  | cons c rest =>
    rw [pieces]
    split
    · exact List.cons_ne_nil _ _
    · split
      · exact List.cons_ne_nil _ _
      · exact List.cons_ne_nil _ _

theorem pieces_append_slash (cs rest : List Char) :
    pieces (cs ++ '/' :: rest) = pieces cs ++ pieces rest := by
  induction cs with
  | nil => rfl
  | cons c cs ih =>
    rw [List.cons_append, pieces, pieces, ih]
    by_cases hc : c = '/'
    · rw [if_pos hc, if_pos hc, List.cons_append]
    · rw [if_neg hc, if_neg hc]
      cases hcs : pieces cs with
      | nil => exact absurd hcs (pieces_ne_nil cs)
      | cons piece others => rfl

theorem not_mem_of_mem_pieces {cs piece : List Char} (h : piece ∈ pieces cs) : '/' ∉ piece := by
  induction cs generalizing piece with
  | nil =>
    rw [pieces, List.mem_singleton] at h
    rw [h]
    exact List.not_mem_nil
  | cons c rest ih =>
    rw [pieces] at h
    split at h
    · rcases List.mem_cons.1 h with rfl | h
      · exact List.not_mem_nil
      · exact ih h
    next hc =>
      split at h
      · rw [List.mem_singleton] at h
        rw [h, List.mem_singleton]
        exact Ne.symm hc
      next first others hrest =>
        rw [hrest] at ih
        rcases List.mem_cons.1 h with rfl | h
        · rw [List.mem_cons, not_or]
          exact ⟨Ne.symm hc, ih List.mem_cons_self⟩
        · exact ih (List.mem_cons_of_mem _ h)

theorem not_mem_of_mem_segments {text name : String} (h : name ∈ (ofText text).segments) :
    '/' ∉ name.toList := by
  obtain ⟨piece, hpiece, rfl⟩ := List.mem_map.1 h
  rw [String.toList_ofList]
  exact not_mem_of_mem_pieces (List.mem_filter.1 hpiece).1

/-- The path of a file in a directory is that of the directory with one more segment. -/
theorem ofText_join (directory : String) {file : String} (hfile : '/' ∉ file.toList)
    (hne : file ≠ "") : (ofText (join directory file)).isAbsolute = (ofText directory).isAbsolute ∧
      (ofText (join directory file)).segments = (ofText directory).segments ++ [file] := by
  have hpieces : pieces file.toList = [file.toList] := pieces_of_not_mem hfile
  have hlist : file.toList ≠ [] := fun h => hne (String.toList_inj.1 h)
  have hhead : file.toList.head? ≠ some '/' := fun h => hfile (List.mem_of_mem_head? h)
  unfold join
  by_cases hdirectory : directory = ""
  · subst hdirectory
    rw [if_pos (Or.inr rfl)]
    simp [ofText, hpieces, hlist, hhead, pieces]
  · have hdlist : directory.toList ≠ [] := fun h => hdirectory (String.toList_inj.1 h)
    obtain ⟨c, cs, hcs⟩ := List.exists_cons_of_ne_nil hdlist
    rw [if_neg (not_or.2 ⟨hhead, hdirectory⟩)]
    split
    next hslash =>
      -- the piece behind the slash at the end is empty, and the file takes its place
      obtain ⟨before, hbefore⟩ : ∃ before, directory.toList = before ++ ['/'] :=
        ⟨_, (List.dropLast_append_getLast? _ hslash).symm⟩
      constructor
      · simp [ofText, hcs]
      · simp [ofText, hbefore, pieces_append_slash, hpieces, hlist, pieces]
    · constructor
      · simp [ofText, hcs]
      · have hsplit : (directory ++ "/" ++ file).toList
            = directory.toList ++ '/' :: file.toList := by
          simp
        simp only [ofText, hsplit, pieces_append_slash, hpieces, List.filter_append,
          List.map_append]
        simp [hlist]

end Path

namespace Disk

variable {d d' d'' : Disk} {place top q : Place} {path : String} {content : ByteArray}

/-! ## Places -/

theorem isDirectoryAt_iff : d.isDirectoryAt q = true ↔ d.node? q = some .directory := by
  unfold isDirectoryAt
  cases d.node? q with
  | none => simp
  | some node =>
    cases node with
    | directory => simp
    | file content => simp

theorem node?_put_self (d : Disk) {place : Place} (hplace : place ≠ []) (node : Node) :
    (d.put place node).node? place = some node := by
  simp [node?, put, hplace]

theorem node?_put_of_ne (d : Disk) (node : Node) (h : q ≠ place) :
    (d.put place node).node? q = d.node? q := by
  have hlookup : ∀ nodes : List (Place × Node),
      (nodes.filter (·.1 ≠ place)).lookup q = nodes.lookup q := by
    intro nodes
    induction nodes with
    | nil => rfl
    | cons entry rest ih =>
      obtain ⟨p, node⟩ := entry
      by_cases hp : p = place
      · have hqp : q ≠ p := fun hq => h (hq.trans hp)
        rw [List.filter_cons_of_neg (by simpa using hp), ih, List.lookup_cons,
          beq_eq_false_iff_ne.2 hqp]
      · rw [List.filter_cons_of_pos (by simpa using hp), List.lookup_cons, List.lookup_cons, ih]
  unfold node? put
  dsimp only
  rw [List.lookup_cons, beq_eq_false_iff_ne.2 h, hlookup]

theorem step_eq_ok_iff {segment : String} : d.step place segment = .ok q ↔
    d.isDirectoryAt place = true ∧ (segment = "." ∧ q = place ∨
      segment ≠ "." ∧ segment = ".." ∧ q = place.tail ∨
      segment ≠ "." ∧ segment ≠ ".." ∧ segment.utf8ByteSize ≤ longestName ∧
        q = segment :: place) := by
  unfold step
  cases d.isDirectoryAt place with
  | false => simp
  | true =>
    by_cases hdot : segment = "."
    · simp [hdot, eq_comm]
    · by_cases hdots : segment = ".."
      · simp [hdots, eq_comm]
      · by_cases hlong : segment.utf8ByteSize > longestName
        · simp [hdot, hdots, hlong, Nat.not_le.2 hlong]
        · simp [hdot, hdots, hlong, Nat.not_lt.1 hlong, eq_comm]

theorem follow_cons_eq_ok_iff {segment : String} {rest : List String} :
    d.follow place (segment :: rest) = .ok q ↔ ∃ next, d.step place segment = .ok next ∧
      (rest ≠ [] → (d.node? next).isSome = true) ∧ d.follow next rest = .ok q := by
  rw [follow, bind_eq_ok_iff]
  refine exists_congr fun next => and_congr_right fun _ => ?_
  by_cases hmissing : rest ≠ [] ∧ (d.node? next).isNone = true
  · rw [if_pos hmissing]
    constructor
    · intro h
      cases h
    · rintro ⟨hsome, -⟩
      have := hsome hmissing.1
      rw [Option.isNone_iff_eq_none.1 hmissing.2] at this
      cases this
  · rw [if_neg hmissing]
    constructor
    · intro h
      refine ⟨fun hrest => ?_, h⟩
      rw [not_and, Option.isNone_iff_eq_none, ← ne_eq, Option.ne_none_iff_isSome] at hmissing
      exact hmissing hrest
    · rintro ⟨-, h⟩
      exact h

/-- The last of some segments is followed from where the others lead. -/
theorem follow_concat {segments : List String} {file : String}
    (h : d.follow place (segments ++ [file]) = .ok q) :
    ∃ top, d.follow place segments = .ok top ∧ d.step top file = .ok q := by
  induction segments generalizing place with
  | nil =>
    obtain ⟨next, hstep, -, hfollow⟩ := follow_cons_eq_ok_iff.1 h
    cases hfollow
    exact ⟨place, rfl, hstep⟩
  | cons segment rest ih =>
    obtain ⟨next, hstep, hsome, hfollow⟩ := follow_cons_eq_ok_iff.1 h
    obtain ⟨top, htop, hlast⟩ := ih hfollow
    refine ⟨top, follow_cons_eq_ok_iff.2 ⟨next, hstep, fun _ => hsome ?_, htop⟩, hlast⟩
    simp

/-- The names on the way to a place come from where the way starts, or from its segments. -/
theorem mem_of_follow {segments : List String} (h : d.follow place segments = .ok q) {name : String}
    (hname : name ∈ q) : name ∈ place ∨ name ∈ segments := by
  induction segments generalizing place with
  | nil =>
    cases h
    exact Or.inl hname
  | cons segment rest ih =>
    obtain ⟨next, hstep, -, hfollow⟩ := follow_cons_eq_ok_iff.1 h
    rcases ih hfollow with hnext | hrest
    · obtain ⟨-, ⟨-, rfl⟩ | ⟨-, -, rfl⟩ | ⟨-, -, -, rfl⟩⟩ := step_eq_ok_iff.1 hstep
      · exact Or.inl hnext
      · exact Or.inl (List.mem_of_mem_tail hnext)
      · rcases List.mem_cons.1 hnext with rfl | hplace
        · exact Or.inr List.mem_cons_self
        · exact Or.inl hplace
    · exact Or.inr (List.mem_cons_of_mem _ hrest)

theorem mem_of_locate (h : d.locate (.ofText path) = .ok q) {name : String} (hname : name ∈ q) :
    name ∈ d.here ∨ '/' ∉ name.toList := by
  rcases mem_of_follow h hname with hstart | hsegment
  · split at hstart
    · cases hstart
    · exact Or.inl hstart
  · exact Or.inr (Path.not_mem_of_mem_segments hsegment)

/-- The path of a file in a directory leads one name further than that of the directory. -/
theorem locate_join {directory file : String} (hfile : '/' ∉ file.toList) (hne : file ≠ "")
    (hdot : file ≠ ".") (hdots : file ≠ "..")
    (h : d.locate (.ofText (Path.join directory file)) = .ok q) : ∃ top,
      d.locate (.ofText directory) = .ok top ∧ d.isDirectoryAt top = true ∧ q = file :: top := by
  obtain ⟨habsolute, hsegments⟩ := Path.ofText_join directory hfile hne
  unfold locate at h ⊢
  rw [habsolute, hsegments] at h
  obtain ⟨top, htop, hstep⟩ := follow_concat h
  obtain ⟨hdirectory, ⟨heq, -⟩ | ⟨-, heq, -⟩ | ⟨-, -, -, heq⟩⟩ := step_eq_ok_iff.1 hstep
  · exact absurd heq hdot
  · exact absurd heq hdots
  · exact ⟨top, htop, hdirectory, heq⟩

/-! ## What stays -/

/-- No directory is lost, and nothing that stands somewhere vanishes. -/
structure Grows (d d' : Disk) : Prop where
  /-- Relative paths start at the same place. -/
  here_eq : d'.here = d.here
  /-- Directories stay directories. -/
  directories : ∀ q, d.node? q = some .directory → d'.node? q = some .directory
  /-- Places in use stay in use. -/
  nodes : ∀ q, (d.node? q).isSome = true → (d'.node? q).isSome = true

theorem Grows.refl (d : Disk) : d.Grows d := ⟨rfl, fun _ h => h, fun _ h => h⟩

theorem Grows.trans (h : d.Grows d') (h' : d'.Grows d'') : d.Grows d'' where
  here_eq := h'.here_eq.trans h.here_eq
  directories q hq := h'.directories q (h.directories q hq)
  nodes q hq := h'.nodes q (h.nodes q hq)

theorem Grows.isDirectoryAt (h : d.Grows d') (hq : d.isDirectoryAt q = true) :
    d'.isDirectoryAt q = true :=
  isDirectoryAt_iff.2 (h.directories q (isDirectoryAt_iff.1 hq))

theorem Grows.follow (h : d.Grows d') {segments : List String}
    (hq : d.follow place segments = .ok q) : d'.follow place segments = .ok q := by
  induction segments generalizing place with
  | nil => exact hq
  | cons segment rest ih =>
    obtain ⟨next, hstep, hsome, hfollow⟩ := follow_cons_eq_ok_iff.1 hq
    obtain ⟨hdirectory, hnext⟩ := step_eq_ok_iff.1 hstep
    exact follow_cons_eq_ok_iff.2 ⟨next, step_eq_ok_iff.2 ⟨h.isDirectoryAt hdirectory, hnext⟩,
      fun hrest => h.nodes next (hsome hrest), ih hfollow⟩

/-- A path that leads somewhere leads there ever after. -/
theorem Grows.locate (h : d.Grows d') {p : Path} (hq : d.locate p = .ok q) :
    d'.locate p = .ok q := by
  unfold Disk.locate at hq ⊢
  rw [h.here_eq]
  exact h.follow hq

/-- Nothing changes but that directories are made where nothing stood. -/
structure AddsDirectories (d d' : Disk) : Prop where
  /-- Relative paths start at the same place. -/
  here_eq : d'.here = d.here
  /-- A place is as it was, unless it was empty and is a directory now. -/
  node?_eq : ∀ q, d'.node? q = d.node? q ∨ d.node? q = none ∧ d'.node? q = some .directory

theorem AddsDirectories.refl (d : Disk) : d.AddsDirectories d := ⟨rfl, fun _ => Or.inl rfl⟩

theorem AddsDirectories.trans (h : d.AddsDirectories d') (h' : d'.AddsDirectories d'') :
    d.AddsDirectories d'' where
  here_eq := h'.here_eq.trans h.here_eq
  node?_eq q := by
    rcases h'.node?_eq q with heq | ⟨hnone, hmade⟩
    · rw [heq]
      exact h.node?_eq q
    · rcases h.node?_eq q with heq | ⟨-, hmade'⟩
      · exact Or.inr ⟨heq.symm.trans hnone, hmade⟩
      · cases hnone.symm.trans hmade'

theorem AddsDirectories.grows (h : d.AddsDirectories d') : d.Grows d' where
  here_eq := h.here_eq
  directories q hq := by
    rcases h.node?_eq q with heq | ⟨-, hmade⟩
    · rw [heq]
      exact hq
    · exact hmade
  nodes q hq := by
    rcases h.node?_eq q with heq | ⟨-, hmade⟩
    · rw [heq]
      exact hq
    · rw [hmade]
      rfl

/-! ## Writing a file -/

theorem grows_put (h : d.isDirectoryAt place = false) (hne : place ≠ []) :
    d.Grows (d.put place (.file content)) where
  here_eq := rfl
  directories q hq := by
    have hother : q ≠ place := by
      rintro rfl
      exact Bool.false_ne_true (h.symm.trans (isDirectoryAt_iff.2 hq))
    rw [node?_put_of_ne d _ hother]
    exact hq
  nodes q hq := by
    by_cases heq : q = place
    · rw [heq, node?_put_self d hne]
      rfl
    · rw [node?_put_of_ne d _ heq]
      exact hq

/-- To write a file puts it where its path leads, and changes nothing elsewhere. -/
theorem write_eq_ok (h : d.write path content = .ok d') : ∃ place,
    d.locate (.ofText path) = .ok place ∧ d.Grows d' ∧
      d'.node? place = some (.file content) ∧ ∀ q, q ≠ place → d'.node? q = d.node? q := by
  unfold write at h
  obtain ⟨p, hp, h⟩ := bind_eq_ok_iff.1 h
  obtain ⟨place, hplace, h⟩ := bind_eq_ok_iff.1 h
  have hpath : p = .ofText path := by
    unfold pathOf at hp
    split at hp
    · cases hp
    split at hp
    · cases hp
    split at hp
    · cases hp
    · exact (Except.ok.inj hp).symm
  subst hpath
  split at h
  · cases h
  next hkind =>
    rw [not_or, Bool.not_eq_true, Bool.not_eq_true] at hkind
    cases h
    have hne : place ≠ [] := by
      -- the root is a directory
      rintro rfl
      cases hkind.2.symm.trans (isDirectoryAt_iff.2 rfl)
    exact ⟨place, hplace, grows_put hkind.2 hne, node?_put_self d hne _,
      fun q hq => node?_put_of_ne d _ hq⟩

/-! ## Making directories -/

theorem addsDirectories_of_makeDirectory {p : Path} (h : d.makeDirectory p = .ok d') :
    d.AddsDirectories d' := by
  unfold makeDirectory at h
  obtain ⟨place, -, h⟩ := bind_eq_ok_iff.1 h
  split at h
  · cases h
  next hfree =>
    cases h
    refine ⟨rfl, fun q => ?_⟩
    by_cases hq : q = place
    · subst hq
      have hnone : d.node? q = none := Option.not_isSome_iff_eq_none.1 hfree
      have hne : q ≠ [] := by
        rintro rfl
        cases hnone
      exact Or.inr ⟨hnone, node?_put_self d hne _⟩
    · exact Or.inl (node?_put_of_ne d _ hq)

/-- Directories are added even if not all that were asked for can be made. -/
theorem addsDirectories_makePath (d : Disk) (p : Path) : d.AddsDirectories (d.makePath p).1 := by
  fun_induction makePath d p with
  | case1 p hempty => exact .refl d
  | case2 p hempty d' hmade => exact addsDirectories_of_makeDirectory hmade
  | case3 p hempty hmissing hnone => exact .refl d
  | case4 p hempty hmissing above hparent d' fault habove ih =>
    rw [habove] at ih
    exact ih
  | case5 p hempty hmissing above hparent d' habove d'' hmade ih =>
    rw [habove] at ih
    exact ih.trans (addsDirectories_of_makeDirectory hmade)
  | case6 p hempty hmissing above hparent d' habove fault hfault ih =>
    rw [habove] at ih
    exact ih
  | case7 p hempty fault hfault hne => exact .refl d

theorem makePath_of_makeDirectory {p : Path} (hempty : p.isEmpty = false)
    (h : d.makeDirectory p = .ok d') : d.makePath p = (d', .ok ()) := by
  rw [makePath, if_neg (Bool.eq_false_iff.1 hempty), h]

theorem addsDirectories_makeDirectories (d : Disk) (path : String) :
    d.AddsDirectories (d.makeDirectories path).1 := by
  unfold makeDirectories
  split
  · exact .refl d
  · cases pathOf path with
    | ok p => exact addsDirectories_makePath d p
    | error fault => exact .refl d

end Disk

end UmlTyping
