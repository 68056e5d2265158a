import UmlTyping.Proofs.Naming
import UmlTyping.Proofs.Placing

/-!
# What is written

Modules are written to paths that are made of a directory and the names of packages. Where these
paths lead is not looked at. If no name has a slash in it or is that of the empty file, every module
gets a file of its own in the directory, and every other place is as it was but for new directories
(`Stages.writtenTo`). On a disk without slashes in its names that is so for no other names
(`Stages.hasFileNames`): a module named like the empty file takes its place, and one with a slash in
its name goes to another directory. Whatever the names are, nothing changes but what stands where
the paths lead (`Stages.frame`).
-/

namespace UmlTyping

/-- No name on a disk has a slash in it. -/
structure Disk.SlashFree (d : Disk) : Prop where
  /-- Nor has one on the way to where relative paths start. -/
  here : ∀ name ∈ d.here, '/' ∉ name.toList
  /-- Only places without slashes are in use. -/
  nodes : ∀ q, (d.node? q).isSome = true → ∀ name ∈ q, '/' ∉ name.toList

namespace Modules

open Disk (Place)

variable {ms : Modules} {directory : String} {d d' : Disk} {top : Place}

/-- The paths that modules are written to, and that of the empty file. -/
def paths (ms : Modules) (directory : String) : List String :=
  Path.join directory packageInit :: ms.keys.map (filePath directory)

/-- The place of a module in a directory. -/
def placeOf (top : Place) (package : String) : Place := (package ++ ".py") :: top

/-- Every module can have a file in the directory, beside the empty one. -/
def HasFileNames (ms : Modules) : Prop :=
  ∀ package ∈ ms.keys, '/' ∉ package.toList ∧ package ≠ "__init__"

/-- A directory holds the empty file and a file for each module, and nothing else has changed, but
that directories may have been made. -/
structure WrittenTo (ms : Modules) (top : Place) (d d' : Disk) : Prop where
  /-- The empty file. -/
  init : d'.node? (packageInit :: top) = some (.file "".toUTF8)
  /-- The files of the modules. -/
  modules : ∀ package content, ms.get? package = some content →
    d'.node? (placeOf top package) = some (.file content.toUTF8)
  /-- Everything else. -/
  others : ∀ q, q ≠ packageInit :: top → (∀ package ∈ ms.keys, q ≠ placeOf top package) →
    d'.node? q = d.node? q ∨ d.node? q = none ∧ d'.node? q = some .directory

/-! ## Where modules go -/

theorem placeOf_inj {package package' : String} :
    placeOf top package = placeOf top package' ↔ package = package' := by
  unfold placeOf
  rw [List.cons.injEq, and_iff_left rfl, ← String.toList_inj, String.toList_append,
    String.toList_append, List.append_left_inj, String.toList_inj]

theorem locate_filePath {package : String} (hname : '/' ∉ package.toList) {q : Place}
    (h : d.locate (.ofText (filePath directory package)) = .ok q) : ∃ top,
      d.locate (.ofText directory) = .ok top ∧ d.isDirectoryAt top = true ∧
        q = placeOf top package := by
  have hslash : '/' ∉ (package ++ ".py").toList := by
    simpa using hname
  have hlast : (package ++ ".py").toList.getLast? = some 'y' := by
    simp
  have hne : ∀ file : String, file.toList.getLast? ≠ some 'y' → package ++ ".py" ≠ file := by
    rintro file hfile rfl
    exact hfile hlast
  exact Disk.locate_join hslash (hne "" (by decide)) (hne "." (by decide)) (hne ".." (by decide)) h

theorem locate_packageInit {q : Place}
    (h : d.locate (.ofText (Path.join directory packageInit)) = .ok q) : ∃ top,
      d.locate (.ofText directory) = .ok top ∧ d.isDirectoryAt top = true ∧
        q = packageInit :: top :=
  Disk.locate_join (by decide) (by decide) (by decide) (by decide) h

/-! ## Files in turn -/

section

-- a single write is known by its specification, and costs much to unfold
attribute [local irreducible] Disk.write

variable {es : List (String × String)}

theorem writeFiles_cons_eq (directory : String) (d : Disk) (e : String × String) :
    writeFiles directory d (e :: es) =
      match d.write (filePath directory e.1) e.2.toUTF8 with
      | .error fault => (d, throw fault)
      | .ok d =>
        ((writeFiles directory d es).1, do
          Run.report (.generatedModule (filePath directory e.1))
          (writeFiles directory d es).2) := by
  rfl

theorem writeFiles_cons {e : String × String}
    (h : (writeFiles directory d (e :: es)).2.result = .ok ()) : ∃ d₁,
      d.write (filePath directory e.1) e.2.toUTF8 = .ok d₁ ∧
      (writeFiles directory d (e :: es)).1 = (writeFiles directory d₁ es).1 ∧
      (writeFiles directory d₁ es).2.result = .ok () := by
  rw [writeFiles_cons_eq] at h ⊢
  cases hwrite : d.write (filePath directory e.1) e.2.toUTF8 with
  | error fault =>
    rw [hwrite] at h
    cases h
  | ok d₁ =>
    rw [hwrite] at h
    dsimp only at h
    rw [Run.result_report_bind] at h
    exact ⟨d₁, rfl, rfl, h⟩

/-- Files that are written in turn change nothing but what stands where their paths lead. -/
theorem writeFiles_frame (h : (writeFiles directory d es).2.result = .ok ()) :
    d.Grows (writeFiles directory d es).1 ∧
      ∀ q, (∀ e ∈ es, (writeFiles directory d es).1.locate
        (.ofText (filePath directory e.1)) ≠ .ok q) →
          (writeFiles directory d es).1.node? q = d.node? q := by
  induction es generalizing d with
  | nil => exact ⟨.refl d, fun _ _ => rfl⟩
  | cons e rest ih =>
    obtain ⟨d₁, hwrite, heq, hrest⟩ := writeFiles_cons h
    obtain ⟨place, hplace, hfirst, -, hothers⟩ := Disk.write_eq_ok hwrite
    obtain ⟨hgrows, hframe⟩ := ih hrest
    rw [heq]
    refine ⟨hfirst.trans hgrows, fun q hq => ?_⟩
    -- the path of the first file still leads where it led when that was written
    have hne : q ≠ place := by
      rintro rfl
      exact hq e List.mem_cons_self ((hfirst.trans hgrows).locate hplace)
    rw [hframe q fun e' he' => hq e' (List.mem_cons_of_mem _ he'), hothers q hne]

/-- A module whose name has no slash in it is in its file after all modules are written. -/
theorem writeFiles_file (h : (writeFiles directory d es).2.result = .ok ())
    (htop : d.locate (.ofText directory) = .ok top) (hnames : ∀ e ∈ es, '/' ∉ e.1.toList)
    (hkeys : es.Pairwise fun a b => a.1 < b.1) {e : String × String} (he : e ∈ es) :
    (writeFiles directory d es).1.node? (placeOf top e.1) = some (.file e.2.toUTF8) := by
  induction es generalizing d with
  | nil => exact absurd he List.not_mem_nil
  | cons first rest ih =>
    obtain ⟨d₁, hwrite, heq, hrest⟩ := writeFiles_cons h
    obtain ⟨place, hplace, hgrows, hcontent, -⟩ := Disk.write_eq_ok hwrite
    obtain ⟨hfirst, hlater⟩ := List.pairwise_cons.1 hkeys
    have htop₁ := hgrows.locate htop
    rw [heq]
    rcases List.mem_cons.1 he with rfl | he
    · obtain ⟨top', htop', -, rfl⟩ := locate_filePath (hnames e List.mem_cons_self) hplace
      cases htop.symm.trans htop'
      obtain ⟨hgrows', hframe⟩ := writeFiles_frame hrest
      rw [hframe _ ?_, hcontent]
      intro e' he' hlocate
      obtain ⟨top', htop', -, hsame⟩ :=
        locate_filePath (hnames e' (List.mem_cons_of_mem _ he')) hlocate
      cases (hgrows'.locate htop₁).symm.trans htop'
      have hless := hfirst e' he'
      rw [← placeOf_inj.1 hsame] at hless
      exact String.lt_irrefl _ hless
    · exact ih hrest htop₁ (fun e' he' => hnames e' (List.mem_cons_of_mem _ he')) hlater he

end

/-! ## A directory of modules -/

/-- How a writing that succeeds comes about: directories are made, then the empty file is put into
the last of them, then the modules follow in turn. -/
structure Stages (ms : Modules) (directory : String) (top : Place) (d d₁ d₂ : Disk) : Prop where
  made : d.AddsDirectories d₁
  located : d₁.locate (.ofText directory) = .ok top
  isDirectory : d₁.isDirectoryAt top = true
  initLocated : d₁.locate (.ofText (Path.join directory packageInit)) = .ok (packageInit :: top)
  grows : d₁.Grows d₂
  init : d₂.node? (packageInit :: top) = some (.file "".toUTF8)
  others : ∀ q, q ≠ packageInit :: top → d₂.node? q = d₁.node? q
  written : (ms.write directory d).1 = (writeFiles directory d₂ ms.entries).1
  succeeds : (writeFiles directory d₂ ms.entries).2.result = .ok ()

theorem exists_stages (h : (ms.write directory d).2.result = .ok ()) :
    ∃ top d₁ d₂, Stages ms directory top d d₁ d₂ := by
  have hmade := Disk.addsDirectories_makeDirectories d directory
  have hwritten : ∃ d₁ d₂, d.AddsDirectories d₁ ∧
      d₁.write (Path.join directory packageInit) "".toUTF8 = .ok d₂ ∧
      (ms.write directory d).1 = (writeFiles directory d₂ ms.entries).1 ∧
      (writeFiles directory d₂ ms.entries).2.result = .ok () := by
    unfold write at h ⊢
    cases hmake : d.makeDirectories directory with
    | mk d₁ made =>
      rw [hmake] at h hmade
      cases made with
      | error fault => cases h
      | ok _ =>
        dsimp only at h ⊢
        cases hinit : d₁.write (Path.join directory packageInit) "".toUTF8 with
        | error fault =>
          rw [hinit] at h
          cases h
        | ok d₂ =>
          rw [hinit] at h
          exact ⟨d₁, d₂, hmade, hinit, rfl, h⟩
  obtain ⟨d₁, d₂, hmade, hinit, heq, hfiles⟩ := hwritten
  obtain ⟨place, hplace, hgrows, hempty, hothers⟩ := Disk.write_eq_ok hinit
  obtain ⟨top, htop, hdirectory, rfl⟩ := locate_packageInit hplace
  exact ⟨top, d₁, d₂, hmade, htop, hdirectory, hplace, hgrows, hempty, hothers, heq, hfiles⟩

section

variable {d₁ d₂ : Disk} (h : Stages ms directory top d d₁ d₂)

include h

theorem Stages.grows_write : d₂.Grows (ms.write directory d).1 := by
  rw [h.written]
  exact (writeFiles_frame h.succeeds).1

theorem Stages.locate_directory :
    (ms.write directory d).1.locate (.ofText directory) = .ok top :=
  (h.grows.trans h.grows_write).locate h.located

theorem Stages.locate_init : (ms.write directory d).1.locate
    (.ofText (Path.join directory packageInit)) = .ok (packageInit :: top) :=
  (h.grows.trans h.grows_write).locate h.initLocated

/-- What no path of a module leads to is as it was when the empty file was there. -/
theorem Stages.node?_eq {q : Place} (hq : ∀ package ∈ ms.keys,
    (ms.write directory d).1.locate (.ofText (filePath directory package)) ≠ .ok q) :
    (ms.write directory d).1.node? q = d₂.node? q := by
  rw [h.written] at hq ⊢
  exact (writeFiles_frame h.succeeds).2 q fun e he => hq e.1 (List.mem_map_of_mem he)

/-- Nothing changes but what stands where the paths of the modules lead, except that directories are
made. -/
theorem Stages.frame {q : Place} (hq : ∀ path ∈ ms.paths directory,
    (ms.write directory d).1.locate (.ofText path) ≠ .ok q) :
    (ms.write directory d).1.node? q = d.node? q ∨
      d.node? q = none ∧ (ms.write directory d).1.node? q = some .directory := by
  have hne : q ≠ packageInit :: top := by
    rintro rfl
    exact hq _ List.mem_cons_self h.locate_init
  have hmodules : ∀ package ∈ ms.keys,
      (ms.write directory d).1.locate (.ofText (filePath directory package)) ≠ .ok q :=
    fun package hpackage => hq _ (List.mem_cons_of_mem _ (List.mem_map_of_mem hpackage))
  rw [h.node?_eq hmodules, h.others q hne]
  exact h.made.node?_eq q

/-- Every module is in its file if no name has a slash in it, even where the empty file was. -/
theorem Stages.file (hslashes : ∀ package ∈ ms.keys, '/' ∉ package.toList)
    {package content : String} (hcontent : ms.get? package = some content) :
    (ms.write directory d).1.node? (placeOf top package) = some (.file content.toUTF8) := by
  have hnames : ∀ e ∈ ms.entries, '/' ∉ e.1.toList :=
    fun e he => hslashes e.1 (List.mem_map_of_mem he)
  rw [h.written]
  exact writeFiles_file h.succeeds (h.grows.locate h.located) hnames ms.ascending
    (Table.get?_eq_some_iff.1 hcontent)

/-- Modules that can all have files in the directory have them. -/
theorem Stages.writtenTo (hnames : ms.HasFileNames) :
    ms.WrittenTo top d (ms.write directory d).1 := by
  -- the path of a module leads to its place
  have hlocate : ∀ package ∈ ms.keys, ∀ q,
      (ms.write directory d).1.locate (.ofText (filePath directory package)) = .ok q →
        q = placeOf top package := by
    intro package hpackage q hq
    obtain ⟨top', htop', -, rfl⟩ := locate_filePath (hnames package hpackage).1 hq
    cases h.locate_directory.symm.trans htop'
    rfl
  refine ⟨?_, fun package content => h.file fun p hp => (hnames p hp).1, ?_⟩
  · rw [h.node?_eq, h.init]
    intro package hpackage hq
    have hplace : placeOf top "__init__" = placeOf top package := hlocate package hpackage _ hq
    exact (hnames package hpackage).2 (placeOf_inj.1 hplace).symm
  · intro q hne hothers
    refine h.frame fun path hpath hq => ?_
    rcases List.mem_cons.1 hpath with rfl | hpath
    · exact hne (Except.ok.inj (hq.symm.trans h.locate_init))
    · obtain ⟨package, hpackage, rfl⟩ := List.mem_map.1 hpath
      exact hothers package hpackage (hlocate package hpackage q hq)

/-- On a disk without slashes in its names, none but those have files in the directory. -/
theorem Stages.hasFileNames (hwritten : ms.WrittenTo top d (ms.write directory d).1)
    (hd : d.SlashFree)
    (hcontent : ∀ package content, ms.get? package = some content → content ≠ "") :
    ms.HasFileNames := by
  intro package hpackage
  obtain ⟨content, hget⟩ := Table.mem_keys_iff.1 hpackage
  have hfile := hwritten.modules package content hget
  constructor
  · intro hslash
    have hname : package ++ ".py" ∈ placeOf top package := List.mem_cons_self
    have hin : '/' ∈ (package ++ ".py").toList := by
      simp [hslash]
    have hhere : (ms.write directory d).1.here = d.here :=
      (h.grows.trans h.grows_write).here_eq.trans h.made.here_eq
    -- so no path leads to the place of the module
    have hunled : ∀ path ∈ ms.paths directory,
        (ms.write directory d).1.locate (.ofText path) ≠ .ok (placeOf top package) := by
      intro path _ hlocate
      rcases Disk.mem_of_locate hlocate hname with hstart | hfree
      · rw [hhere] at hstart
        exact hd.here _ hstart hin
      · exact hfree hin
    rcases h.frame hunled with heq | ⟨-, hmade⟩
    · rw [hfile] at heq
      exact hd.nodes _ (heq ▸ rfl) _ hname hin
    · cases hfile.symm.trans hmade
  · rintro rfl
    have hsame := hfile.symm.trans hwritten.init
    rw [Option.some.injEq, Disk.Node.file.injEq] at hsame
    exact hcontent _ _ hget (String.toByteArray_inj.1 hsame)

end

theorem layout_ne_empty (imports codes : List String) : layout imports codes ≠ "" := by
  intro h
  unfold layout at h
  simp only [String.append_eq_empty_iff] at h
  exact absurd h.1.1.1 (by decide)

end Modules

namespace Model

variable {m : Model} {roots : List Identifier} {ms : Modules} {directory : String} {d : Disk}

/-- If generated modules are written without a fault, the directory is there, and nothing has
changed but what stands where the paths of the modules lead. As long as no module has a slash in its
name, nor the name of the empty file, those are the files of the modules and the empty file, each
with its content. On a disk without slashes in its names that is so for no other modules. -/
theorem write_generated (hm : m.IsLoaded) (hms : (m.generate roots).result = .ok ms)
    (h : (ms.write directory d).2.result = .ok ()) : ∃ top,
      (ms.write directory d).1.locate (.ofText directory) = .ok top ∧
      (ms.write directory d).1.isDirectoryAt top = true ∧
      (∀ q, (∀ path ∈ ms.paths directory,
        (ms.write directory d).1.locate (.ofText path) ≠ .ok q) →
          (ms.write directory d).1.node? q = d.node? q ∨
            d.node? q = none ∧ (ms.write directory d).1.node? q = some .directory) ∧
      (ms.HasFileNames → ms.WrittenTo top d (ms.write directory d).1) ∧
      (d.SlashFree → ms.WrittenTo top d (ms.write directory d).1 → ms.HasFileNames) := by
  obtain ⟨ds, -, -, hcomposed⟩ := composedOf_of_generate hm.coherent hms
  obtain ⟨top, d₁, d₂, hstages⟩ := Modules.exists_stages h
  have hdirectory := (hstages.grows.trans hstages.grows_write).isDirectoryAt hstages.isDirectory
  refine ⟨top, hstages.locate_directory, hdirectory, fun q => hstages.frame, hstages.writtenTo,
    fun hd hwritten => hstages.hasFileNames hwritten hd ?_⟩
  intro package content hcontent
  obtain ⟨qs, rfl, -, -⟩ := hcomposed.isModule package content hcontent
  exact Modules.layout_ne_empty _ _

/-- Two packages with an entry each. One of them has the name of the empty file. -/
def shadowDocument : String :=
  "<XMI><Model>
    <packagedElement type='uml:Package' name='common'>
      <packagedElement type='uml:PrimitiveType' id='ID_common.Text' name='Text'/>
    </packagedElement>
    <packagedElement type='uml:Package' name='__init__'>
      <packagedElement type='uml:PrimitiveType' id='ID___init__.Text' name='Text'/>
    </packagedElement>
  </Model></XMI>"

/-- The model that the document holds. -/
def shadows : Model where
  packages := Table.ofList
    [("common", ⟨"common", Table.ofList
      [("ID_common.Text", ⟨"ID_common.Text", "uml:PrimitiveType", "Text", [], [], none⟩)]⟩),
     ("__init__", ⟨"__init__", Table.ofList
      [("ID___init__.Text", ⟨"ID___init__.Text", "uml:PrimitiveType", "Text", [], [], none⟩)]⟩)]

set_option maxRecDepth 100000 in
theorem load_shadowDocument : (load shadowDocument.toUTF8).result = .ok shadows := by
  unfold shadowDocument
  apply load_ofList
  decide +kernel

/-- The source text of a module with nothing but the entry. -/
def shadowText : String := "from typing import Literal, TypedDict, Union\n\n\nText = str\n\n"

/-- The only module of a package. -/
def shadowModules (package : String) : Modules := Table.ofList [(package, shadowText)]

/-- A definition that makes the module by itself. -/
def shadow (id package : String) : Definition where
  id := id
  package := package
  name := "Text"
  kind := .primitive
  code := "Text = str"

theorem shadows_generate {id package : String}
    (hdefine : shadows.define id = .ok (shadow id package))
    (hcompose : (Modules.compose [(shadow id package).piece]).result =
      .ok (shadowModules package)) :
    (shadows.generate [id]).result = .ok (shadowModules package) := by
  have hwalk : Walk shadows [] {} [id] (.ok _) := .emit (by simp) (by simp) hdefine .done .done
  exact Run.result_bind_eq_ok_iff.2 ⟨_, hwalk.resolve_eq_ok, hcompose⟩

/-- On a disk that holds nothing, the directory can be made. -/
theorem makeDirectories_out : (Disk.empty []).makeDirectories "out" =
    ((Disk.empty []).put ["out"] .directory, .ok ()) := by
  have hmade : (Disk.empty []).makeDirectory (.ofText "out") =
      .ok ((Disk.empty []).put ["out"] .directory) := by
    rfl
  have hpath : Disk.pathOf "out" = .ok (.ofText "out") := eq_ok_of_toOption (by decide +kernel)
  unfold Disk.makeDirectories
  rw [if_neg (by decide), hpath]
  exact Disk.makePath_of_makeDirectory (by decide +kernel) hmade

theorem write_shadowModules : ∀ package ∈ ["common", "__init__"],
    ((shadowModules package).write "out" (Disk.empty [])).2.result = .ok () := by
  unfold Modules.write
  rw [makeDirectories_out]
  intro package hpackage
  refine eq_ok_of_toOption ?_
  revert package
  decide +kernel

theorem shadows_generate_common :
    (shadows.generate ["ID_common.Text"]).result = .ok (shadowModules "common") :=
  shadows_generate (eq_ok_of_toOption (by decide +kernel)) (eq_ok_of_toOption (by decide +kernel))

theorem shadows_generate_init :
    (shadows.generate ["ID___init__.Text"]).result = .ok (shadowModules "__init__") :=
  shadows_generate (eq_ok_of_toOption (by decide +kernel)) (eq_ok_of_toOption (by decide +kernel))

theorem shadows_write_common : ∃ top, (shadows.generate ["ID_common.Text"]).result =
      .ok (shadowModules "common") ∧
    ((shadowModules "common").write "out" (Disk.empty [])).2.result = .ok () ∧
    (shadowModules "common").WrittenTo top (Disk.empty [])
      ((shadowModules "common").write "out" (Disk.empty [])).1 := by
  have hok := write_shadowModules "common" (by simp)
  obtain ⟨top, -, -, -, hwritten, -⟩ :=
    write_generated ⟨_, load_shadowDocument⟩ shadows_generate_common hok
  have hnames : (shadowModules "common").HasFileNames := by
    unfold Modules.HasFileNames
    decide +kernel
  exact ⟨top, shadows_generate_common, hok, hwritten hnames⟩

/-- A module takes the place of the file that ought to be empty. -/
theorem shadows_not_writtenTo : ∃ m ms top content,
    (load shadowDocument.toUTF8).result = .ok m ∧
    (m.generate ["ID___init__.Text"]).result = .ok ms ∧
    (ms.write "out" (Disk.empty [])).2.result = .ok () ∧
    (ms.write "out" (Disk.empty [])).1.locate (.ofText "out") = .ok top ∧
    (ms.write "out" (Disk.empty [])).1.node? ("__init__.py" :: top) = some (.file content) ∧
    content = shadowText.toUTF8 ∧ content ≠ "".toUTF8 ∧
    ¬ ms.WrittenTo top (Disk.empty []) (ms.write "out" (Disk.empty [])).1 := by
  have hok := write_shadowModules "__init__" (by simp)
  obtain ⟨top, d₁, d₂, hstages⟩ := Modules.exists_stages hok
  have hcontent : (shadowModules "__init__").get? "__init__" = some shadowText := rfl
  have hslashes : ∀ package ∈ (shadowModules "__init__").keys, '/' ∉ package.toList := by
    decide +kernel
  have hfile := hstages.file hslashes hcontent
  have hne : shadowText.toUTF8 ≠ "".toUTF8 :=
    fun h => absurd (String.toByteArray_inj.1 h) (by decide)
  refine ⟨shadows, shadowModules "__init__", top, _, load_shadowDocument, shadows_generate_init,
    hok, hstages.locate_directory, hfile, rfl, hne, fun hwritten => ?_⟩
  have hsame := hfile.symm.trans hwritten.init
  rw [Option.some.injEq, Disk.Node.file.injEq] at hsame
  exact hne hsame

end Model

end UmlTyping
