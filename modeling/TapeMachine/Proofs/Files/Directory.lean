import Mathlib.Data.String.Basic
import TapeMachine.Files.Loader

/-!
# Loading a directory

A directory gives one result for each rule file in it, and a failure for each entry that cannot be
read: programs in the order of their paths, and failures after them. In which order the file system
lists a directory shows in the order of the failures only (`Program.results_of_reordered`). Whatever
is sorted by `Program.loadedLe` splits into its programs and its failures
(`Program.eq_successes_append_failures`).

## Main definitions

- `Lookup.Reordered`: one file system, read twice, with its directories listed in any order
- `Program.IsRuleFile`: the names in a directory that belong to rule files
- `Program.loadEntry`: what one of them is loaded as

## Main result

- `Program.directory_order_is_irrelevant`: loading a directory loses nothing, and has one order
-/

namespace TapeMachine

/-- `ext` is the extension of a file name: what stands after its last dot, unless the name
begins with that dot. -/
def HasExtension (name ext : String) : Prop :=
  ∃ stem : List Char, stem ≠ [] ∧ '.' ∉ ext.toList ∧ name.toList = stem ++ '.' :: ext.toList

/-- The same file, or the same directory with its entries in any order. -/
inductive Found.Reordered : Found → Found → Prop where
  | file (content : ByteArray) : Reordered (.file content) (.file content)
  | directory (size : Nat) {entries entries' : List DirectoryEntry} : entries.Perm entries' →
      Reordered (.directory size entries) (.directory size entries')

/-- One file system, read twice: only the order of the entries of a directory may differ. -/
def Lookup.Reordered (look look' : Lookup) : Prop :=
  ∀ path, (∃ fault, look path = .error fault ∧ look' path = .error fault) ∨
    ∃ found found', look path = .ok found ∧ look' path = .ok found' ∧ found.Reordered found'

namespace Program

variable {look look' : Lookup} {s : Settings} {directory : String} {entries : List DirectoryEntry}

/-- The entry `name` of a directory is a rule file. -/
def IsRuleFile (look : Lookup) (directory name : String) : Prop :=
  HasExtension name "tm" ∧
    ∀ size entries, look (entryPath directory name) ≠ .ok (.directory size entries)

/-- What the rule file `name` of a directory is loaded as, with its path. -/
def loadEntry (look : Lookup) (s : Settings) (directory name : String) : Loaded :=
  (load look s (entryPath directory name)).map (entryPath directory name, ·)

/-- What was found, among results: the programs that were loaded, or the names that were read. -/
def successes {ε α : Type} (results : List (Except ε α)) : List α :=
  results.filterMap fun
    | .ok value => some value
    | .error _ => none

/-- What went wrong, among results. -/
def failures {ε α : Type} (results : List (Except ε α)) : List ε :=
  results.filterMap fun
    | .ok _ => none
    | .error e => some e

/-! ## The entries that are loaded -/

theorem isFileName_iff {name : String} : isFileName name = true ↔ HasExtension name "tm" := by
  have hsuffix : name.endsWith fileSuffix = true ↔ fileSuffix.toList <:+ name.toList := by
    rw [String.endsWith_eq_endsWith_toSlice, String.Slice.endsWith_string_iff, String.copy_toSlice]
  have hdot : '.' ∉ "tm".toList := by decide
  rw [isFileName, Bool.and_eq_true, hsuffix, bne_iff_ne, Ne, ← String.toList_inj]
  constructor
  · rintro ⟨⟨stem, hstem⟩, hne⟩
    refine ⟨stem, ?_, hdot, hstem.symm⟩
    rintro rfl
    exact hne hstem.symm
  · rintro ⟨stem, hne, _, hname⟩
    refine ⟨⟨stem, hname.symm⟩, ?_⟩
    rw [hname]
    intro hall
    exact hne (List.append_left_eq_self.1 hall)

theorem isDirectory_eq_false_iff {path : String} :
    isDirectory look path = false ↔ ∀ size entries, look path ≠ .ok (.directory size entries) := by
  rw [isDirectory]
  cases hpath : look path with
  | error fault => simp
  | ok found => cases found <;> simp [Found.isDirectory]

theorem isRuleFile_iff {name : String} : IsRuleFile look directory name ↔
    (isFileName name && !isDirectory look (entryPath directory name)) = true := by
  rw [IsRuleFile, Bool.and_eq_true, isFileName_iff, Bool.not_eq_true', isDirectory_eq_false_iff]

instance : DecidablePred (IsRuleFile look directory) :=
  fun _ => decidable_of_iff _ isRuleFile_iff.symm

theorem loadListed?_name (look : Lookup) (s : Settings) (directory name : String) :
    loadListed? look s directory (.ok name) =
      if IsRuleFile look directory name then some (loadEntry look s directory name) else none :=
  if_congr isRuleFile_iff.symm rfl rfl

/-- Every readable name of a rule file gives one result, and so does every entry that cannot be
read. -/
theorem loadEntries_perm (look : Lookup) (s : Settings) (directory : String)
    (entries : List DirectoryEntry) :
    (loadEntries look s directory entries).Perm
      (((successes entries).filter (IsRuleFile look directory ·)).map
          (loadEntry look s directory) ++
        (failures entries).map (.error <| .file <| .unreadableEntry ·)) := by
  induction entries with
  | nil => exact .refl _
  | cons entry rest ih =>
    cases entry with
    | error cause => exact (ih.cons _).trans List.perm_middle.symm
    | ok name =>
      rw [loadEntries, List.filterMap_cons, loadListed?_name]
      by_cases hfile : IsRuleFile look directory name
      · have hkept : (successes (.ok name :: rest)).filter (IsRuleFile look directory ·) =
            name :: (successes rest).filter (IsRuleFile look directory ·) :=
          List.filter_cons_of_pos (decide_eq_true hfile)
        rw [if_pos hfile, hkept]
        exact ih.cons _
      · have hkept : (successes (.ok name :: rest)).filter (IsRuleFile look directory ·) =
            (successes rest).filter (IsRuleFile look directory ·) :=
          List.filter_cons_of_neg (by rwa [decide_eq_true_iff])
        rw [if_neg hfile, hkept]
        exact ih

/-! ## Paths -/

theorem entryPath_eq (directory : String) :
    ∃ stem : String, ∀ name, entryPath directory name = stem ++ name := by
  by_cases hslash : directory.endsWith "/" = true
  · exact ⟨directory, fun name => if_pos hslash⟩
  · exact ⟨directory ++ "/", fun name => if_neg hslash⟩

theorem append_lt_append_iff {stem a b : String} : stem ++ a < stem ++ b ↔ a < b := by
  simp only [String.lt_iff_toList_lt, String.toList_append]
  induction stem.toList with
  | nil => exact Iff.rfl
  | cons c stem ih => rw [List.cons_append, List.cons_append, List.cons_lt_cons_iff]; simp [ih]

/-- The entries of one directory have the order of their names. -/
theorem entryPath_lt_iff {name name' : String} :
    entryPath directory name < entryPath directory name' ↔ name < name' := by
  obtain ⟨stem, hstem⟩ := entryPath_eq directory
  rw [hstem, hstem, append_lt_append_iff]

theorem entryPath_injective (directory : String) : Function.Injective (entryPath directory) := by
  intro name name' heq
  have hlt : ¬ name < name' := fun h => (entryPath_lt_iff.2 h).ne heq
  have hgt : ¬ name' < name := fun h => (entryPath_lt_iff.2 h).ne' heq
  exact le_antisymm (not_lt.1 hgt) (not_lt.1 hlt)

/-! ## The order of results -/

theorem loadedLe_total (a b : Loaded) : (loadedLe a b || loadedLe b a) = true := by
  cases a with
  | error e => cases b <;> rfl
  | ok p =>
    cases b with
    | error e => rfl
    | ok q => simpa [loadedLe] using le_total p.1 q.1

theorem loadedLe_trans (a b c : Loaded) (hab : loadedLe a b = true) (hbc : loadedLe b c = true) :
    loadedLe a c = true := by
  cases a with
  | error e =>
    cases b with
    | ok q => cases hab
    | error e' =>
      cases c with
      | ok r => cases hbc
      | error e'' => rfl
  | ok p =>
    cases c with
    | error e => rfl
    | ok r =>
      cases b with
      | error e => cases hbc
      | ok q =>
        simp only [loadedLe, decide_eq_true_eq] at hab hbc ⊢
        exact le_trans hab hbc

theorem mem_successes {ε α : Type} {results : List (Except ε α)} {value : α} :
    value ∈ successes results ↔ Except.ok value ∈ results := by
  rw [successes, List.mem_filterMap]
  constructor
  · rintro ⟨result, hmem, hresult⟩
    cases result with
    | ok v => rwa [← Option.some.inj hresult]
    | error e => cases hresult
  · intro hmem
    exact ⟨_, hmem, rfl⟩

theorem successes_map_error {ε α β : Type} (fault : β → ε) (causes : List β) :
    successes (causes.map fun cause => (.error (fault cause) : Except ε α)) = [] := by
  rw [successes, List.filterMap_map, List.filterMap_eq_nil_iff]
  intro _ _
  rfl

theorem eq_successes_append_failures {results : List Loaded}
    (hsorted : results.Pairwise (loadedLe · ·)) :
    results = (successes results).map .ok ++ (failures results).map .error := by
  induction results with
  | nil => rfl
  | cons first rest ih =>
    obtain ⟨hfirst, hrest⟩ := List.pairwise_cons.1 hsorted
    cases first with
    | ok program => exact congrArg (Except.ok program :: ·) (ih hrest)
    | error e =>
      -- Nothing but failures can follow a failure.
      have hnone : successes rest = [] := by
        rw [List.eq_nil_iff_forall_not_mem]
        intro program hprogram
        cases hfirst _ (mem_successes.1 hprogram)
      have hrest := ih hrest
      rw [hnone] at hrest
      show Except.error e :: rest =
        (successes rest).map .ok ++ Except.error e :: (failures rest).map .error
      rw [hnone]
      exact congrArg (Except.error e :: ·) hrest

theorem pairwise_le_successes {results : List Loaded} (hsorted : results.Pairwise (loadedLe · ·)) :
    (successes results).Pairwise (·.1 ≤ ·.1) := by
  rw [successes, List.pairwise_filterMap]
  refine hsorted.imp ?_
  intro a b hle p hp q hq
  cases a with
  | error e => cases hp
  | ok a =>
    cases b with
    | error e => cases hq
    | ok b =>
      cases hp
      cases hq
      exact of_decide_eq_true hle

/-! ## The results of a directory -/

theorem loadEntry_eq_ok_iff {name : String} {program : String × Program} :
    loadEntry look s directory name = .ok program ↔
      program.1 = entryPath directory name ∧ load look s program.1 = .ok program.2 := by
  rw [loadEntry]
  obtain ⟨path, p⟩ := program
  constructor
  · intro h
    cases hload : load look s (entryPath directory name) with
    | error e => rw [hload] at h; cases h
    | ok q =>
      rw [hload] at h
      cases h
      exact ⟨rfl, hload⟩
  · rintro ⟨hpath, hload⟩
    simp only at hpath hload
    rw [← hpath, hload]
    rfl

/-- Different entries have different paths. -/
theorem nodup_paths {kept : List String} (hkept : kept.Nodup) :
    ((successes (kept.map (loadEntry look s directory))).map Prod.fst).Nodup := by
  induction kept with
  | nil => exact List.nodup_nil
  | cons name kept ih =>
    obtain ⟨hname, hkept⟩ := List.nodup_cons.1 hkept
    rw [List.map_cons]
    cases hload : loadEntry look s directory name with
    | error e => exact ih hkept
    | ok program =>
      refine List.nodup_cons.2 ⟨?_, ih hkept⟩
      intro hmem
      obtain ⟨program', hprogram', hpath⟩ := List.mem_map.1 hmem
      obtain ⟨name', hname', hload'⟩ := List.mem_map.1 (mem_successes.1 hprogram')
      rw [(loadEntry_eq_ok_iff.1 hload).1, (loadEntry_eq_ok_iff.1 hload').1] at hpath
      rw [← entryPath_injective directory hpath] at hname
      exact hname hname'

section Listed

variable {size : Nat} (hlisted : look directory = .ok (.directory size entries))
include hlisted

theorem loadDirectory_eq : loadDirectory look s directory =
    (loadEntries look s directory entries).mergeSort loadedLe := by
  rw [loadDirectory, hlisted]

theorem loadDirectory_perm :
    (loadDirectory look s directory).Perm (loadEntries look s directory entries) := by
  rw [loadDirectory_eq hlisted]
  exact List.mergeSort_perm _ _

theorem pairwise_loadDirectory : (loadDirectory look s directory).Pairwise (loadedLe · ·) := by
  rw [loadDirectory_eq hlisted]
  exact List.pairwise_mergeSort loadedLe_trans loadedLe_total _

/-- Only what the names are loaded as can be a program. -/
theorem successes_perm : (successes (loadDirectory look s directory)).Perm
    (successes (((successes entries).filter (IsRuleFile look directory ·)).map
      (loadEntry look s directory))) := by
  have hperm :=
    (loadDirectory_perm (s := s) hlisted).trans (loadEntries_perm look s directory entries)
  refine (hperm.filterMap _).trans (.of_eq ?_)
  rw [List.filterMap_append]
  exact (congrArg (_ ++ ·) (successes_map_error _ _)).trans (List.append_nil _)

theorem pairwise_lt_successes (hnames : (successes entries).Nodup) :
    (successes (loadDirectory look s directory)).Pairwise (·.1 < ·.1) := by
  have hle := pairwise_le_successes (pairwise_loadDirectory (s := s) hlisted)
  have hpaths : ((successes (loadDirectory look s directory)).map Prod.fst).Nodup :=
    ((successes_perm hlisted).map Prod.fst).nodup_iff.2 (nodup_paths (hnames.filter _))
  have hne : (successes (loadDirectory look s directory)).Pairwise (·.1 ≠ ·.1) :=
    List.pairwise_map.1 hpaths
  exact (hle.and hne).imp fun h => lt_of_le_of_ne h.1 h.2

end Listed

/-! ## Two listings -/

theorem load_of_reordered (hsame : look.Reordered look') (path : String) :
    load look' s path = load look s path := by
  have hget : look.get path = (look path).mapError (.unreadable path) := rfl
  have hget' : look'.get path = (look' path).mapError (.unreadable path) := rfl
  rw [load, load, hget, hget']
  obtain ⟨fault, hpath, hpath'⟩ | ⟨found, found', hpath, hpath', hfound⟩ := hsame path
  · rw [hpath, hpath']
  · rw [hpath, hpath']
    cases hfound with
    | file content => rfl
    | directory size hentries => rfl

theorem isRuleFile_of_reordered (hsame : look.Reordered look') (name : String) :
    IsRuleFile look' directory name ↔ IsRuleFile look directory name := by
  rw [IsRuleFile, IsRuleFile, ← isDirectory_eq_false_iff, ← isDirectory_eq_false_iff, isDirectory,
    isDirectory]
  obtain ⟨fault, hpath, hpath'⟩ | ⟨found, found', hpath, hpath', hfound⟩ :=
    hsame (entryPath directory name)
  · rw [hpath, hpath']
  · rw [hpath, hpath']
    cases hfound with
    | file content => rfl
    | directory size hentries => rfl

theorem loadListed?_of_reordered (hsame : look.Reordered look') (entry : DirectoryEntry) :
    loadListed? look' s directory entry = loadListed? look s directory entry := by
  cases entry with
  | error cause => rfl
  | ok name =>
    rw [loadListed?_name, loadListed?_name, loadEntry, loadEntry, load_of_reordered hsame]
    simp only [isRuleFile_of_reordered hsame]

/-- The results are the same up to their order, and a sorted list of programs with different paths
is told by its members. -/
theorem results_of_reordered {size : Nat}
    (hlisted : look directory = .ok (.directory size entries)) (hnames : (successes entries).Nodup)
    (hsame : look.Reordered look') :
    successes (loadDirectory look' s directory) = successes (loadDirectory look s directory) ∧
      (failures (loadDirectory look' s directory)).Perm
        (failures (loadDirectory look s directory)) := by
  obtain ⟨fault, hpath, _⟩ | ⟨found, found', hpath, hlisted', hfound⟩ := hsame directory
  · rw [hlisted] at hpath
    cases hpath
  rw [hlisted] at hpath
  cases hpath
  cases hfound with
  | @directory size entries entries' hperm =>
    have hentries : loadEntries look' s directory entries' =
        loadEntries look s directory entries' :=
      congrArg (entries'.filterMap ·) (funext (loadListed?_of_reordered hsame))
    have hresults :
        (loadDirectory look' s directory).Perm (loadDirectory look s directory) := by
      refine (loadDirectory_perm hlisted').trans ?_
      rw [hentries]
      exact (hperm.symm.filterMap _).trans (loadDirectory_perm hlisted).symm
    refine ⟨?_, hresults.filterMap _⟩
    refine List.Perm.eq_of_pairwise ?_
      (pairwise_lt_successes hlisted' ((hperm.filterMap _).nodup_iff.1 hnames))
      (pairwise_lt_successes hlisted hnames) (hresults.filterMap _)
    intro p q _ _ hpq hqp
    exact absurd hpq hqp.asymm

/-- A directory is loaded completely and in one order. Of every entry that is a rule file there is
one result, of every entry that cannot be read there is a failure, and of the others there is
nothing. The programs come first, with strictly ascending paths, each as it is loaded from its file,
and the failures after them. However the file system lists its directories, the programs are the
same, in the same order, and so are the failures up to their order. What results are sorted by is a
total preorder, which on the entries of one directory is the order of their names. -/
theorem directory_order_is_irrelevant (look look' : Lookup) (s : Settings) (directory : String)
    (size : Nat) (entries : List DirectoryEntry)
    (hlisted : look directory = .ok (.directory size entries)) (hnames : (successes entries).Nodup)
    (hsame : look.Reordered look') :
    (loadDirectory look s directory).Perm
      (((successes entries).filter (IsRuleFile look directory ·)).map
          (loadEntry look s directory) ++
        (failures entries).map (.error <| .file <| .unreadableEntry ·)) ∧
    loadDirectory look s directory = (successes (loadDirectory look s directory)).map .ok ++
      (failures (loadDirectory look s directory)).map .error ∧
    (successes (loadDirectory look s directory)).Pairwise (·.1 < ·.1) ∧
    (∀ program ∈ successes (loadDirectory look s directory),
      load look s program.1 = .ok program.2 ∧
      ∃ name ∈ successes entries, IsRuleFile look directory name ∧
        program.1 = entryPath directory name) ∧
    successes (loadDirectory look' s directory) = successes (loadDirectory look s directory) ∧
    (failures (loadDirectory look' s directory)).Perm
      (failures (loadDirectory look s directory)) ∧
    (∀ a b, loadedLe a b = true ∨ loadedLe b a = true) ∧
    (∀ a b c, loadedLe a b = true → loadedLe b c = true → loadedLe a c = true) ∧
    ∀ name name', entryPath directory name < entryPath directory name' ↔ name < name' := by
  obtain ⟨hprograms, hfailures⟩ := results_of_reordered (s := s) hlisted hnames hsame
  refine ⟨(loadDirectory_perm hlisted).trans (loadEntries_perm look s directory entries),
    eq_successes_append_failures (pairwise_loadDirectory hlisted),
    pairwise_lt_successes hlisted hnames, ?_, hprograms, hfailures,
    fun a b => Bool.or_eq_true_iff.1 (loadedLe_total a b), loadedLe_trans,
    fun _ _ => entryPath_lt_iff⟩
  intro program hprogram
  have hloaded := mem_successes.1 ((successes_perm hlisted).mem_iff.1 hprogram)
  obtain ⟨name, hname, hload⟩ := List.mem_map.1 hloaded
  obtain ⟨hmem, hfile⟩ := List.mem_filter.1 hname
  obtain ⟨hpath, hprogram⟩ := loadEntry_eq_ok_iff.1 hload
  exact ⟨hprogram, name, hmem, of_decide_eq_true hfile, hpath⟩

/-- A directory with the given entries. What is called `c.tm` in it is no rule text, and `n.tm` is a
directory. -/
def listing (entries : List DirectoryEntry) : Lookup := fun path =>
  if path = "d" then .ok (.directory 0 entries)
  else if path = "d/n.tm" then .ok (.directory 0 [])
  else if path = "d/c.tm" then .ok (.file "INIT a".toUTF8)
  else .ok (.file "INIT a HALT b R".toUTF8)

theorem listing_reordered {entries' : List DirectoryEntry} (h : entries.Perm entries') :
    (listing entries).Reordered (listing entries') := by
  intro path
  right
  by_cases hd : path = "d"
  · exact ⟨.directory 0 entries, .directory 0 entries', by simp [listing, hd],
      by simp [listing, hd], .directory 0 h⟩
  · have hsame : listing entries path = listing entries' path := by simp [listing, hd]
    obtain ⟨found, hfound⟩ : ∃ found, listing entries' path = .ok found := by
      simp only [listing, if_neg hd]
      split
      · exact ⟨_, rfl⟩
      · split <;> exact ⟨_, rfl⟩
    refine ⟨found, found, hsame.trans hfound, hfound, ?_⟩
    cases found with
    | file content => exact .file content
    | directory size entries => exact .directory size (.refl entries)

/-- Five entries, one of which is a directory and one of which cannot be read, listed in two
orders. -/
theorem directory_order_is_irrelevant_reversed :
    let entries : List DirectoryEntry :=
      [.ok "c.tm", .ok "b.tm", .error (.system "Input/output error (os error 5)"),
        .ok "n.tm", .ok "a.tm"]
    (loadDirectory (listing entries) {} "d").length = 4 ∧
      successes (loadDirectory (listing entries.reverse) {} "d") =
        successes (loadDirectory (listing entries) {} "d") := by
  intro entries
  obtain ⟨hperm, _, _, _, hprograms, _⟩ := directory_order_is_irrelevant (listing entries)
    (listing entries.reverse) {} "d" 0 entries rfl (by decide)
    (listing_reordered (List.reverse_perm entries).symm)
  refine ⟨?_, hprograms⟩
  rw [hperm.length_eq, List.length_append, List.length_map, List.length_map]
  decide +kernel

end Program

end TapeMachine
