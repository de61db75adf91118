import StableOrdinals.Block.Notation
import StableOrdinals.CommandLine.Procedure
import StableOrdinals.Proofs.Files.Making
import StableOrdinals.Proofs.Store.Success

/-!
# Below the home directory

A home directory that was empty comes to hold a directory of the program, and in it the default
configuration and the directory of the store (`IsHome`). As long as nobody else writes there, and
the default configuration is read as it was written (`ReadsDefault`), the configuration is the
default one whether or not its file is there (`IsHome.load_config`). The operations of the store and
the writing of the configuration keep it that way.

A home directory with so long a path that the configuration cannot be looked for holds no objects,
because their paths are longer still.
-/

namespace StableOrdinals

open StableOrdinals.Path

theorem Config.isLeaf_configDirectory : IsLeaf ".slotctl" := ⟨by decide, by decide⟩

theorem Config.isLeaf_configPath : IsLeaf "config.yaml" := ⟨by decide, by decide⟩

theorem Config.isLeaf_storeDirectory : IsLeaf "objects" := ⟨by decide, by decide⟩

/-- The format reads the two entries of the default configuration as the texts that they are. -/
def Document.Format.ReadsDefault (format : Format) : Prop :=
  ∃ document key directory, format.read Config.defaultText = .ok document ∧
    document.find? "annotation_key" = .ok (some key) ∧ key.text? = some Reservations.defaultKey ∧
    document.find? "store_dir" = .ok (some directory) ∧ directory.text? = some []

theorem Block.readsDefault (complaint : Text) : (Block.format complaint).ReadsDefault := by
  have hread : Block.read? Config.defaultText =
      some [⟨0, "annotation_key", .scalar "delete-slots"⟩, ⟨0, "store_dir", .scalar []⟩] := by
    decide +kernel
  exact ⟨_, _, _, Block.read_of_read? complaint hread, rfl, rfl, rfl, rfl⟩

namespace Config

variable {environment : Environment} {files : Files}

theorem isPresentAt_of_status {path : Path} {found : Option Entry}
    (h : files.status path = .ok found) : isPresentAt files path = .ok found.isSome := by
  rw [isPresentAt, Files.existsAt, h]
  rfl

theorem load_of_status_none (h : files.status environment.configPath = .ok none) :
    load environment files = .ok (default environment) := by
  have hpresent : isPresent environment files = .ok false := isPresentAt_of_status h
  simp only [load, hpresent, bind, Except.bind, Bool.false_eq_true, if_false]

theorem load_of_status_some {entry : Entry}
    (h : files.status environment.configPath = .ok (some entry)) :
    load environment files =
      match entry.content? with
      | none => .error (.unreadable (environment.format.unopened environment.configPath))
      | some content => ofContent environment environment.configPath content := by
  have hpresent : isPresentAt files environment.configPath = .ok true := isPresentAt_of_status h
  have hread : files.read? environment.configPath = entry.content? := by
    rw [Files.read?, Files.entryAt_of_status h]
    rfl
  rw [load, isPresent, hpresent]
  change loadFile environment files environment.configPath = _
  rw [loadFile, hpresent, hread]
  rfl

theorem ofContent_defaultText (h : environment.format.ReadsDefault) :
    ofContent environment environment.configPath defaultText = .ok (default environment) := by
  obtain ⟨document, key, directory, hread, hkey, hkeyText, hdirectory, hdirectoryText⟩ := h
  have htextKey : textOf (some key) = Reservations.defaultKey := by
    rw [textOf, Option.bind_some, hkeyText]
    rfl
  have htextDirectory : textOf (some directory) = [] := by
    rw [textOf, Option.bind_some, hdirectoryText]
    rfl
  have hne : Reservations.defaultKey ≠ [] := by decide
  simp only [ofContent, hread, ofDocument, hkey, hdirectory, Except.mapError, bind, Except.bind,
    htextKey, htextDirectory, hne, and_false, if_false, Option.isSome_some, if_true]
  rfl

theorem load_of_status_error {cause : SystemError}
    (h : files.status environment.configPath = .error cause) :
    load environment files = .error (.unreachable environment.configPath cause) := by
  have hpresent : isPresent environment files =
      .error (.unreachable environment.configPath cause) := by
    rw [isPresent, isPresentAt, Files.existsAt, h]
    rfl
  simp only [load, hpresent, bind, Except.bind]

end Config

theorem Files.at?_of_names {files : Files} {place : Location} (h : files.names place = [])
    (leaf : Text) : files.at? (leaf :: place) = none := by
  by_contra hne
  have hmem := mem_names_iff.2 hne
  rw [h] at hmem
  cases hmem

namespace Environment

open Config

variable (environment : Environment)

/-- The store in use unless another one is configured. -/
def defaultStore : Store := environment.store (Config.default environment)

abbrev programPlace (home : Location) : Location := ".slotctl" :: home

abbrev configPlace (home : Location) : Location := "config.yaml" :: programPlace home

abbrev storePlace (home : Location) : Location := "objects" :: programPlace home

theorem storePlace_ne_configPlace (home : Location) : storePlace home ≠ configPlace home :=
  fun h => absurd (List.cons.inj h).1 (by decide)

structure IsHome (files : Files) (home : Location) : Prop where
  directory : files.IsDirectory environment.homeDirectory home
  program : files.at? (programPlace home) = none ∨
    files.at? (programPlace home) = some .directory
  config : files.at? (configPlace home) = none ∨
    files.at? (configPlace home) = some (.file Config.defaultText)
  store : files.at? (storePlace home) = none ∨ files.at? (storePlace home) = some .directory

variable {environment} {files files' : Files} {home : Location} {leaf : Text}

theorem isHome_of_names (h : files.IsDirectory environment.homeDirectory home)
    (hnames : files.names home = []) : environment.IsHome files home := by
  have hinside (leaf outer : Text) : files.at? (leaf :: outer :: home) = none := by
    by_contra hne
    have hholder := Files.at?_holder hne
    rw [Files.at?_of_names hnames] at hholder
    cases hholder
  exact ⟨h, Or.inl (Files.at?_of_names hnames _), Or.inl (hinside _ _), Or.inl (hinside _ _)⟩

section Paths

theorem isShort_program (hlength : environment.configDirectory.length ≤ Files.longestPath) :
    Files.IsShort environment.homeDirectory ".slotctl" := ⟨hlength, by decide⟩

variable (h : files.IsDirectory environment.homeDirectory home)

include h

theorem plain_configDirectory : IsPlain environment.configDirectory :=
  h.plain.append isLeaf_configDirectory

theorem plain_store : IsPlain environment.defaultStore.directory :=
  (plain_configDirectory h).append isLeaf_storeDirectory

theorem target_store : files.target environment.defaultStore.directory = storePlace home := by
  have hstore := Files.target_append files (plain_configDirectory h) isLeaf_storeDirectory
  rw [configDirectory, Files.target_append files h.plain isLeaf_configDirectory,
    ← Files.eq_target_of_locate h.locate] at hstore
  exact hstore

theorem isDirectory_program (hlength : environment.configDirectory.length ≤ Files.longestPath)
    (hat : files.at? (programPlace home) = some .directory) :
    files.IsDirectory environment.configDirectory (programPlace home) :=
  h.append isLeaf_configDirectory (isShort_program hlength) hat

theorem status_program (hlength : environment.configDirectory.length ≤ Files.longestPath) :
    files.status environment.configDirectory = Entry.status (files.at? (programPlace home)) :=
  h.status_append isLeaf_configDirectory (isShort_program hlength)

theorem status_configPath_of_long (hlength : ¬ environment.configPath.length ≤ Files.longestPath) :
    files.status environment.configPath = .error .nameTooLong :=
  Files.status_of_long ((plain_configDirectory h).append isLeaf_configPath)
    (Nat.lt_of_not_le hlength)

end Paths

theorem length_configDirectory_le (h : files.IsDirectory environment.homeDirectory home)
    (hleaf : IsLeaf leaf)
    (hshort : (environment.configDirectory.append leaf).length ≤ Files.longestPath) :
    environment.configDirectory.length ≤ Files.longestPath :=
  Nat.le_trans (length_append (plain_configDirectory h).ne_nil hleaf) hshort

theorem length_configPath_le (h : files.IsDirectory environment.homeDirectory home) {name : Text}
    (hvalid : Workload.isValidName name = true) : environment.configPath.length ≤
      (environment.defaultStore.directory.append (Store.draftLeaf name)).length := by
  obtain ⟨between, _, hprogram⟩ := append_eq (plain_configDirectory h).ne_nil
  obtain ⟨between', _, hstore⟩ := append_eq (plain_store h).ne_nil
  have hconfig : environment.configPath.length =
      environment.configDirectory.length + between.length + 11 := by
    rw [configPath, hprogram _ isLeaf_configPath, List.length_append, List.length_append]
    rfl
  have hdirectory : environment.defaultStore.directory.length =
      environment.configDirectory.length + between.length + 7 := by
    change (environment.configDirectory.append "objects").length = _
    rw [hprogram _ isLeaf_storeDirectory, List.length_append, List.length_append]
    rfl
  have hdot : (Text.ofString ".").length = 1 := rfl
  have hend : (Text.ofString ".yaml.tmp").length = 9 := rfl
  have hdraft : (Store.draftLeaf name).length = 1 + name.length + 9 := by
    rw [Store.draftLeaf, List.length_append, List.length_append, hdot, hend]
  rw [hstore _ (Store.isLeaf_draftLeaf hvalid), List.length_append, List.length_append]
  omega

theorem IsHome.status_append (h : environment.IsHome files home) (hleaf : IsLeaf leaf)
    (hshort : Files.IsShort environment.configDirectory leaf) :
    files.status (environment.configDirectory.append leaf) =
      Entry.status (files.at? (leaf :: programPlace home)) := by
  have hlength := length_configDirectory_le h.directory hleaf hshort.1
  rcases h.program with hnone | hdirectory
  · have hinside : files.at? (leaf :: programPlace home) = none := by
      by_contra hne
      rw [Files.at?_holder hne] at hnone
      cases hnone
    rw [hinside]
    apply Files.status_append_of_status (plain_configDirectory h.directory) hleaf hshort.1
    rw [status_program h.directory hlength, hnone]
    rfl
  · exact (isDirectory_program h.directory hlength hdirectory).status_append hleaf hshort

/-- The configuration is the default one, unless its path is too long to be looked at. -/
theorem IsHome.load_config (h : environment.IsHome files home)
    (hdefault : environment.format.ReadsDefault) :
    if environment.configPath.length ≤ Files.longestPath then
      Config.load environment files = .ok (Config.default environment)
    else Config.load environment files =
      .error (.unreachable environment.configPath .nameTooLong) := by
  split_ifs with hlength
  · have hshort : Files.IsShort environment.configDirectory "config.yaml" :=
      ⟨hlength, by decide⟩
    have hstatus : files.status environment.configPath = Entry.status (files.at? (configPlace home)) :=
      h.status_append isLeaf_configPath hshort
    rcases h.config with hnone | hfile
    · rw [hnone] at hstatus
      exact load_of_status_none hstatus
    · rw [hfile] at hstatus
      rw [load_of_status_some hstatus]
      exact ofContent_defaultText hdefault
  · exact load_of_status_error (status_configPath_of_long h.directory hlength)

theorem IsHome.of_at? (h : environment.IsHome files home)
    (hkeeps : Files.KeepsDirectories files files')
    (hprogram : files'.at? (programPlace home) = files.at? (programPlace home) ∨
      files'.at? (programPlace home) = some .directory)
    (hconfig : files'.at? (configPlace home) = files.at? (configPlace home) ∨
      files'.at? (configPlace home) = some (.file defaultText))
    (hstore : files'.at? (storePlace home) = files.at? (storePlace home) ∨
      files'.at? (storePlace home) = some .directory) : environment.IsHome files' home where
  directory := h.directory.of_keepsDirectories hkeeps
  program := by
    rcases hprogram with hsame | hdirectory
    · rw [hsame]
      exact h.program
    · exact Or.inr hdirectory
  config := by
    rcases hconfig with hsame | hfile
    · rw [hsame]
      exact h.config
    · exact Or.inr hfile
  store := by
    rcases hstore with hsame | hdirectory
    · rw [hsame]
      exact h.store
    · exact Or.inr hdirectory

theorem IsHome.makeDirectories_program (h : environment.IsHome files home)
    (hlength : environment.configDirectory.length ≤ Files.longestPath) :
    ∃ made, files.makeDirectories environment.configDirectory = (.ok (), made) ∧
      Files.KeepsDirectories files made ∧
      made.IsDirectory environment.configDirectory (programPlace home) ∧
      ∀ q, made.at? q = if q = programPlace home then some .directory else files.at? q := by
  rcases h.program with hnone | hprogram
  · obtain ⟨made, hmake, hadds, hat⟩ := h.directory.makeDirectories_append isLeaf_configDirectory
      (isShort_program hlength) hnone
    refine ⟨made, hmake, hadds.keepsDirectories, ?_, hat⟩
    exact isDirectory_program (h.directory.of_keepsDirectories hadds.keepsDirectories) hlength
      (by rw [hat, if_pos rfl])
  · have hdirectory := isDirectory_program h.directory hlength hprogram
    refine ⟨files, Store.makeDirectories_of_isDirectory hdirectory, ⟨fun _ h => h, rfl⟩,
      hdirectory, ?_⟩
    intro q
    split_ifs with hq
    · rw [hq, hprogram]
    · rfl

theorem IsHome.makeDirectories_store (h : environment.IsHome files home)
    (hlength : environment.defaultStore.directory.length ≤ Files.longestPath) :
    ∃ made, files.makeDirectories environment.defaultStore.directory = (.ok (), made) ∧
      made.IsDirectory environment.defaultStore.directory (storePlace home) ∧
      ∀ q, made.at? q = if q = storePlace home then some .directory
        else if q = programPlace home then some .directory else files.at? q := by
  have hshort : Files.IsShort environment.configDirectory "objects" := ⟨hlength, by decide⟩
  have hprogramLength := length_configDirectory_le h.directory isLeaf_storeDirectory hlength
  have hstore {made : Files} (hkeeps : Files.KeepsDirectories files made)
      (hprogram : made.at? (programPlace home) = some .directory)
      (hplace : made.at? (storePlace home) = some .directory) :
      made.IsDirectory environment.defaultStore.directory (storePlace home) :=
    (isDirectory_program (h.directory.of_keepsDirectories hkeeps) hprogramLength hprogram).append
      isLeaf_storeDirectory hshort hplace
  rcases h.program with hnone | hprogram
  · obtain ⟨made, hmake, hadds, hat⟩ := h.directory.makeDirectories_append_append
      isLeaf_configDirectory isLeaf_storeDirectory (isShort_program hprogramLength) hshort hnone
    refine ⟨made, hmake, hstore hadds.keepsDirectories ?_ ?_, hat⟩
    · rw [hat, if_neg (by simp), if_pos rfl]
    · rw [hat, if_pos rfl]
  · have hdirectory := isDirectory_program h.directory hprogramLength hprogram
    have hmade {made : Files}
        (hat : ∀ q, made.at? q = if q = storePlace home then some .directory else files.at? q)
        (q : Location) : made.at? q = if q = storePlace home then some .directory
          else if q = programPlace home then some .directory else files.at? q := by
      rw [hat]
      split_ifs with _ hq
      · rfl
      · rw [hq, hprogram]
      · rfl
    rcases h.store with hnone | hplace
    · obtain ⟨made, hmake, hadds, hat⟩ :=
        hdirectory.makeDirectories_append isLeaf_storeDirectory hshort hnone
      refine ⟨made, hmake, hstore hadds.keepsDirectories ?_ ?_, hmade hat⟩
      · rw [hadds.keepsDirectories.directory _ hprogram]
      · rw [hat, if_pos rfl]
    · have hthere := hstore ⟨fun _ h => h, rfl⟩ hprogram hplace
      refine ⟨files, Store.makeDirectories_of_isDirectory hthere, hthere, hmade ?_⟩
      intro q
      split_ifs with hq
      · rw [hq, hplace]
      · rfl

theorem IsHome.at?_makeDirectories (h : environment.IsHome files home) (q : Location) :
    (files.makeDirectories environment.defaultStore.directory).2.at? q = files.at? q ∨
      (q = programPlace home ∨ q = storePlace home) ∧
        (files.makeDirectories environment.defaultStore.directory).2.at? q = some .directory := by
  by_cases hlong : Files.longestPath < environment.defaultStore.directory.length
  · rw [Files.makeDirectories_of_long (plain_store h.directory) hlong]
    exact Or.inl rfl
  · obtain ⟨made, hmake, _, hat⟩ := h.makeDirectories_store (by omega)
    rw [hmake]
    dsimp only
    rw [hat]
    split_ifs with hstore hprogram
    · exact Or.inr ⟨Or.inr hstore, rfl⟩
    · exact Or.inr ⟨Or.inl hprogram, rfl⟩
    · exact Or.inl rfl

theorem IsHome.staysEmpty (h : environment.IsHome files home) :
    environment.defaultStore.StaysEmpty files := by
  intro leaf
  rw [target_store h.directory]
  rcases h.at?_makeDirectories (leaf :: storePlace home) with hsame | ⟨hplace, _⟩
  · exact hsame
  · rcases hplace with heq | heq
    · exact absurd heq (ne_of_apply_ne List.length (Nat.ne_of_gt (by simp)))
    · exact absurd heq (ne_of_apply_ne List.length (Nat.ne_of_gt (by simp)))

theorem IsHome.of_staysWithin (h : environment.IsHome files home)
    (hwithin : environment.defaultStore.StaysWithin files files') : environment.IsHome files' home := by
  have hat (q : Location) (hq : q.length < home.length + 3) : files'.at? q = files.at? q ∨
      (q = programPlace home ∨ q = storePlace home) ∧ files'.at? q = some .directory := by
    have houtside : ∀ leaf, q ≠ leaf :: files.target environment.defaultStore.directory := by
      rw [target_store h.directory]
      rintro leaf rfl
      simp at hq
    rcases hwithin.at? q houtside with hsame | hmade
    · exact Or.inl hsame
    · rw [hmade]
      exact h.at?_makeDirectories q
  refine h.of_at? hwithin.directories ?_ ?_ ?_
  · exact (hat _ (by simp)).imp_right And.right
  · rcases hat (configPlace home) (by simp) with hsame | ⟨hplace | hplace, _⟩
    · exact Or.inl hsame
    · exact absurd hplace (by simp)
    · exact absurd hplace.symm (storePlace_ne_configPlace home)
  · exact (hat _ (by simp)).imp_right And.right

theorem IsHome.contains_eq_false (h : environment.IsHome files home) {objects : Store.Objects}
    (hholds : environment.defaultStore.Holds files objects) {name : Text}
    (hvalid : Workload.isValidName name = true)
    (hshort : Files.IsShort environment.defaultStore.directory (Store.fileLeaf name))
    (hobject : objects name = none) : environment.defaultStore.contains files name = .ok false := by
  have hleaf := Store.isLeaf_fileLeaf hvalid
  have hlength : environment.defaultStore.directory.length ≤ Files.longestPath :=
    Nat.le_trans (length_append (plain_store h.directory).ne_nil hleaf) hshort.1
  have hstoreShort : Files.IsShort environment.configDirectory "objects" := ⟨hlength, by decide⟩
  have hnone : files.at? (Store.fileLeaf name :: storePlace home) = none := by
    by_contra hne
    rw [← target_store h.directory] at hne
    obtain ⟨other, w, hother, heq⟩ := hholds.only _ hne
    rw [Store.fileLeaf_injective heq, hother] at hobject
    cases hobject
  have hstatus : files.status (environment.defaultStore.file name) = .ok none := by
    have hdirectory : files.status environment.defaultStore.directory =
        Entry.status (files.at? (storePlace home)) :=
      h.status_append isLeaf_storeDirectory hstoreShort
    rcases h.store with hmissing | hthere
    · rw [hmissing] at hdirectory
      exact Files.status_append_of_status (plain_store h.directory) hleaf hshort.1 hdirectory
    · have hne : files.at? (storePlace home) ≠ none := by simp [hthere]
      have hprogram := Files.at?_holder hne
      have hprogramLength := length_configDirectory_le h.directory isLeaf_storeDirectory hlength
      have hplace : files.IsDirectory environment.defaultStore.directory (storePlace home) :=
        (isDirectory_program h.directory hprogramLength hprogram).append isLeaf_storeDirectory
          hstoreShort hthere
      rw [Store.file_eq, hplace.status_append hleaf hshort, hnone]
      rfl
  rw [Store.contains, if_pos hvalid, Store.hasFile, Files.existsAt, hstatus]
  rfl

/-- An object that can be written is created under any name that is free and not too long. -/
theorem IsHome.create_succeeds {world : World} (h : environment.IsHome world.files home)
    {objects : Store.Objects} (hholds : environment.defaultStore.Holds world.files objects)
    {w : Workload} (hvalid : Workload.isValidName w.name = true) (hobject : objects w.name = none)
    (hshort : Files.IsShort environment.defaultStore.directory (Store.draftLeaf w.name))
    (hreplicas : 0 ≤ w.replicas.toInt) (hcontent : ∃ content,
      Workload.render environment.format { w with version := 1 } = .ok content) :
    (environment.defaultStore.create world w).1 = .ok { w with version := 1 } := by
  have hplain := plain_store h.directory
  have hdraft := Store.isLeaf_draftLeaf hvalid
  have hshortFile := hshort.of_length_le hplain.ne_nil hdraft (Store.isLeaf_fileLeaf hvalid)
    (Store.length_fileLeaf_le w.name)
  obtain ⟨made, hmake, hdirectory, _⟩ :=
    h.makeDirectories_store (Nat.le_trans (length_append hplain.ne_nil hdraft) hshort.1)
  rw [← target_store h.directory] at hdirectory
  apply hholds.create_succeeds h.staysEmpty hvalid hreplicas hcontent
    (h.contains_eq_false hholds hvalid hshortFile hobject)
  · rw [hmake]
  · rw [hmake]
    exact hdirectory
  · exact hshort

theorem IsHome.createDefault_cases (h : environment.IsHome files home) :
    (createDefault environment files).2 = files ∨
      Files.KeepsDirectories files (createDefault environment files).2 ∧
        ∀ q, (createDefault environment files).2.at? q =
          if q = configPlace home then some (.file defaultText)
          else if q = programPlace home then some .directory else files.at? q := by
  unfold createDefault
  cases hpresent : isPresent environment files with
  | error cause => exact Or.inl rfl
  | ok present =>
    cases present with
    | true => exact Or.inl rfl
    | false =>
      have hlength : environment.configPath.length ≤ Files.longestPath := by
        by_contra hlong
        rw [isPresent, isPresentAt, Files.existsAt,
          status_configPath_of_long h.directory hlong] at hpresent
        cases hpresent
      have hshort : Files.IsShort environment.configDirectory "config.yaml" :=
        ⟨hlength, by decide⟩
      have hparent : environment.configPath.parent = environment.configDirectory :=
        parent_append_append h.directory.plain.ne_nil isLeaf_configDirectory isLeaf_configPath
      obtain ⟨made, hmake, hkeeps, hdirectory, hat⟩ := h.makeDirectories_program
        (length_configDirectory_le h.directory isLeaf_configPath hlength)
      have hconfig : made.isClosed (configPlace home) = false := by
        rw [Files.isClosed, hat, if_neg (by simp)]
        rcases h.config with hnone | hfile
        · rw [hnone]
          rfl
        · rw [hfile]
          rfl
      obtain ⟨written, hwrite, hsame, hat'⟩ :=
        hdirectory.write_file isLeaf_configPath hshort hconfig defaultText
      change made.write? environment.configPath defaultText = _ at hwrite
      refine Or.inr ?_
      simp only [writeDefault, hparent, hmake, hwrite]
      refine ⟨hkeeps.trans hsame.keepsDirectories, ?_⟩
      intro q
      rw [hat', hat]

theorem IsHome.createDefault (h : environment.IsHome files home) {objects : Store.Objects}
    (hholds : environment.defaultStore.Holds files objects) :
    environment.IsHome (createDefault environment files).2 home ∧
      environment.defaultStore.Holds (createDefault environment files).2 objects := by
  rcases h.createDefault_cases with hsame | ⟨hkeeps, hat⟩
  · rw [hsame]
    exact ⟨h, hholds⟩
  · constructor
    · apply h.of_at? hkeeps
      · rw [hat, if_neg (by simp), if_pos rfl]
        exact Or.inr rfl
      · rw [hat, if_pos rfl]
        exact Or.inr rfl
      · rw [hat, if_neg (storePlace_ne_configPlace home), if_neg (by simp)]
        exact Or.inl rfl
    · apply hholds.of_keepsDirectories hkeeps
      intro leaf
      rw [target_store h.directory, hat, if_neg (by simp),
        if_neg (ne_of_apply_ne List.length (Nat.ne_of_gt (by simp)))]

end Environment

end StableOrdinals
