import StableOrdinals.Proofs.CommandLine.Failure
import StableOrdinals.Proofs.CommandLine.Home

/-!
# Writing the default configuration

`init` writes the default configuration where nothing stands yet, and the default is also what holds
without a configuration file. That it is read as it was written is up to the format. Whatever stands
there already is left as it is. So a client that starts after a successful `init` finds the
configuration that it would have found before: `init_keeps_configuration`.

In particular a configuration that cannot be used (`Config.IsUsable`) is not repaired, although this
is what a client advises that cannot use it (`init_leaves_empty_key`).
-/

namespace StableOrdinals

theorem Files.status_of_write? {files written : Files} {path : Path} {content : Text}
    (h : files.write? path content = some written) :
    written.status path = .ok (some (.file content)) := by
  unfold write? at h
  cases hlocate : files.locate path with
  | error cause => simp [hlocate] at h
  | ok place =>
    cases place with
    | nil => simp [hlocate] at h
    | cons name holder =>
      have h : files.put? name holder (.file content) = some written := by
        simp only [hlocate, Option.ite_none_left_eq_some] at h
        exact h.2
      have hplace := (sameDirectories_put? h).locate_eq_ok hlocate
      have hat : written.at? (name :: holder) = some (.file content) := by
        rw [at?_put? h, if_pos rfl]
      have hentry : written.entryAt path = .ok (.file content) := by
        rw [entryAt, hplace]
        exact congrArg Entry.found hat
      rw [status, hentry]

namespace Config

variable {environment : Environment} {files after : Files}

variable (environment files) in
/-- There is no configuration file, or the format reads it as a document in which the two entries
can be looked up and the annotation is named by a text that is not empty if it is named at all. -/
def IsUsable : Prop :=
  files.status environment.configPath = .ok none ∨
    ∃ entry content document key directory, files.status environment.configPath = .ok (some entry) ∧
      entry.content? = some content ∧ environment.format.read content = .ok document ∧
      document.find? "annotation_key" = .ok key ∧ document.find? "store_dir" = .ok directory ∧
      (key = none ∨ textOf key ≠ [])

theorem exists_ofDocument_iff {path : Path} {document : Document} :
    (∃ config, ofDocument environment path document = .ok config) ↔
      ∃ key directory, document.find? "annotation_key" = .ok key ∧
        document.find? "store_dir" = .ok directory ∧ (key = none ∨ textOf key ≠ []) := by
  unfold ofDocument
  cases document.find? "annotation_key" with
  | error cause => simp [Except.mapError, bind, Except.bind]
  | ok key =>
    by_cases hempty : key.isSome = true ∧ textOf key = []
    · have hsome : key ≠ none := Option.isSome_iff_ne_none.1 hempty.1
      simp [Except.mapError, bind, Except.bind, hempty, hsome]
    · have hkey : key = none ∨ textOf key ≠ [] := by
        rw [not_and_or, Option.not_isSome_iff_eq_none] at hempty
        exact hempty
      cases document.find? "store_dir" <;>
        simp [Except.mapError, bind, Except.bind, hempty, hkey]

theorem exists_ofContent_iff {path : Path} {content : Text} :
    (∃ config, ofContent environment path content = .ok config) ↔
      ∃ document key directory, environment.format.read content = .ok document ∧
        document.find? "annotation_key" = .ok key ∧
        document.find? "store_dir" = .ok directory ∧ (key = none ∨ textOf key ≠ []) := by
  unfold ofContent
  cases environment.format.read content with
  | error cause => simp [Except.mapError, bind, Except.bind]
  | ok document => simp [Except.mapError, bind, Except.bind, exists_ofDocument_iff]

theorem exists_load_iff :
    (∃ config, load environment files = .ok config) ↔ IsUsable environment files := by
  unfold IsUsable
  cases hstatus : files.status environment.configPath with
  | error cause => simp [load_of_status_error hstatus]
  | ok found =>
    cases found with
    | none => simp [load_of_status_none hstatus]
    | some entry =>
      rw [load_of_status_some hstatus]
      cases hcontent : entry.content? with
      | none => simp [hcontent]
      | some content => simp [hcontent, exists_ofContent_iff]

theorem createDefault_of_status_ne (h : files.status environment.configPath ≠ .ok none) :
    (createDefault environment files).2 = files := by
  unfold createDefault
  cases hstatus : files.status environment.configPath with
  | error cause =>
    have hpresent : isPresent environment files =
        .error (.unreachable environment.configPath cause) := by
      rw [isPresent, isPresentAt, Files.existsAt, hstatus]
      rfl
    rw [hpresent]
  | ok found =>
    cases found with
    | none => exact absurd hstatus h
    | some entry =>
      have hpresent : isPresent environment files = .ok true := isPresentAt_of_status hstatus
      rw [hpresent]

theorem status_of_writeDefault (h : writeDefault environment files = (.ok (), after)) :
    after.status environment.configPath = .ok (some (.file defaultText)) := by
  unfold writeDefault at h
  cases hmake : files.makeDirectories environment.configPath.parent with
  | mk answer made =>
    cases answer with
    | error cause => simp [hmake] at h
    | ok _ =>
      cases hwrite : made.write? environment.configPath defaultText with
      | none => simp [hmake, hwrite] at h
      | some written =>
        simp only [hmake, hwrite, Prod.mk.injEq, true_and] at h
        rw [← h]
        exact Files.status_of_write? hwrite

theorem load_of_createDefault (hdefault : environment.format.ReadsDefault)
    (h : createDefault environment files = (.ok (), after)) :
    load environment after = load environment files := by
  by_cases hnone : files.status environment.configPath = .ok none
  · have hpresent : isPresent environment files = .ok false := isPresentAt_of_status hnone
    rw [createDefault, hpresent] at h
    rw [load_of_status_none hnone, load_of_status_some (status_of_writeDefault h)]
    exact ofContent_defaultText hdefault
  · have hfiles := createDefault_of_status_ne hnone
    rw [h] at hfiles
    rw [← hfiles]

end Config

namespace CommandLine

open Procedure

theorem ends_init (client : Client) (session : Session) :
    Ends client.init session
      (fun _ after =>
        Config.createDefault client.environment session.world.files = (.ok (), after.world.files))
      (fun _ after =>
        after.world.files = (Config.createDefault client.environment session.world.files).2) := by
  unfold Client.init
  simp only [ends_bind, ends_files, ofConfig, ends_liftM]
  cases hpresent : Config.isPresent client.environment session.world.files with
  | error cause =>
    have hfiles : (Config.createDefault client.environment session.world.files).2 =
        session.world.files := by
      rw [Config.createDefault, hpresent]
    exact hfiles.symm
  | ok present =>
    simp only [Except.mapError]
    rw [ends_act]
    cases hdefault : Config.createDefault client.environment session.world.files with
    | mk answer files =>
      cases answer with
      | error cause => rfl
      | ok _ => cases present <;> rfl

variable {environment : Environment} {arguments : List Text} {world : World}

/-- If `init` succeeds, then it has been called without arguments and the default configuration has
been written or left out. -/
theorem createDefault_of_init (h : (runCommand environment "init" arguments world).exit = 0) :
    Config.createDefault environment world.files =
      (.ok (), (runCommand environment "init" arguments world).world.files) := by
  rcases start_cases environment world with
    ⟨cause, _, _, hstart⟩ | ⟨client, started, hstart, rfl, _, hfiles⟩
  · rw [runCommand, withClient, hstart] at h
    cases h
  · have hrun : runCommand client.environment "init" arguments world = _ :=
      runCommand_name hstart .init arguments
    rw [hrun] at h ⊢
    cases arguments with
    | cons argument more => cases h
    | nil =>
      rcases conclude_cases (ends_init client ⟨started, []⟩) Command.init.name with
        ⟨session, hconclude, hdefault⟩ | ⟨failure, session, hconclude, _⟩
      · rw [Command.perform, hconclude, ← hfiles]
        exact hdefault
      · rw [Command.perform, hconclude] at h
        cases h

/-- After a successful `init` a client starts as it would have started before, so that it has a
configuration if and only if there was none that could not be used. One that cannot be used stays.
-/
theorem init_keeps_configuration (environment : Environment)
    (hdefault : environment.format.ReadsDefault) (arguments : List Text) (world : World)
    (h : (runCommand environment "init" arguments world).exit = 0) :
    let outcome := runCommand environment "init" arguments world
    (∃ client before after, Client.start environment world = .ok (client, before) ∧
      Client.start environment outcome.world = .ok (client, after) ∧
      ((∃ config, Config.load environment outcome.world.files = .ok config ∧
          client.requireConfig = pure config) ↔ Config.IsUsable environment world.files)) ∧
      (¬ Config.IsUsable environment world.files → outcome.world.files = world.files) := by
  intro outcome
  have hcreate : Config.createDefault environment world.files = (.ok (), outcome.world.files) :=
    createDefault_of_init h
  have hload := Config.load_of_createDefault hdefault hcreate
  constructor
  · rcases start_cases environment world with
      ⟨cause, _, _, hstart⟩ | ⟨client, before, hstart, rfl, hclient, _⟩
    · rw [runCommand, withClient, hstart] at h
      cases h
    · rcases start_cases client.environment outcome.world with
        ⟨cause, hcause, hfailed, _⟩ | ⟨client', after, hstart', hsame, hclient', _⟩
      · -- The same failure would have kept the client from starting before.
        rw [hload] at hfailed
        rw [Client.start, hfailed] at hstart
        dsimp only at hstart
        rw [if_pos hcause] at hstart
        cases hstart
      · obtain rfl : client' = client := by
          obtain ⟨_, _⟩ := client
          obtain ⟨_, _⟩ := client'
          cases hsame
          exact congrArg _ (hclient'.trans (hload.trans hclient.symm))
        refine ⟨client', before, after, hstart, hstart', ?_⟩
        rw [← Config.exists_load_iff, ← hload]
        constructor
        · rintro ⟨config, hconfig, _⟩
          exact ⟨config, hconfig⟩
        · rintro ⟨config, hconfig⟩
          refine ⟨config, hconfig, ?_⟩
          rw [Client.requireConfig, hclient', hconfig]
  · intro hunusable
    have hne : world.files.status environment.configPath ≠ .ok none :=
      fun hnone => hunusable (Or.inl hnone)
    have hfiles := Config.createDefault_of_status_ne hne
    rw [hcreate] at hfiles
    exact hfiles

/-- Where nothing stands yet, there is a configuration afterwards. -/
theorem init_keeps_configuration_missing :
    let environment : Environment := ⟨some "/home", "/tmp", Block.format "no block notation"⟩
    let world : World := ⟨Files.empty [], []⟩
    let outcome := runCommand environment "init" [] world
    outcome.exit = 0 ∧ Config.IsUsable environment world.files ∧
      ∃ client started config, Client.start environment outcome.world = .ok (client, started) ∧
        Config.load environment outcome.world.files = .ok config ∧
        client.requireConfig = pure config := by
  intro environment world outcome
  have hexit : outcome.exit = 0 := by decide +kernel
  have husable : Config.IsUsable environment world.files := Or.inl (by decide +kernel)
  clear_value world
  obtain ⟨⟨client, _, started, _, hstart, hconfigured⟩, _⟩ :=
    init_keeps_configuration environment (Block.readsDefault _) [] world hexit
  obtain ⟨config, hload, hrequire⟩ := hconfigured.2 husable
  exact ⟨hexit, husable, client, started, config, hstart, hload, hrequire⟩

/-- An empty annotation key is left where it is, and the next command gives the same advice again.
-/
theorem init_leaves_empty_key :
    let environment : Environment := ⟨some "/home", "/tmp", Block.format "no block notation"⟩
    let path := environment.configPath
    let made := ((Files.empty []).makeDirectories environment.configDirectory).2
    let world : World := ⟨(made.write? path "annotation_key: \"\"\n").getD made, []⟩
    let outcome := runCommand environment "init" [] world
    outcome.exit = 0 ∧ Config.load environment outcome.world.files = .error (.emptyKey path) ∧
      (runCommand environment "list" [] outcome.world).output =
        Style.failure (ConfigError.emptyKey path).message
          ++ Style.hint ("Fix " ++ path ++ " or run 'slotctl init'.") := by
  decide +kernel

end CommandLine

end StableOrdinals
