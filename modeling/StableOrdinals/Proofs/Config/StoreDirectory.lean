import StableOrdinals.Block.Notation
import StableOrdinals.Config
import StableOrdinals.Proofs.Files.Paths

/-!
# The configured store directory

A configuration file names the directory of the store by a path, in which a tilde and a slash in
front stand for the home directory. The rest of the path is put behind the path of the home
directory as paths are joined everywhere, so that an absolute rest takes its place.

Hence the directory lies below the home directory, component by component, unless the rest is
absolute: `store_directory_below_home`. A second slash behind the tilde is enough for that
(`second_slash_leaves_home`).
-/

namespace StableOrdinals

open StableOrdinals.Path

namespace Environment

theorem expand_tilde (environment : Environment) (rest : Text) (configFile : Path) :
    environment.expand ("~/" ++ rest) configFile = environment.homeDirectory.append rest := by
  have htilde : Text.ofString "~/" ++ rest ≠ Text.ofString "~" := by
    intro heq
    exact List.cons_ne_nil _ _ (List.cons.inj heq).2
  have hfront : (Text.ofString "~/" ++ rest).take 2 = Text.ofString "~/" := rfl
  rw [expand, if_neg htilde, if_pos hfront]
  rfl

end Environment

namespace Config

variable {environment : Environment} {files : Files} {path : Path} {config : Config}
  {document : Document}

theorem ofDocument_of_loadFile (hload : loadFile environment files path = .ok config)
    {content : Text} (hcontent : files.read? path = some content)
    (hread : environment.format.read content = .ok document) :
    ofDocument environment path document = .ok config := by
  unfold loadFile at hload
  cases hpresent : isPresentAt files path with
  | error cause =>
    rw [hpresent] at hload
    cases hload
  | ok present =>
    rw [hpresent] at hload
    cases present with
    | false => cases hload
    | true =>
      simp only [hcontent, ofContent, hread] at hload
      exact hload

theorem storeDirectory_of_ofDocument (h : ofDocument environment path document = .ok config)
    {directory : Option Document.Node} (hfind : document.find? "store_dir" = .ok directory)
    (hne : textOf directory ≠ []) :
    config.storeDirectory = environment.expand (textOf directory) path := by
  unfold ofDocument at h
  cases hkey : document.find? "annotation_key" with
  | error cause =>
    rw [hkey] at h
    cases h
  | ok key =>
    simp only [hkey, hfind, Except.mapError, bind, Except.bind] at h
    split_ifs at h
    · obtain rfl := Except.ok.inj h
      rfl
    · obtain rfl := Except.ok.inj h
      rfl

/-- The store directory that is given by a tilde, a slash and a rest is the rest put behind the path
of the home directory. The components of both make up its components if the rest is not absolute,
and otherwise only if the home directory has none. -/
theorem store_directory_below_home {home : Path} {rest content : Text}
    {directory : Option Document.Node} (hhome : environment.home = some home)
    (hcontent : files.read? path = some content)
    (hread : environment.format.read content = .ok document)
    (hfind : document.find? "store_dir" = .ok directory)
    (hdirectory : textOf directory = "~/" ++ rest)
    (hload : loadFile environment files path = .ok config) :
    config.storeDirectory = home.append rest ∧
      (pieces config.storeDirectory = pieces home ++ pieces rest ↔
        isAbsolute rest = false ∨ pieces home = []) := by
  have hne : textOf directory ≠ [] := by
    rw [hdirectory]
    exact List.cons_ne_nil _ _
  have hstore : config.storeDirectory = home.append rest := by
    rw [storeDirectory_of_ofDocument (ofDocument_of_loadFile hload hcontent hread) hfind hne,
      hdirectory, environment.expand_tilde, Environment.homeDirectory, hhome]
    rfl
  refine ⟨hstore, ?_⟩
  rw [hstore]
  cases habsolute : isAbsolute rest with
  | false => exact iff_of_true (pieces_append habsolute) (Or.inl rfl)
  | true =>
    rw [append_of_isAbsolute habsolute, List.self_eq_append_left]
    simp

/-- Slashes at the end of the path of the home directory and empty components of the rest are passed
over. -/
theorem store_directory_below_home_alice :
    let environment : Environment := ⟨some "/home/alice/", "/tmp", Block.format "no block notation"⟩
    let content : Text := "store_dir: '~/a//b/'  # of all clients\n"
    let files := ((Files.empty []).write? "config.yaml" content).getD (Files.empty [])
    let path : Path := "config.yaml"
    let config : Config := ⟨"delete-slots", "/home/alice/a//b/"⟩
    files.read? path = some content ∧
      (∃ document directory, environment.format.read content = .ok document ∧
        document.find? "store_dir" = .ok directory ∧
        textOf directory = "~/" ++ Text.ofString "a//b/") ∧
      loadFile environment files path = .ok config ∧
      pieces config.storeDirectory = (["home", "alice", "a", "b"] : List Text) := by
  intro environment content files path config
  have hcontent : files.read? path = some content := by decide +kernel
  have hlines : Block.read? content = some [⟨0, "store_dir", .scalar "~/a//b/"⟩] := by
    decide +kernel
  have hread := Block.read_of_read? (Text.ofString "no block notation") hlines
  have hload : loadFile environment files path = .ok config := by decide +kernel
  have hdirectory : textOf (some (Block.Node.scalar "~/a//b/").view) =
      "~/" ++ Text.ofString "a//b/" := by decide
  have hfind : (Block.view [⟨0, "store_dir", .scalar "~/a//b/"⟩]).find? "store_dir" =
      .ok (some (Block.Node.scalar "~/a//b/").view) := rfl
  clear_value content
  obtain ⟨_, hbelow⟩ := store_directory_below_home rfl hcontent hread hfind hdirectory hload
  exact ⟨hcontent, ⟨_, _, hread, hfind, hdirectory⟩, hload,
    (hbelow.2 (Or.inl rfl)).trans (by decide)⟩

/-- A second slash makes the rest absolute, and the directory is elsewhere. -/
theorem second_slash_leaves_home :
    let environment : Environment := ⟨some "home", "tmp", Block.format "no block notation"⟩
    let content : Text := "store_dir: '~//abs'\n"
    let files := ((Files.empty []).write? "config.yaml" content).getD (Files.empty [])
    let path : Path := "config.yaml"
    (∃ document directory, environment.format.read content = .ok document ∧
        document.find? "store_dir" = .ok directory ∧
        textOf directory = "~/" ++ Text.ofString "/abs") ∧
      loadFile environment files path = .ok ⟨"delete-slots", "/abs"⟩ ∧
      pieces "/abs" ≠ pieces "home" ++ pieces "/abs" := by
  intro environment content files path
  have hlines : Block.read? content = some [⟨0, "store_dir", .scalar "~//abs"⟩] := by
    decide +kernel
  have hread := Block.read_of_read? (Text.ofString "no block notation") hlines
  have hdirectory : textOf (some (Block.Node.scalar "~//abs").view) =
      "~/" ++ Text.ofString "/abs" := by decide
  have hfind : (Block.view [⟨0, "store_dir", .scalar "~//abs"⟩]).find? "store_dir" =
      .ok (some (Block.Node.scalar "~//abs").view) := rfl
  have hload : loadFile environment files path = .ok ⟨"delete-slots", "/abs"⟩ := by decide +kernel
  clear_value content files
  exact ⟨⟨_, _, hread, hfind, hdirectory⟩, hload, by decide⟩

end Config

end StableOrdinals
